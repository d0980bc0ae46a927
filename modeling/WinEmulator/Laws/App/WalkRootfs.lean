import Mathlib.Data.List.Perm.Subperm
import WinEmulator.App.RootfsArchive
import WinEmulator.Lib.Subtree

/-!
# The walk over a rootfs

In a rootfs every directory can be read and searched, so a path below it leads to the node it names.
The walk of the exporter comes by every node once, and by a directory before what is in it.
-/

set_option autoImplicit false

namespace WinEmulator.App.Rootfs

open WinEmulator.Lib WinEmulator.Lib.Fs WinEmulator.Lib.JavaFile

/-! ## The tree of a rootfs -/

section Tree

variable {fs : FileSystem} {root : Loc} {rootfsDir : Path}

/-- A rootfs: its files can be read and its directories read and searched, and there is nothing of
another proot in it. -/
structure IsRootfs (fs : FileSystem) (root : Loc) : Prop where
  dir : ∃ m, fs.get root = some (.dir m)
  etc : fs.get (root ++ ["etc".toList]) ≠ none
  usr : fs.get (root ++ ["usr".toList]) ≠ none
  files : ∀ rel content m, fs.get (root ++ rel) = some (.file content m) → grants m .read = true
  dirs : ∀ rel m, fs.get (root ++ rel) = some (.dir m) → grants m .read = true ∧
    grants m .search = true
  /-- No link points to an empty target. -/
  links : ∀ rel target, fs.get (root ++ rel) = some (.link target) → target ≠ []
  names : ∀ rel, fs.get (root ++ rel) ≠ none → ∀ c ∈ rel, ".l2s.".toList.isPrefixOf c = false
  targets : ∀ rel target, fs.get (root ++ rel) = some (.link target) →
    ".l2s.".toList.isPrefixOf (getName (components target)) = false

/-- Where the tree is. -/
structure Source (fs : FileSystem) (root : Loc) (rootfsDir : Path) : Prop where
  closed : Closed fs
  place : place fs rootfsDir = some root
  isRootfs : IsRootfs fs root

namespace Source

theorem ne_nil (h : Source fs root rootfsDir) : root ≠ [] := ne_nil_of_place_some h.place

theorem path (h : Source fs root rootfsDir) : resolve fs false rootfsDir = some root := by
  obtain ⟨m, hm⟩ := h.isRootfs.dir
  exact resolve_of_place_dir h.place hm

theorem search (h : Source fs root rootfsDir) {rel : List Name} {m : Mode}
    (hm : fs.get (root ++ rel) = some (.dir m)) :
    dirGrants fs (root ++ rel) .search = true := by
  rw [dirGrants, node_of_ne_nil (List.append_ne_nil_of_left_ne_nil h.ne_nil _), hm]
  exact (h.isRootfs.dirs rel m hm).2

/-- The names on the way to a node. -/
theorem names (h : Source fs root rootfsDir) {rel : List Name}
    (hget : fs.get (root ++ rel) ≠ none) :
    ∀ c ∈ rel, Proper c ∧ '/' ∉ c :=
  h.closed.names_below h.ne_nil hget

/-- The way to every file of the source is clear. -/
theorem clear (h : Source fs root rootfsDir) {rel : List Name}
    (hget : fs.get (root ++ rel) ≠ none) :
    Clear fs (root ++ rel) := by
  induction rel using List.reverseRecOn with
  | nil =>
    rw [List.append_nil]
    exact walk_clear clear_nil h.path
  | append_singleton rel c ih =>
    obtain ⟨m, hm⟩ := h.closed.parent h.ne_nil hget
    rw [← List.append_assoc]
    exact (ih (by rw [hm]; exact nofun)).concat (h.names hget c (by simp)).1 (h.search hm)

/-- Every file is seen as what it is. -/
theorem lstat_eq (h : Source fs root rootfsDir) {rel : List Name}
    (hget : fs.get (root ++ rel) ≠ none) :
    lstat fs (rootfsDir ++ rel) = fs.get (root ++ rel) := by
  cases rel using List.reverseRecOn with
  | nil =>
    rw [List.append_nil, List.append_nil, lstat, h.place, Option.bind_some]
  | append_singleton rel c => rw [lstat, place_below h.path (h.clear hget), Option.bind_some]

/-- A listing has all the children of its directory. -/
theorem listDirectoryEntries_eq (h : Source fs root rootfsDir) {rel : List Name} {m : Mode}
    (hm : fs.get (root ++ rel) = some (.dir m)) :
    listDirectoryEntries fs (rootfsDir ++ rel) =
      some ((children fs (root ++ rel)).map fun c => rootfsDir ++ (rel ++ [c])) := by
  have hread : dirGrants fs (root ++ rel) .read = true := by
    rw [dirGrants, node_of_ne_nil (List.append_ne_nil_of_left_ne_nil h.ne_nil _), hm]
    exact (h.isRootfs.dirs rel m hm).1
  rw [listDirectoryEntries, list,
    resolve_dir_below h.path (h.clear (Option.ne_none_iff_exists'.mpr ⟨_, hm⟩)) (h.search hm),
    Option.bind_some, if_pos hread]
  simp only [Option.map_some, List.append_assoc]

end Source

/-! ## The walk -/

/-- None is in the tree of the other. -/
def Apart (q q' : List Name) : Prop := ¬ q <+: q' ∧ ¬ q' <+: q

/-- The walk comes by every node below the given ones once, and by a directory before what is in
it. -/
structure Visits (fs : FileSystem) (root : Loc) (rels visited : List (List Name)) : Prop where
  nodup : visited.Nodup
  mem : ∀ r, r ∈ visited ↔ fs.get (root ++ r) ≠ none ∧ ∃ q ∈ rels, q <+: r
  order : ∀ pre r post, visited = pre ++ r :: post → r ∈ rels ∨ r.dropLast ∈ pre

theorem visits_nil : Visits fs root [] [] :=
  ⟨List.nodup_nil, by simp, fun pre r post h => by simp at h⟩

/-- There are no more nodes than that. -/
theorem length_le_of_nodup {seen : List (List Name)} (hnodup : seen.Nodup)
    (hseen : ∀ s ∈ seen, fs.get (root ++ s) ≠ none) : seen.length ≤ fs.entries.length := by
  have hkeys : (seen.map (root ++ ·)) ⊆ fs.entries.map Prod.fst := by
    intro l hl
    obtain ⟨s, hs, rfl⟩ := List.mem_map.mp hl
    obtain ⟨n, hn⟩ := Option.ne_none_iff_exists'.mp (hseen s hs)
    exact List.mem_map.mpr ⟨_, fs.mem_of_get hn, rfl⟩
  have hdistinct : (seen.map (root ++ ·)).Nodup :=
    hnodup.map fun _ _ heq => List.append_cancel_left heq
  have := (List.subperm_of_subset hdistinct hkeys).length_le
  rwa [List.length_map, List.length_map] at this

/-- A node that is no directory. -/
theorem Visits.cons_leaf (closed : Closed fs) (hroot : root ≠ []) {r : List Name}
    {rest visited : List (List Name)}
    (hget : fs.get (root ++ r) ≠ none) (hleaf : ∀ m, fs.get (root ++ r) ≠ some (.dir m))
    (hapart : ∀ q ∈ rest, Apart r q) (h : Visits fs root rest visited) :
    Visits fs root (r :: rest) (r :: visited) where
  nodup := by
    refine List.nodup_cons.mpr ⟨fun hr => ?_, h.nodup⟩
    obtain ⟨-, q, hq, hle⟩ := (h.mem r).mp hr
    exact (hapart q hq).2 hle
  mem := by
    intro r'
    rw [List.mem_cons, h.mem]
    constructor
    · rintro (rfl | ⟨hget', q, hq, hle⟩)
      · exact ⟨hget, _, List.mem_cons_self, List.prefix_refl _⟩
      · exact ⟨hget', q, List.mem_cons_of_mem _ hq, hle⟩
    · rintro ⟨hget', q, hq, hle⟩
      rcases List.mem_cons.mp hq with rfl | hq
      · by_cases hsame : r' = q
        · exact .inl hsame
        · refine absurd (closed.below (l := root ++ q) ?_ ?_ ?_) hget'
          · rwa [List.prefix_append_right_inj]
          · exact fun heq => hsame (List.append_cancel_left heq).symm
          · rwa [node_of_ne_nil (List.append_ne_nil_of_left_ne_nil hroot _)]
      · exact .inr ⟨hget', q, hq, hle⟩
  order := by
    intro pre r' post heq
    cases pre with
    | nil =>
      obtain ⟨rfl, -⟩ := List.cons.inj heq
      exact .inl List.mem_cons_self
    | cons p pre =>
      obtain ⟨hp, hvisited⟩ := List.cons.inj heq
      rw [← hp]
      rcases h.order pre r' post hvisited with hrest | hpre
      · exact .inl (List.mem_cons_of_mem _ hrest)
      · exact .inr (List.mem_cons_of_mem _ hpre)

/-- A directory, with what is in it at the end of the queue. -/
theorem Visits.cons_dir (closed : Closed fs) {r : List Name} {rest visited : List (List Name)}
    (hget : fs.get (root ++ r) ≠ none) (hapart : ∀ q ∈ rest, Apart r q)
    (h : Visits fs root (rest ++ (children fs (root ++ r)).map fun c => r ++ [c]) visited) :
    Visits fs root (r :: rest) (r :: visited) where
  nodup := by
    refine List.nodup_cons.mpr ⟨fun hr => ?_, h.nodup⟩
    obtain ⟨-, q, hq, hle⟩ := (h.mem r).mp hr
    rcases List.mem_append.mp hq with hq | hq
    · exact (hapart q hq).2 hle
    · obtain ⟨c, -, rfl⟩ := List.mem_map.mp hq
      exact not_prefix_parent r c hle
  mem := by
    intro r'
    rw [List.mem_cons, h.mem]
    constructor
    · rintro (rfl | ⟨hget', q, hq, hle⟩)
      · exact ⟨hget, _, List.mem_cons_self, List.prefix_refl _⟩
      · rcases List.mem_append.mp hq with hq | hq
        · exact ⟨hget', q, List.mem_cons_of_mem _ hq, hle⟩
        · obtain ⟨c, -, rfl⟩ := List.mem_map.mp hq
          exact ⟨hget', r, List.mem_cons_self, (List.prefix_append r [c]).trans hle⟩
    · rintro ⟨hget', q, hq, hle⟩
      rcases List.mem_cons.mp hq with rfl | hq
      · obtain ⟨rel, rfl⟩ := hle
        cases rel with
        | nil => exact .inl (List.append_nil q)
        | cons c rel =>
          -- the node is below a child of the directory
          refine .inr ⟨hget', q ++ [c], List.mem_append_right _ (List.mem_map.mpr ⟨c, ?_, rfl⟩), ?_⟩
          · have hle : root ++ q ++ [c] <+: root ++ (q ++ c :: rel) := ⟨rel, by simp⟩
            rw [mem_children]
            intro hnone
            by_cases hrel : rel = []
            · rw [hrel, ← List.append_assoc] at hget'
              exact hget' hnone
            · refine hget' (closed.below hle (fun heq => hrel ?_) fun m => ?_)
              · rw [List.append_assoc] at heq
                simpa using (List.append_cancel_left (List.append_cancel_left heq)).symm
              · rw [node_of_ne_nil (by simp), hnone]
                exact nofun
          · exact ⟨rel, by simp⟩
      · exact .inr ⟨hget', q, List.mem_append_left _ hq, hle⟩
  order := by
    intro pre r' post heq
    cases pre with
    | nil =>
      obtain ⟨rfl, -⟩ := List.cons.inj heq
      exact .inl List.mem_cons_self
    | cons p pre =>
      obtain ⟨hp, hvisited⟩ := List.cons.inj heq
      rw [← hp]
      rcases h.order pre r' post hvisited with hrest | hpre
      · rcases List.mem_append.mp hrest with hrest | hkid
        · exact .inl (List.mem_cons_of_mem _ hrest)
        · obtain ⟨c, -, rfl⟩ := List.mem_map.mp hkid
          rw [List.dropLast_concat]
          exact .inr List.mem_cons_self
      · exact .inr (List.mem_cons_of_mem _ hpre)

/-- The walk has not come by anything of the queue yet, and there is fuel for the nodes it has not
seen. -/
structure Pending (fs : FileSystem) (root : Loc) (n : Nat) (rels seen : List (List Name)) :
    Prop where
  apart : rels.Pairwise Apart
  there : ∀ q ∈ rels, fs.get (root ++ q) ≠ none
  nodup : seen.Nodup
  past : ∀ s ∈ seen, fs.get (root ++ s) ≠ none
  new : ∀ q ∈ rels, ∀ s ∈ seen, ¬ q <+: s
  fuel : fs.entries.length ≤ n + seen.length

namespace Pending

variable {n : Nat} {r : List Name} {rest seen : List (List Name)}

theorem nodup_cons (h : Pending fs root n (r :: rest) seen) : (r :: seen).Nodup :=
  List.nodup_cons.mpr ⟨fun hr => h.new r List.mem_cons_self r hr (List.prefix_refl r), h.nodup⟩

theorem there_cons (h : Pending fs root n (r :: rest) seen) :
    ∀ s ∈ r :: seen, fs.get (root ++ s) ≠ none := by
  intro s hs
  rcases List.mem_cons.mp hs with rfl | hs
  · exact h.there _ List.mem_cons_self
  · exact h.past s hs

/-- The walk does not run out of steps while a path is pending. -/
theorem no_fuel (h : Pending fs root 0 (r :: rest) seen) : False := by
  have hle := length_le_of_nodup h.nodup_cons h.there_cons
  have hfuel := h.fuel
  rw [List.length_cons] at hle
  omega

theorem apart_head (h : Pending fs root n (r :: rest) seen) : ∀ q ∈ rest, Apart r q :=
  (List.pairwise_cons.mp h.apart).1

/-- Visiting a file that is no directory keeps the walk's invariant. -/
theorem leaf (h : Pending fs root (n + 1) (r :: rest) seen) :
    Pending fs root n rest (r :: seen) where
  apart := (List.pairwise_cons.mp h.apart).2
  there q hq := h.there q (List.mem_cons_of_mem _ hq)
  nodup := h.nodup_cons
  past := h.there_cons
  new := by
    intro q hq s hs
    rcases List.mem_cons.mp hs with rfl | hs
    · exact (h.apart_head q hq).2
    · exact h.new q (List.mem_cons_of_mem _ hq) s hs
  fuel := by
    have := h.fuel
    rw [List.length_cons]
    omega

/-- No child of a directory is below another. -/
theorem apart_children (fs : FileSystem) (l : Loc) (r : List Name) :
    ((children fs l).map fun c => r ++ [c]).Pairwise Apart := by
  refine List.Pairwise.map _ (fun c c' hne => ?_) (nodup_children fs l)
  exact ⟨not_prefix_sibling hne (List.prefix_refl _),
    not_prefix_sibling (Ne.symm hne) (List.prefix_refl _)⟩

/-- Visiting a directory, whose children join the queue, keeps the walk's invariant. -/
theorem dir (h : Pending fs root (n + 1) (r :: rest) seen) :
    Pending fs root n (rest ++ (children fs (root ++ r)).map fun c => r ++ [c]) (r :: seen) where
  apart := by
    refine List.pairwise_append.mpr ⟨h.leaf.apart, apart_children fs _ r, fun q hq q' hq' => ?_⟩
    obtain ⟨c, -, rfl⟩ := List.mem_map.mp hq'
    obtain ⟨hle, hle'⟩ := h.apart_head q hq
    refine ⟨fun hprefix => ?_, fun hprefix => hle ((List.prefix_append r [c]).trans hprefix)⟩
    rcases List.prefix_concat_iff.mp hprefix with heq | hprefix
    · exact hle (heq ▸ List.prefix_append r [c])
    · exact hle' hprefix
  there := by
    intro q hq
    rcases List.mem_append.mp hq with hq | hq
    · exact h.leaf.there q hq
    · obtain ⟨c, hc, rfl⟩ := List.mem_map.mp hq
      rw [← List.append_assoc]
      exact mem_children.mp hc
  nodup := h.nodup_cons
  past := h.there_cons
  new := by
    intro q hq s hs
    rcases List.mem_append.mp hq with hq | hq
    · exact h.leaf.new q hq s hs
    · obtain ⟨c, -, rfl⟩ := List.mem_map.mp hq
      rcases List.mem_cons.mp hs with rfl | hs
      · exact not_prefix_parent _ c
      · exact fun hle => h.new r List.mem_cons_self s hs ((List.prefix_append r [c]).trans hle)
  fuel := h.leaf.fuel

end Pending

/-- **The walk comes by every node below the given ones.** -/
theorem Source.walk_visits (h : Source fs root rootfsDir) {n : Nat} {rels seen : List (List Name)}
    (hpending : Pending fs root n rels seen) :
    ∃ visited, walk fs n (rels.map (rootfsDir ++ ·)) = some (visited.map (rootfsDir ++ ·)) ∧
      Visits fs root rels visited := by
  induction n generalizing rels seen with
  | zero =>
    cases rels with
    | nil => exact ⟨[], rfl, visits_nil⟩
    | cons r rest => exact hpending.no_fuel.elim
  | succ n ih =>
    cases rels with
    | nil => exact ⟨[], rfl, visits_nil⟩
    | cons r rest =>
      have hget := hpending.there r List.mem_cons_self
      rw [List.map_cons, walk, h.lstat_eq hget]
      obtain ⟨node, hnode⟩ := Option.ne_none_iff_exists'.mp hget
      cases node with
      | dir m =>
        obtain ⟨visited, hwalk, hvisits⟩ := ih hpending.dir
        refine ⟨r :: visited, ?_, hvisits.cons_dir h.closed hget hpending.apart_head⟩
        rw [List.map_append, List.map_map] at hwalk
        rw [hnode, if_pos (show Option.any Node.isDir (some (.dir m)) = true from rfl),
          h.listDirectoryEntries_eq hnode,
          Option.bind_some]
        exact (congrArg _ hwalk).trans rfl
      | file content m =>
        obtain ⟨visited, hwalk, hvisits⟩ := ih hpending.leaf
        refine ⟨r :: visited, ?_,
          hvisits.cons_leaf h.closed h.ne_nil hget (fun m => ?_) hpending.apart_head⟩
        · rw [hnode, if_neg (by exact nofun), hwalk]
          rfl
        · rw [hnode]
          exact nofun
      | link target =>
        obtain ⟨visited, hwalk, hvisits⟩ := ih hpending.leaf
        refine ⟨r :: visited, ?_,
          hvisits.cons_leaf h.closed h.ne_nil hget (fun m => ?_) hpending.apart_head⟩
        · rw [hnode, if_neg (by exact nofun), hwalk]
          rfl
        · rw [hnode]
          exact nofun

end Tree

end WinEmulator.App.Rootfs
