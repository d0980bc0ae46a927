import WinEmulator.Lib.LinkedDir

/-!
# What calls do below a directory

Below a directory that a path leads to, along directories that can be searched, a path is the
location it looks like: no link stands in its way. There every call does what its location allows,
and `rename` gives each node of a tree its new place.
-/

set_option autoImplicit false

namespace WinEmulator.Lib.Fs

open JavaFile

variable {fs : FileSystem} {p : Path} {l : Loc} {cs : List Name} {c : Name}

/-! ## Paths -/

theorem dropLast_below (l : Loc) (cs : List Name) (c : Name) :
    (l ++ (cs ++ [c])).dropLast = l ++ cs := by
  rw [← List.append_assoc, List.dropLast_concat]

/-- A change at a location below another one. -/
theorem get_set_below (fs : FileSystem) {l : Loc} (cs cs' : List Name) (n : Option Node) :
    (fs.set (l ++ cs) n).get (l ++ cs') = if cs' = cs then n else fs.get (l ++ cs') := by
  rw [LinkedMap.get_set]
  simp

theorem Clear.proper (h : Clear fs (l ++ cs)) : ∀ c ∈ cs, Proper c := by
  intro c hc
  obtain ⟨pre, post, rfl⟩ := List.append_of_mem hc
  refine (h (l ++ pre) c ?_).1
  rw [List.append_assoc, List.prefix_append_right_inj]
  exact ⟨post, by simp⟩

theorem Clear.grants (h : Clear fs (l ++ (cs ++ [c]))) : dirGrants fs (l ++ cs) .search = true :=
  (h (l ++ cs) c ⟨[], by simp⟩).2

/-- The directory of a clear place is clear. -/
theorem Clear.parent (h : Clear fs (l ++ (cs ++ [c]))) : Clear fs (l ++ cs) :=
  h.upto (by rw [← List.append_assoc]; exact List.prefix_append _ _)

/-- A directory that can be searched is no link. -/
theorem not_link_of_dirGrants {a : Access} (hl : l ≠ []) (h : dirGrants fs l a = true)
    (t : List Char) :
    fs.get l ≠ some (.link t) := by
  obtain ⟨m, hm, -⟩ := get_of_dirGrants hl h
  rw [hm]
  exact nofun

theorem ne_none_of_dirGrants {a : Access} (hl : l ≠ []) (h : dirGrants fs l a = true) :
    fs.get l ≠ none := by
  obtain ⟨m, hm, -⟩ := get_of_dirGrants hl h
  rw [hm]
  exact nofun

/-- A clear place below a resolved path resolves. -/
theorem resolve_below (hp : resolve fs false p = some l) (hclear : Clear fs (l ++ cs))
    (create : Bool)
    (hnode : ∀ t, fs.get (l ++ cs) ≠ some (.link t))
    (hthere : fs.get (l ++ cs) ≠ none ∨ create = true ∨ cs = []) :
    resolve fs create (p ++ cs) = some (l ++ cs) := by
  obtain ⟨n, hn⟩ := walk_append_same (fun _ _ => rfl) create cs hp
  show walk fs create maxLinks [] (p ++ cs) = _
  rw [hn]
  exact walk_names hclear hnode hthere

/-- A node that is no link. -/
theorem resolve_node_below {node : Node} (hp : resolve fs false p = some l)
    (hclear : Clear fs (l ++ cs)) (create : Bool)
    (hnode : fs.get (l ++ cs) = some node) (hlink : ∀ t, node ≠ .link t) :
    resolve fs create (p ++ cs) = some (l ++ cs) :=
  resolve_below hp hclear create (fun t h => hlink t (Option.some.inj (hnode.symm.trans h)))
    (.inl (Option.ne_none_iff_exists'.mpr ⟨node, hnode⟩))

/-- A directory on the way. -/
theorem resolve_dir_below (hp : resolve fs false p = some l) (hclear : Clear fs (l ++ cs))
    (hgrants : dirGrants fs (l ++ cs) .search = true) {create : Bool} :
    resolve fs create (p ++ cs) = some (l ++ cs) := by
  cases cs with
  | nil =>
    obtain ⟨n, hn⟩ := walk_append_same (fun _ _ => rfl) create [] hp
    show walk fs create maxLinks [] (p ++ []) = _
    rw [hn, List.append_nil]
    exact walk_nil fs create n l
  | cons c cs =>
    have hne : l ++ c :: cs ≠ [] := by simp
    exact resolve_below hp hclear create (not_link_of_dirGrants hne hgrants)
      (.inl (ne_none_of_dirGrants hne hgrants))

theorem walkWith_names_none {follow : Loc → List Name → Option Loc} {cur : Loc} {q : List Name}
    (hclear : Clear fs (cur ++ (q ++ [c]))) (hnone : fs.get (cur ++ (q ++ [c])) = none) :
    walkWith fs false follow cur (q ++ [c]) = none := by
  induction q generalizing cur with
  | nil =>
    rw [List.nil_append] at hclear hnone ⊢
    obtain ⟨hc, hgrants⟩ := hclear cur c (List.prefix_refl _)
    rw [walkWith_proper [] hc hgrants, hnone]
    rfl
  | cons d q ih =>
    have hassoc : cur ++ (d :: q ++ [c]) = cur ++ [d] ++ (q ++ [c]) := by simp
    rw [hassoc] at hclear hnone
    obtain ⟨hd, hgrants⟩ := hclear cur d (List.prefix_append _ _)
    have hdir : dirGrants fs (cur ++ [d]) .search = true := by
      cases q with
      | nil => exact (hclear (cur ++ [d]) c (by simp)).2
      | cons e q => exact (hclear (cur ++ [d]) e (by simp)).2
    obtain ⟨m, hm, -⟩ := get_of_dirGrants (by simp) hdir
    rw [List.cons_append, walkWith_proper (q ++ [c]) hd hgrants, hm]
    exact ih hclear hnone

/-- What is not there does not resolve. -/
theorem resolve_below_none (hp : resolve fs false p = some l) (hclear : Clear fs (l ++ (cs ++ [c])))
    (hnone : fs.get (l ++ (cs ++ [c])) = none) : resolve fs false (p ++ (cs ++ [c])) = none := by
  obtain ⟨n, hn⟩ := walk_append_same (fun _ _ => rfl) false (cs ++ [c]) hp
  show walk fs false maxLinks [] (p ++ (cs ++ [c])) = _
  obtain ⟨follow, heq⟩ := walk_eq fs false n
  rw [hn, heq]
  exact walkWith_names_none hclear hnone

/-- A clear place below a resolved path is where its path leads. -/
theorem place_below (hp : resolve fs false p = some l) (hclear : Clear fs (l ++ (cs ++ [c]))) :
    place fs (p ++ (cs ++ [c])) = some (l ++ (cs ++ [c])) := by
  rw [← List.append_assoc, ← List.append_assoc]
  refine place_concat_iff.mpr ⟨hclear.proper c (by simp), l ++ cs, ?_, hclear.grants, rfl⟩
  exact resolve_dir_below hp hclear.parent hclear.grants

/-- A directory that a path is the place of. -/
theorem resolve_of_place_dir {m : Mode} (hplace : place fs p = some l)
    (hdir : fs.get l = some (.dir m)) :
    resolve fs false p = some l := by
  obtain ⟨q, c, rfl⟩ := ne_nil_of_place hplace
  obtain ⟨hc, parent, hq, hgrants, rfl⟩ := place_concat_iff.mp hplace
  exact resolve_node_below hq ((walk_clear clear_nil hq).concat hc hgrants) false hdir
    fun t h => by cases h

/-- Along names of directories a walk ends where they say, and each of them can be searched. -/
theorem walkWith_dirs {follow : Loc → List Name → Option Loc} {cur : Loc}
    (hproper : ∀ c ∈ cs, Proper c)
    (hdirs : ∀ q, q <+: cs → q ≠ [] → ∃ m, fs.get (cur ++ q) = some (.dir m))
    (hclear : Clear fs cur)
    (hwalk : walkWith fs false follow cur cs = some l) : l = cur ++ cs ∧ Clear fs (cur ++ cs) := by
  induction cs generalizing cur with
  | nil =>
    rw [List.append_nil]
    exact ⟨(Option.some.inj hwalk).symm, hclear⟩
  | cons c names ih =>
    have hc : Proper c := hproper c List.mem_cons_self
    by_cases hgrants : dirGrants fs cur .search = true
    · obtain ⟨m, hm⟩ := hdirs [c] (List.prefix_append [c] names) (List.cons_ne_nil _ _)
      rw [walkWith_proper names hc hgrants, hm] at hwalk
      have hdirs' : ∀ q, q <+: names → q ≠ [] → ∃ m, fs.get (cur ++ [c] ++ q) = some (.dir m) := by
        intro q hq _
        rw [List.append_assoc, List.singleton_append]
        exact hdirs (c :: q) ((List.prefix_cons_inj c).mpr hq) (List.cons_ne_nil _ _)
      have hbelow :=
        ih (fun d hd => hproper d (List.mem_cons_of_mem _ hd)) hdirs'
        (hclear.concat hc hgrants) hwalk
      rwa [List.append_assoc, List.singleton_append] at hbelow
    · rw [walkWith, if_neg hgrants] at hwalk
      cases hwalk

/-! ## Nodes of a tree -/

theorem proper_of_mem_children (closed : Closed fs) (h : c ∈ children fs l) : Proper c := by
  obtain ⟨hne, hdot, hdots, -⟩ := closed.names l c (mem_children.mp h)
  exact ⟨hne, hdot, hdots⟩

/-- What a node stands in is a directory. -/
theorem Closed.parent (closed : Closed fs) (hl : l ≠ []) (hget : fs.get (l ++ (cs ++ [c])) ≠ none) :
    ∃ m, fs.get (l ++ cs) = some (.dir m) := by
  rw [← List.append_assoc] at hget
  obtain ⟨m, hm⟩ := closed.parents (l ++ cs) c hget
  rw [node_of_ne_nil (List.append_ne_nil_of_left_ne_nil hl _)] at hm
  exact ⟨m, hm⟩

/-- What a node stands below is there. -/
theorem Closed.child_above (closed : Closed fs) (hget : fs.get (l ++ c :: cs) ≠ none) :
    fs.get (l ++ [c]) ≠ none := by
  by_cases hcs : cs = []
  · rwa [hcs] at hget
  · have hle : l ++ [c] <+: l ++ c :: cs := ⟨cs, by simp⟩
    obtain ⟨m, hm⟩ := closed.dir_above hle (by simpa using Ne.symm hcs) hget
    rw [node_of_ne_nil (by simp)] at hm
    rw [hm]
    exact Option.some_ne_none _

/-- The names on the way to a node. -/
theorem Closed.names_below (closed : Closed fs) (hl : l ≠ []) (hget : fs.get (l ++ cs) ≠ none) :
    ∀ c ∈ cs, Proper c ∧ '/' ∉ c := by
  induction cs using List.reverseRecOn with
  | nil => nofun
  | append_singleton cs c ih =>
    obtain ⟨m, hm⟩ := closed.parent hl hget
    intro d hd
    rcases List.mem_append.mp hd with hd | hd
    · exact ih (by rw [hm]; exact nofun) d hd
    · rw [← List.append_assoc] at hget
      obtain ⟨hne, hdot, hdots, hslash⟩ := closed.names (l ++ cs) c hget
      rw [List.mem_singleton.mp hd]
      exact ⟨⟨hne, hdot, hdots⟩, hslash⟩

/-! ## More nodes -/

/-- Every node is as it was; there may be new ones. -/
def Grows (fs fs' : FileSystem) : Prop := ∀ l, fs.get l ≠ none → fs'.get l = fs.get l

namespace Grows

variable {fs' : FileSystem}

theorem set {x : Loc} (h : Grows fs fs') (hx : fs.get x = none) (n : Option Node) :
    Grows fs (fs'.set x n) := by
  intro l hl
  rw [LinkedMap.get_set, if_neg, h l hl]
  rintro rfl
  exact hl hx

theorem resolve (h : Grows fs fs') (hp : resolve fs false p = some l) :
    Fs.resolve fs' false p = some l := by
  obtain ⟨n, hn⟩ := walk_append_same h false [] hp
  rw [List.append_nil] at hn
  show walk fs' false maxLinks [] p = _
  rw [hn]
  exact walk_nil fs' false n l

theorem dirGrants {a : Access} (h : Grows fs fs') (hgrants : dirGrants fs l a = true) :
    Fs.dirGrants fs' l a = true := by
  by_cases hl : l = []
  · rw [hl] at hgrants ⊢
    exact hgrants
  · rwa [dirGrants_congr a (h l (ne_none_of_dirGrants hl hgrants))]

theorem clear (h : Grows fs fs') (hclear : Clear fs l) : Clear fs' l := fun q c hle =>
  ⟨(hclear q c hle).1, h.dirGrants (hclear q c hle).2⟩

theorem place (h : Grows fs fs') (hplace : place fs p = some l) : Fs.place fs' p = some l := by
  obtain ⟨c, hc, hrest⟩ := Option.bind_eq_some_iff.mp hplace
  rw [Fs.place, hc, Option.bind_some]
  split at hrest
  case isTrue => cases hrest
  case isFalse hproper =>
    obtain ⟨parent, hparent, hgrants⟩ := Option.bind_eq_some_iff.mp hrest
    rw [if_neg hproper, h.resolve hparent, Option.bind_some]
    split at hgrants
    case isTrue hsearch => rw [if_pos (h.dirGrants hsearch), hgrants]
    case isFalse => cases hgrants

end Grows

theorem Shrinks.grows {fs' : FileSystem} (h : Shrinks fs fs') : Grows fs' fs := fun l hl =>
  ((h l).resolve_right hl).symm

theorem exists_of_get_eq {fs' : FileSystem} (h : ∀ l, fs'.get l = fs.get l)
    (hexists : exists_ fs p = true) :
    exists_ fs' p = true := by
  obtain ⟨l, hl⟩ := Option.isSome_iff_exists.mp hexists
  have hgrows : Grows fs fs' := fun l _ => h l
  exact Option.isSome_iff_exists.mpr ⟨l, hgrows.resolve hl⟩

/-- What changes only below a fresh directory grows. -/
theorem grows_of_outside {fs' : FileSystem} {out : Loc} (fresh : Fresh fs out)
    (houtside : ∀ x, ¬ out <+: x → fs'.get x = fs.get x) (htop : fs'.get out = fs.get out) :
    Grows fs fs' := by
  intro x hx
  by_cases hout : out <+: x
  · by_cases heq : x = out
    · rw [heq]
      exact htop
    · exact absurd (fresh.empty x hout heq) hx
  · exact houtside x hout

/-- The way goes on along directories that can be searched. -/
theorem Clear.append (h : Clear fs l) (hproper : ∀ c ∈ cs, Proper c)
    (hgrants : ∀ q, q <+: cs → q ≠ cs → dirGrants fs (l ++ q) .search = true) :
    Clear fs (l ++ cs) := by
  induction cs using List.reverseRecOn with
  | nil =>
    rw [List.append_nil]
    exact h
  | append_singleton cs c ih =>
    have hbefore : ∀ {q}, q <+: cs → q <+: cs ++ [c] ∧ q ≠ cs ++ [c] := by
      refine fun hle => ⟨hle.trans (List.prefix_append _ _), ?_⟩
      rintro rfl
      exact not_prefix_parent cs c hle
    rw [← List.append_assoc]
    refine (ih (fun d hd => hproper d (List.mem_append_left _ hd)) fun q hle _ =>
      hgrants q (hbefore hle).1 (hbefore hle).2).concat (hproper c (by simp)) ?_
    exact hgrants cs (hbefore (List.prefix_refl cs)).1 (hbefore (List.prefix_refl cs)).2

/-- Shorter locations decide whether the way to one is clear. -/
theorem Clear.of_shorter {fs' : FileSystem} (h : Clear fs l)
    (hsame : ∀ x, x.length < l.length → fs'.get x = fs.get x) :
    Clear fs' l := by
  intro x c hle
  have hlength := hle.length_le
  rw [List.length_append, List.length_singleton] at hlength
  rw [dirGrants_congr _ (hsame x (by omega))]
  exact h x c hle

/-- What stands at the end of a path is not on the way to it. -/
theorem Clear.set (h : Clear fs l) (n : Option Node) : Clear (fs.set l n) l := by
  refine h.of_shorter fun x hx => ?_
  rw [LinkedMap.get_set, if_neg]
  rintro rfl
  exact Nat.lt_irrefl _ hx

/-! ## Canonical paths -/

/-- A path that leads somewhere is canonically its location. -/
theorem canonical_of_resolve {p : Path} {l : Loc} (h : resolve fs false p = some l) :
    canonical fs p = l := by
  unfold canonical
  cases hlength : p.length with
  | zero =>
    rw [List.length_eq_zero_iff.mp hlength] at h ⊢
    exact Option.some.inj h
  | succ k =>
    rw [canonicalTake, ← hlength, List.take_length, h, List.drop_length]
    rfl

/-- If only the last name leads nowhere, it is kept. -/
theorem canonical_of_parent {p : Path} {l : Loc} {c : Name} (hc : c ≠ [] ∧ c ≠ dot ∧ c ≠ dotdot)
    (hp : resolve fs false p = some l) (h : resolve fs false (p ++ [c]) = none) :
    canonical fs (p ++ [c]) = l ++ [c] := by
  have hcollapse : ∀ cur, collapse cur [c] = cur ++ [c] := by
    intro cur
    simp [collapse, hc]
  unfold canonical
  rw [List.length_append, List.length_singleton, canonicalTake]
  have htake : (p ++ [c]).take (p.length + 1) = p ++ [c] := by
    rw [List.take_of_length_le]
    simp
  rw [htake, h]
  dsimp only
  cases hlength : p.length with
  | zero =>
    rw [List.length_eq_zero_iff.mp hlength] at hp ⊢
    cases hp
    exact hcollapse []
  | succ k =>
    rw [canonicalTake, ← hlength, List.take_left, hp, List.drop_left]
    exact hcollapse l

/-! ## Calls -/

/-- Creating below a resolved path is one effect. -/
theorem createEffect_below (hp : resolve fs false p = some l) (hclear : Clear fs (l ++ (cs ++ [c])))
    (hnone : fs.get (l ++ (cs ++ [c])) = none) (hwrite : dirGrants fs (l ++ cs) .write = true)
    (n : Node) :
    createEffect fs (p ++ (cs ++ [c])) n = some (l ++ (cs ++ [c]), some n) := by
  rw [createEffect, place_below hp hclear, Option.bind_some, dropLast_below, if_pos ⟨hnone, hwrite⟩]

/-- So is writing a new file. -/
theorem writeEffect_below (hp : resolve fs false p = some l) (hclear : Clear fs (l ++ (cs ++ [c])))
    (hnone : fs.get (l ++ (cs ++ [c])) = none) (hwrite : dirGrants fs (l ++ cs) .write = true)
    (content : List UInt8) :
    writeEffect fs (p ++ (cs ++ [c])) content =
      some (l ++ (cs ++ [c]), some (.file content newFileMode)) := by
  have hresolve :=
    resolve_below hp hclear true (fun t => by rw [hnone]; exact nofun) (.inr (.inl rfl))
  rw [writeEffect, hresolve, Option.bind_some, hnone, dropLast_below]
  exact if_pos hwrite

/-- So is changing a mode. -/
theorem chmodEffect_below (hp : resolve fs false p = some l) (hclear : Clear fs (l ++ cs))
    {n : Node}
    (hn : fs.get (l ++ cs) = some n) (hlink : ∀ t, n ≠ .link t) (m : Mode) :
    chmodEffect fs (p ++ cs) m = some (l ++ cs, some (n.chmod m)) := by
  rw [chmodEffect, resolve_node_below hp hclear false hn hlink, Option.bind_some, hn]
  rfl

theorem exists_below (hp : resolve fs false p = some l) (hclear : Clear fs (l ++ cs))
    (hgrants : dirGrants fs (l ++ cs) .search = true) : exists_ fs (p ++ cs) = true := by
  rw [exists_, resolve_dir_below hp hclear hgrants]
  rfl

/-- `mkdirs` leaves a directory that is there. -/
theorem mkdirs_of_exists {d : Disk} {q : Path} (h : exists_ d.fs q = true) :
    mkdirs d q = (d, false) := by
  rw [mkdirs, mkdirsWith, if_pos h]

/-- `mkdirs` of one missing directory makes just that. -/
theorem mkdirs_below {d : Disk} (hp : resolve d.fs false p = some l)
    (hclear : Clear d.fs (l ++ (cs ++ [c])))
    (hnone : d.fs.get (l ++ (cs ++ [c])) = none) (hwrite : dirGrants d.fs (l ++ cs) .write = true) :
    (mkdirs d (p ++ (cs ++ [c]))).1 = d.apply (l ++ (cs ++ [c]), some (.dir newDirMode)) := by
  have hnot : ¬ exists_ d.fs (p ++ (cs ++ [c])) = true :=
    not_exists_of_none (resolve_below_none hp hclear hnone)
  rw [mkdirs, mkdirsWith, if_neg hnot, mkdirEffect, createEffect_below hp hclear hnone hwrite]

/-- There is nothing to delete. -/
theorem delete_of_none {d : Disk} (hp : resolve d.fs false p = some l)
    (hclear : Clear d.fs (l ++ (cs ++ [c])))
    (hnone : d.fs.get (l ++ (cs ++ [c])) = none) : delete d (p ++ (cs ++ [c])) = d := by
  rw [delete, removeEffect, place_below hp hclear, Option.bind_some, hnone]
  rfl

/-- A node that is no directory, or an empty one. -/
theorem removeEffect_below {n : Node} (hp : resolve fs false p = some l)
    (hclear : Clear fs (l ++ (cs ++ [c])))
    (hn : fs.get (l ++ (cs ++ [c])) = some n)
    (hempty : ∀ m, n = .dir m → children fs (l ++ (cs ++ [c])) = [])
    (hwrite : dirGrants fs (l ++ cs) .write = true) :
    removeEffect fs (p ++ (cs ++ [c])) = some (l ++ (cs ++ [c]), none) := by
  rw [removeEffect, place_below hp hclear, Option.bind_some, hn, dropLast_below]
  cases n with
  | dir m => exact if_pos ⟨hempty m rfl, hwrite⟩
  | file content m => exact if_pos hwrite
  | link target => exact if_pos hwrite

/-- `deleteDirectory` on an empty directory. -/
theorem deleteDirectory_below {d : Disk} {m : Mode} (hp : resolve d.fs false p = some l)
    (hclear : Clear d.fs (l ++ (cs ++ [c]))) (hdir : d.fs.get (l ++ (cs ++ [c])) = some (.dir m))
    (hread : Fs.grants m .read = true) (hempty : children d.fs (l ++ (cs ++ [c])) = [])
    (hwrite : dirGrants d.fs (l ++ cs) .write = true) :
    deleteDirectory d (p ++ (cs ++ [c])) = d.apply (l ++ (cs ++ [c]), none) := by
  have hexists : exists_ d.fs (p ++ (cs ++ [c])) = true := by
    rw [exists_, resolve_node_below hp hclear false hdir fun t h => by cases h]
    rfl
  rw [deleteDirectory, if_pos hexists, place_below hp hclear]
  simp only [hdir, hread, hempty, removeAll, if_true]
  rw [delete, removeEffect_below hp hclear hdir (fun _ _ => hempty) hwrite]
  rfl

/-- `deleteDirectory` on a tree in which it may remove everything. Its path was there before the
tree was. -/
theorem deleteDirectory_removed {fs₀ : FileSystem} {d : Disk} {m : Mode} (closed : Closed d.fs)
    (hp : resolve fs₀ false p = some l) (hgrows : Grows fs₀ d.fs)
    (hnew : ∀ x, l ++ (cs ++ [c]) <+: x → fs₀.get x = none)
    (hclear : Clear d.fs (l ++ (cs ++ [c]))) (hdir : d.fs.get (l ++ (cs ++ [c])) = some (.dir m))
    (hremovable : Removable d.fs (l ++ (cs ++ [c])))
    (hwrite : dirGrants d.fs (l ++ cs) .write = true) :
    Removed (l ++ (cs ++ [c])) d.fs (deleteDirectory d (p ++ (cs ++ [c]))).fs := by
  have hne : l ++ (cs ++ [c]) ≠ [] := by simp
  obtain ⟨hread, hchildren⟩ := (removable_dir_iff closed hdir).mp hremovable
  have hexists : exists_ d.fs (p ++ (cs ++ [c])) = true := by
    rw [exists_, resolve_node_below (hgrows.resolve hp) hclear false hdir fun t h => by cases h]
    rfl
  have hspec :=
    removeAll_spec (removeTree_spec (height d.fs + 1)) hne (nodup_children d.fs _) d closed
    (fun x _ hx => by have := length_le_height hx; omega) fun _ hc => mem_children.mp hc
  have hall : (removeAll (removeTree false (height d.fs + 1)) (l ++ (cs ++ [c])) d
      (children d.fs (l ++ (cs ++ [c])))).2 = true := by
    refine hspec.1.mpr fun c' hc' => ⟨?_, (hchildren c' hc').2⟩
    simp only [Writable, dirGrants, node_of_ne_nil hne, hdir]
    exact (hchildren c' hc').1
  have hgets := hspec.2 hall
  rw [deleteDirectory, if_pos hexists, place_below (hgrows.resolve hp) hclear]
  simp only [hdir, hread, if_true, removeAll_force (fun _ _ => removeTree_force) hall, hall]
  generalize (removeAll (removeTree false (height d.fs + 1)) (l ++ (cs ++ [c])) d
    (children d.fs (l ++ (cs ++ [c])))).1 = r at hgets ⊢
  -- what is left is the empty directory
  have hsame : ∀ x, ¬ (∃ c' ∈ children d.fs (l ++ (cs ++ [c])), l ++ (cs ++ [c]) ++ [c'] <+: x) →
      r.fs.get x = d.fs.get x := fun x hx => (hgets x).trans (if_neg hx)
  have hupto : ∀ x, x <+: l ++ (cs ++ [c]) → r.fs.get x = d.fs.get x := by
    rintro x hle
    refine hsame x ?_
    rintro ⟨c', -, hle'⟩
    exact not_prefix_parent _ c' (hle'.trans hle)
  have hgrows' : Grows fs₀ r.fs := by
    intro x hx
    rw [hsame x, hgrows x hx]
    rintro ⟨c', -, hle⟩
    exact hx (hnew x ((List.prefix_append _ _).trans hle))
  have hclear' : Clear r.fs (l ++ (cs ++ [c])) := fun q c' hle => by
    rw [dirGrants_congr _ (hupto q ((List.prefix_append q [c']).trans hle))]
    exact hclear q c' hle
  have hempty : children r.fs (l ++ (cs ++ [c])) = [] := by
    rw [children_eq_nil_iff]
    intro c'
    rw [hgets]
    split
    next => rfl
    next hnot =>
      by_contra hget
      exact hnot ⟨c', mem_children.mpr hget, List.prefix_refl _⟩
  have hwrite' : dirGrants r.fs (l ++ cs) .write = true := by
    rw [dirGrants_congr _ (hupto (l ++ cs) ?_), hwrite]
    rw [← List.append_assoc]
    exact List.prefix_append _ _
  rw [delete, removeEffect_below (hgrows'.resolve hp) hclear'
    ((hupto _ (List.prefix_refl _)).trans hdir)
    (fun _ _ => hempty) hwrite']
  exact removed_of_children closed hne hgets

/-! ## Moves -/

theorem get_foldl_apply_of_not_mem {es : List Effect} {x : Loc} (h : x ∉ es.map Prod.fst)
    (d : Disk) :
    (es.foldl Disk.apply d).fs.get x = d.fs.get x := by
  induction es generalizing d with
  | nil => rfl
  | cons e es ih =>
    simp only [List.map_cons, List.mem_cons, not_or] at h
    rw [List.foldl_cons, ih h.2]
    exact (LinkedMap.get_set _ _ _ _).trans (if_neg h.1)

theorem get_foldl_apply_of_mem {es : List Effect} {x : Loc} {o : Option Node}
    (hmem : ∃ e ∈ es, e.1 = x)
    (hall : ∀ e ∈ es, e.1 = x → e.2 = o) (d : Disk) : (es.foldl Disk.apply d).fs.get x = o := by
  induction es generalizing d with
  | nil =>
    obtain ⟨_, hmem, _⟩ := hmem
    cases hmem
  | cons e es ih =>
    rw [List.foldl_cons]
    by_cases hlater : ∃ e' ∈ es, e'.1 = x
    · exact ih hlater (fun e' he' => hall e' (List.mem_cons_of_mem _ he')) _
    · have hx : e.1 = x := by
        obtain ⟨e', he', hx⟩ := hmem
        rcases List.mem_cons.mp he' with rfl | he'
        · exact hx
        · exact absurd ⟨e', he', hx⟩ hlater
      rw [get_foldl_apply_of_not_mem (fun h => hlater (List.mem_map.mp h)),
        ← hall e List.mem_cons_self hx, ← hx]
      exact (LinkedMap.get_set _ _ _ _).trans (if_pos rfl)

/-- The tree has its new place, and nothing else has changed. -/
structure Moved (l l' : Loc) (fs fs' : FileSystem) : Prop where
  there : ∀ rel, fs'.get (l' ++ rel) = fs.get (l ++ rel)
  gone : ∀ rel, fs'.get (l ++ rel) = none
  others : ∀ x, ¬ l <+: x → ¬ l' <+: x → fs'.get x = fs.get x

theorem mem_moveEffects {l' : Loc} {e : Effect} :
    e ∈ moveEffects fs l l' ↔
      ∃ rel n, fs.get (l ++ rel) = some n ∧ (e = (l ++ rel, none) ∨ e = (l' ++ rel, some n)) := by
  simp only [moveEffects, List.mem_append, List.mem_map, List.mem_filter,
    List.isPrefixOf_iff_prefix]
  constructor
  · rintro (⟨⟨x, n⟩, ⟨hmem, rel, rfl⟩, rfl⟩ | ⟨⟨x, n⟩, ⟨hmem, rel, rfl⟩, rfl⟩)
    · exact ⟨rel, n, LinkedMap.get_of_mem _ hmem, .inl rfl⟩
    · refine ⟨rel, n, LinkedMap.get_of_mem _ hmem, .inr ?_⟩
      simp
  · rintro ⟨rel, n, hget, rfl | rfl⟩
    · exact .inl ⟨_, ⟨fs.mem_of_get hget, List.prefix_append _ _⟩, rfl⟩
    · exact .inr ⟨_, ⟨fs.mem_of_get hget, List.prefix_append _ _⟩, by simp⟩

/-- No location is in two trees of which none is in the other. -/
theorem append_ne_append {l' : Loc} (h : ¬ l <+: l') (h' : ¬ l' <+: l) (rel rel' : List Name) :
    l ++ rel ≠ l' ++ rel' := by
  intro heq
  rcases List.prefix_or_prefix_of_prefix (List.prefix_append l rel)
    (heq ▸ List.prefix_append l' rel') with hle | hle
  · exact h hle
  · exact h' hle

/-- The effects of a move move the tree. -/
theorem moved_moveEffects {l' : Loc} (d : Disk) (h : ¬ l <+: l') (h' : ¬ l' <+: l)
    (hfree : ∀ rel, d.fs.get (l ++ rel) = none → d.fs.get (l' ++ rel) = none) :
    Moved l l' d.fs ((moveEffects d.fs l l').foldl Disk.apply d).fs where
  there := by
    intro rel
    cases hget : d.fs.get (l ++ rel) with
    | none =>
      rw [get_foldl_apply_of_not_mem, hfree rel hget]
      rw [List.mem_map]
      rintro ⟨e, he, hkey⟩
      obtain ⟨rel', n, hn, rfl | rfl⟩ := mem_moveEffects.mp he
      · exact append_ne_append h h' rel' rel hkey
      · obtain rfl := List.append_cancel_left hkey
        rw [hget] at hn
        cases hn
    | some n =>
      refine get_foldl_apply_of_mem ⟨_, mem_moveEffects.mpr ⟨rel, n, hget, .inr rfl⟩, rfl⟩
        (fun e he hkey => ?_) d
      obtain ⟨rel', n', hn', rfl | rfl⟩ := mem_moveEffects.mp he
      · exact absurd hkey (append_ne_append h h' rel' rel)
      · obtain rfl := List.append_cancel_left hkey
        rw [← hn', hget]
  gone := by
    intro rel
    cases hget : d.fs.get (l ++ rel) with
    | none =>
      rw [get_foldl_apply_of_not_mem, hget]
      rw [List.mem_map]
      rintro ⟨e, he, hkey⟩
      obtain ⟨rel', n, hn, rfl | rfl⟩ := mem_moveEffects.mp he
      · obtain rfl := List.append_cancel_left hkey
        rw [hget] at hn
        cases hn
      · exact append_ne_append h' h rel' rel hkey
    | some n =>
      refine get_foldl_apply_of_mem ⟨_, mem_moveEffects.mpr ⟨rel, n, hget, .inl rfl⟩, rfl⟩
        (fun e he hkey => ?_) d
      obtain ⟨rel', n', hn', rfl | rfl⟩ := mem_moveEffects.mp he
      · rfl
      · exact absurd hkey (append_ne_append h' h rel' rel)
  others := by
    intro x hx hx'
    refine get_foldl_apply_of_not_mem ?_ d
    rw [List.mem_map]
    rintro ⟨e, he, rfl⟩
    obtain ⟨rel, n, -, rfl | rfl⟩ := mem_moveEffects.mp he
    · exact hx (List.prefix_append _ _)
    · exact hx' (List.prefix_append _ _)

/-- Only what stands below a location can stand below the place that it is to take. -/
theorem free_of_mayReplace {n : Node} {l' : Loc} (closed : Closed fs) (hl' : l' ≠ [])
    (hn : fs.get l = some n)
    (hplace : fs.get l' = none ∨ (∀ m, n ≠ .dir m) ∧ ∀ m, fs.get l' ≠ some (.dir m))
    (rel : List Name)
    (hnone : fs.get (l ++ rel) = none) : fs.get (l' ++ rel) = none := by
  have hnot : ∀ m, node fs l' ≠ some (.dir m) := by
    intro m
    rw [node_of_ne_nil hl']
    rcases hplace with hfree | ⟨-, hother⟩
    · rw [hfree]
      exact nofun
    · exact hother m
  by_cases hrel : rel = []
  · rw [hrel, List.append_nil, hn] at hnone
    cases hnone
  · exact closed.below (List.prefix_append l' rel) (by simpa using hrel) hnot

/-- A renaming that succeeds moves a tree, or finds that both names are those of one node. -/
theorem rename_cases {d d' : Disk} {q : Path} (h : rename d p q = some d') :
    ∃ l l' n, place d.fs p = some l ∧ place d.fs q = some l' ∧ d.fs.get l = some n ∧
      (l ≠ l' ∧ d' = (moveEffects d.fs l l').foldl Disk.apply d ∨ l = l' ∧ d' = d) := by
  obtain ⟨l, hl, h⟩ := Option.bind_eq_some_iff.mp h
  obtain ⟨l', hl', h⟩ := Option.bind_eq_some_iff.mp h
  obtain ⟨n, hn, h⟩ := Option.bind_eq_some_iff.mp h
  have hite : ∀ (moves : Prop) [Decidable moves], (moves → l ≠ l') →
      (if moves then some ((moveEffects d.fs l l').foldl Disk.apply d) else if l =
        l' then some d else none) = some d' →
      l ≠ l' ∧ d' = (moveEffects d.fs l l').foldl Disk.apply d ∨ l = l' ∧ d' = d := by
    intro moves _ hne h
    split at h
    next hmoves => exact .inl ⟨hne hmoves, (Option.some.inj h).symm⟩
    next =>
      split at h
      next hsame => exact .inr ⟨hsame, (Option.some.inj h).symm⟩
      next => cases h
  refine ⟨l, l', n, hl, hl', hn, hite _ (fun hmoves heq => ?_) h⟩
  exact hmoves.2.2.2.1 (List.isPrefixOf_iff_prefix.mpr (heq ▸ List.prefix_refl l))

theorem log_foldl_apply (d : Disk) (es : List Effect) :
    (es.foldl Disk.apply d).log = d.log ++ es := by
  induction es generalizing d with
  | nil => exact (List.append_nil d.log).symm
  | cons e es ih =>
    rw [List.foldl_cons, ih]
    exact List.append_assoc d.log [e] es

/-- What `rename` does in one directory. -/
theorem rename_siblings {d : Disk} {q : Path} {c' : Name} {n : Node}
    (hp : place d.fs p = some (l ++ [c]))
    (hq : place d.fs q = some (l ++ [c'])) (hn : d.fs.get (l ++ [c]) = some n) :
    rename d p q =
      if dirGrants d.fs l .write ∧ c ≠ c' ∧ mayReplace d.fs n (l ++ [c']) then
        some ((moveEffects d.fs (l ++ [c]) (l ++ [c'])).foldl Disk.apply d)
      else if c = c' then some d
      else none := by
  have hbelow : (l ++ [c]).isPrefixOf (l ++ [c']) = true ↔ c = c' := by
    rw [List.isPrefixOf_iff_prefix, List.prefix_append_right_inj, List.cons_prefix_cons,
      and_iff_left List.nil_prefix]
  have hsame : l ++ [c] = l ++ [c'] ↔ c = c' := by
    rw [List.append_cancel_left_eq, List.singleton_inj]
  have hparent : (l ++ [c]).dropLast = (l ++ [c']).dropLast := by
    rw [List.dropLast_concat, List.dropLast_concat]
  rw [rename, hp, Option.bind_some, hq, Option.bind_some, hn, Option.bind_some]
  simp only [hbelow, hsame, hparent, List.dropLast_concat, decide_true, Bool.true_or]
  cases n <;> simp

/-- A directory that can be written moves to a free name in another one. -/
theorem rename_moved {d : Disk} {q : Path} {l' : Loc} {m : Mode} (hp : place d.fs p = some l)
    (hq : place d.fs q = some l')
    (hdir : d.fs.get l = some (.dir m)) (hmode : grants m .write = true)
    (hwrite : dirGrants d.fs l.dropLast .write = true)
    (hwrite' : dirGrants d.fs l'.dropLast .write = true)
    (h : ¬ l <+: l') (hfree : ∀ rel, d.fs.get (l' ++ rel) = none) :
    ∃ d', rename d p q = some d' ∧ Moved l l' d.fs d'.fs := by
  have h' : ¬ l' <+: l := by
    rintro ⟨rel, rfl⟩
    rw [hfree] at hdir
    cases hdir
  have hnone : d.fs.get l' = none := by
    have := hfree []
    rwa [List.append_nil] at this
  refine ⟨(moveEffects d.fs l l').foldl Disk.apply d, ?_, moved_moveEffects d h h' fun rel _ =>
    hfree rel⟩
  have hreplace : mayReplace d.fs (.dir m) l' = true := by
    simp only [mayReplace, hnone]
  rw [rename, hp, Option.bind_some, hq, Option.bind_some, hdir, Option.bind_some]
  refine if_pos ⟨hwrite, hwrite', ?_, ?_, hreplace⟩
  · show (decide (l.dropLast = l'.dropLast) || grants m .write) = true
    rw [hmode, Bool.or_true]
  · rw [List.isPrefixOf_iff_prefix]
    exact h

/-! ## Deleting what a path leads to -/

/-- A deletion does nothing or removes one leaf. -/
theorem delete_cases (d : Disk) (p : Path) :
    delete d p = d ∨ ∃ l, place d.fs p = some l ∧ delete d p = d.apply (l, none) ∧
      ∀ m, d.fs.get l = some (.dir m) → children d.fs l = [] := by
  unfold JavaFile.delete
  cases he : removeEffect d.fs p with
  | none => exact .inl rfl
  | some e =>
    obtain ⟨l, hl, rfl⟩ := remove_of_effect he
    exact .inr ⟨l, hl, rfl, fun m hdir => empty_of_effect he hdir⟩

theorem delete_within {d : Disk} {p : Path} {top : Loc} (h : ∀ l, place d.fs p = some l → l = top) :
    Within top d (delete d p) := by
  obtain heq | ⟨l, hl, heq, -⟩ := delete_cases d p
  · rw [heq]
    exact .refl top d
  · rw [heq, h l hl]
    exact within_apply d (List.prefix_refl top)

/-- Whatever stands there, only that goes, and what is in it. -/
theorem deleteDirectory_within {d : Disk} {p : Path} {top : Loc} (htop : place d.fs p = some top) :
    Within top d (deleteDirectory d p) := by
  have hat : ∀ {fs : FileSystem}, Shrinks d.fs fs → ∀ l, place fs p = some l →
      l = top := fun hshrinks l hl =>
    Option.some.inj ((hshrinks.grows.place hl).symm.trans htop)
  unfold JavaFile.deleteDirectory
  split
  case isFalse => exact .refl top d
  case isTrue =>
    rw [htop]
    dsimp only
    split
    case h_1 => exact delete_within (hat (.refl d.fs))
    case h_2 =>
      split
      case isFalse => exact .refl top d
      case isTrue =>
        have hall :=
          removeAll_within (removeTree_within true (height d.fs + 1)) d (children d.fs top)
          (l := top)
        have hshrinks :=
          removeAll_shrinks (removeTree_shrinks true (height d.fs + 1)) top d (children d.fs top)
        split
        · exact hall.trans (delete_within (hat hshrinks))
        · exact hall
    case h_3 => exact .refl top d

theorem deleteDirectory_of_none {d : Disk} {p : Path} (h : place d.fs p = none) :
    deleteDirectory d p = d := by
  unfold JavaFile.deleteDirectory
  rw [h]
  split <;> rfl

end WinEmulator.Lib.Fs
