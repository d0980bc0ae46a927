import Mathlib.Data.List.Shortlex
import WinEmulator.App.RootfsArchive
import WinEmulator.Lib.BreadthFirst
import WinEmulator.Lib.Resolve

/-!
# The search for the directory of a rootfs

The search goes breadth first through what `list` shows, and `list` follows links. It ends all the
same, since no path goes through more than so many links; but what it finds can be behind one.
-/

set_option autoImplicit false

namespace WinEmulator.App.Rootfs

open WinEmulator.Lib WinEmulator.Lib.Fs WinEmulator.Lib.JavaFile

variable {fs : FileSystem}

/-! ## The search -/

/-- `listFiles`, nothing where it gives null. -/
def listFiles (fs : FileSystem) (path : Path) : List Path :=
  ((list fs path).getD []).map fun name => path ++ [name]

def usr : Name := "usr".toList

attribute [local instance] lawfulBEq_name

/-- `list` has `etc` and `usr`. -/
def showsRootfs (fs : FileSystem) (path : Path) : Bool :=
  etc ∈ (list fs path).getD [] ∧ usr ∈ (list fs path).getD []

/-- The search of the source is a breadth-first search over the listings. -/
theorem findRootfsDir_eq_search (fs : FileSystem) (n : Nat) (queue : List Path) :
    findRootfsDir fs n queue = BreadthFirst.search (listFiles fs) (showsRootfs fs) n queue := by
  induction n generalizing queue with
  | zero => cases queue <;> rfl
  | succ n ih =>
    cases queue with
    | nil => rfl
    | cons nowDir searchDirs =>
      rw [findRootfsDir, BreadthFirst.search, listFiles]
      cases hlist : list fs nowDir with
      | none => simp [showsRootfs, hlist, ih]
      | some names => simp [showsRootfs, hlist, ih, etc, usr]

/-! ## How far it goes -/

section Length

variable {follow : Loc → List Name → Option Loc} {bound : Nat} {l cur : Loc} {q : List Name}

theorem length_le_of_dirGrants {access : Access} (h : dirGrants fs cur access = true) :
    cur.length ≤ height fs := by
  by_cases hroot : cur = []
  · rw [hroot]
    exact Nat.zero_le _
  · obtain ⟨m, hget, -⟩ := get_of_dirGrants hroot h
    exact length_le_height (by rw [hget]; exact Option.some_ne_none _)

/-- Names lead down, until a link. -/
theorem walkWith_names_length (hq : ∀ c ∈ q, Proper c)
    (hfollow : ∀ cur t q, (∀ c ∈ q, Proper c) → follow cur (t ++ q) = some l → q.length ≤ bound)
    (h : walkWith fs false follow cur q = some l) :
    q.length ≤ bound + (height fs + 1 - cur.length) := by
  induction q generalizing cur with
  | nil => exact Nat.zero_le _
  | cons c q ih =>
    obtain ⟨hc, hrest⟩ := List.forall_mem_cons.mp hq
    rw [walkWith] at h
    split at h
    case isFalse => cases h
    case isTrue hgrants =>
      have hcur := length_le_of_dirGrants hgrants
      rw [if_neg (not_or.mpr ⟨hc.1, hc.2.1⟩), if_neg hc.2.2] at h
      rw [List.length_cons]
      split at h
      case h_1 m hget =>
        have := ih hrest h
        rw [List.length_append, List.length_singleton] at this
        omega
      case h_2 content m hget =>
        split at h
        case isTrue hnil =>
          rw [hnil, List.length_nil]
          omega
        case isFalse => cases h
      case h_3 target hget =>
        have := hfollow _ (targetPath target) q hrest h
        omega
      case h_4 => simp at h

/-- The names after any path. -/
theorem walkWith_length (hq : ∀ c ∈ q, Proper c)
    (hfollow : ∀ cur t q, (∀ c ∈ q, Proper c) → follow cur (t ++ q) = some l → q.length ≤ bound)
    {t : List Name}
    (h : walkWith fs false follow cur (t ++ q) = some l) : q.length ≤ bound + (height fs + 1) := by
  induction t generalizing cur with
  | nil =>
    have := walkWith_names_length hq hfollow h
    omega
  | cons c t ih =>
    rw [List.cons_append, walkWith] at h
    split at h
    case isFalse => cases h
    case isTrue =>
      split at h
      · exact ih h
      split at h
      · exact ih h
      split at h
      · exact ih h
      · split at h
        case isTrue hnil =>
          rw [(List.append_eq_nil_iff.mp hnil).2]
          exact Nat.zero_le _
        case isFalse => cases h
      case h_3 target hget =>
        rw [← List.append_assoc] at h
        have := hfollow _ _ q hq h
        omega
      · simp at h

/-- Of a path that leads somewhere, the names after any point are not more than the links that it
can go through times what can be between two of them. -/
theorem walk_length (hq : ∀ c ∈ q, Proper c) {n : Nat} {t : List Name}
    (h : Fs.walk fs false n cur (t ++ q) = some l) :
    q.length ≤ (n + 1) * (height fs + 1) := by
  induction n generalizing cur t q with
  | zero =>
    have hnone :
        ∀ cur t q, (∀ c ∈ q, Proper c) →
          (fun (_ : Loc) (_ : List Name) => none) cur (t ++ q) = some l →
        q.length ≤ 0 := fun _ _ _ _ h => by cases h
    have := walkWith_length hq hnone h
    omega
  | succ n ih =>
    have := walkWith_length hq (fun _ _ _ hq h => ih hq h) h
    rw [Nat.succ_mul]
    exact this

end Length

/-- A path that is come to by listing directories. -/
abbrev Listed (fs : FileSystem) (out path : Path) : Prop :=
  BreadthFirst.Reach (fun path => some (listFiles fs path)) [out] path

/-- The names below which nothing can be listed. -/
def maxNames (fs : FileSystem) : Nat := (maxLinks + 1) * (height fs + 1)

/-- When a directory can be listed, and what the listing holds. -/
theorem list_eq_some_iff {path : Path} {names : List Name} :
    list fs path = some names ↔ ∃ l, resolve fs false path = some l ∧ dirGrants fs l .read = true ∧
      names = children fs l := by
  rw [list, Option.bind_eq_some_iff]
  refine exists_congr fun l => and_congr_right fun _ => ?_
  split
  case isTrue h =>
    exact ⟨fun heq => ⟨h, (Option.some.inj heq).symm⟩, fun ⟨_, heq⟩ => congrArg some heq.symm⟩
  case isFalse h => exact iff_of_false nofun fun hboth => h hboth.1

theorem proper_of_mem_list (closed : Closed fs) {path : Path} {name : Name}
    (h : name ∈ (list fs path).getD []) :
    Proper name := by
  cases hlist : list fs path with
  | none =>
    rw [hlist] at h
    cases h
  | some names =>
    obtain ⟨l, -, -, rfl⟩ := list_eq_some_iff.mp hlist
    rw [hlist] at h
    obtain ⟨hempty, hdot, hdots, -⟩ := closed.names l name (mem_children.mp h)
    exact ⟨hempty, hdot, hdots⟩

/-- What is listed is below the directory that the search starts from. -/
theorem Listed.below (closed : Closed fs) {out path : Path} (h : Listed fs out path) :
    ∃ q, path = out ++ q ∧ ∀ c ∈ q, Proper c := by
  induction h with
  | queue hmem =>
    obtain rfl := List.mem_singleton.mp hmem
    exact ⟨[], (List.append_nil _).symm, nofun⟩
  | child _ hchildren hmem ih =>
    obtain ⟨q, rfl, hq⟩ := ih
    obtain rfl := Option.some.inj hchildren
    obtain ⟨name, hname, rfl⟩ := List.mem_map.mp hmem
    refine ⟨q ++ [name], List.append_assoc _ _ _, ?_⟩
    exact List.forall_mem_append.mpr
      ⟨hq, List.forall_mem_singleton.mpr (proper_of_mem_list closed hname)⟩

theorem length_le_maxNames {out q : Path} (hq : ∀ c ∈ q, Proper c) {names : List Name}
    (h : list fs (out ++ q) = some names) : q.length ≤ maxNames fs := by
  obtain ⟨l, hresolve, -, -⟩ := list_eq_some_iff.mp h
  exact walk_length hq hresolve

theorem length_children_le (fs : FileSystem) (l : Loc) :
    (children fs l).length ≤ fs.entries.length := by
  refine (List.length_filterMap_le _ _).trans ?_
  rw [List.length_map]

/-- What is listed below a path is less than this. -/
def room (fs : FileSystem) (out path : Path) : Nat :=
  (fs.entries.length + 1) ^ (out.length + maxNames fs + 1 - path.length)

/-- Every listing takes up some of the room that is left, so the search ends. -/
theorem room_listFiles (closed : Closed fs) {out path : Path} (h : Listed fs out path) :
    ((listFiles fs path).map (room fs out)).sum < room fs out path := by
  have hpos : 0 < room fs out path := Nat.pow_pos (Nat.succ_pos _)
  rw [listFiles]
  cases hlist : list fs path with
  | none => exact hpos
  | some names =>
    obtain ⟨q, rfl, hq⟩ := h.below closed
    have hlength := length_le_maxNames hq hlist
    obtain ⟨l, -, -, rfl⟩ := list_eq_some_iff.mp hlist
    have hchild :
        ∀ name, room fs out (out ++ q ++ [name]) =
          (fs.entries.length + 1) ^ (maxNames fs - q.length) := by
      intro name
      rw [room]
      congr 1
      simp only [List.length_append, List.length_singleton]
      omega
    have hparent :
        room fs out (out ++ q) = (fs.entries.length + 1) ^ (maxNames fs - q.length) *
          (fs.entries.length + 1) := by
      rw [room, ← Nat.pow_succ]
      congr 1
      rw [List.length_append]
      omega
    have hsum : (((children fs l).map fun name => out ++ q ++ [name]).map (room fs out)).sum =
        (children fs l).length * (fs.entries.length + 1) ^ (maxNames fs - q.length) := by
      rw [List.map_map, show (room fs out ∘ fun name => out ++ q ++ [name]) =
        fun _ => (fs.entries.length + 1) ^ (maxNames fs - q.length) from funext hchild,
          List.map_const', List.sum_replicate_nat]
    rw [Option.getD_some, hsum, hparent, Nat.mul_comm]
    apply Nat.mul_lt_mul_of_pos_left
    · have := length_children_le fs l
      omega
    · exact Nat.pow_pos (Nat.succ_pos _)

/-- The search ends, whatever the links. -/
theorem exists_walk_listFiles (closed : Closed fs) (out : Path) :
    ∃ n visited, BreadthFirst.walk (fun path => some (listFiles fs path)) n [out] =
      some visited := by
  have hsize : ∀ path cs, Listed fs out path → some (listFiles fs path) = some cs →
      (cs.map (room fs out)).sum < room fs out path := fun path cs hlisted hcs => by
    obtain rfl := Option.some.inj hcs
    exact room_listFiles closed hlisted
  exact ⟨_, BreadthFirst.exists_walk (room fs out) hsize (fun _ _ => nofun) (Nat.le_refl _)⟩

/-! ## Its order -/

/-- The places of the names of a path in the listings of their directories. -/
def ranks (fs : FileSystem) : Path → Path → List Nat
  | _, [] => []
  | dir, name :: names => ((list fs dir).getD []).idxOf name :: ranks fs (dir ++ [name]) names

/-- A path is shorter, or its first name that differs is listed earlier. -/
def Precedes (fs : FileSystem) (path path' : Path) : Prop :=
  List.Shortlex (· < ·) (ranks fs [] path) (ranks fs [] path')

theorem length_ranks (dir path : Path) : (ranks fs dir path).length = path.length := by
  induction path generalizing dir with
  | nil => rfl
  | cons name names ih => rw [ranks, List.length_cons, List.length_cons, ih]

/-- A child's ranks are its directory's and its own place in the listing. -/
theorem ranks_concat (dir path : Path) (name : Name) :
    ranks fs dir (path ++ [name]) = ranks fs dir path ++
      [((list fs (dir ++ path)).getD []).idxOf name] := by
  induction path generalizing dir with
  | nil => rw [List.nil_append, List.append_nil]; rfl
  | cons c path ih => rw [List.cons_append, ranks, ranks, ih, List.append_assoc]; rfl

/-- Lists of one length stay in order whatever comes after them. -/
theorem lex_append {s t : List Nat} (h : List.Lex (· < ·) s t) (hlength : s.length = t.length)
    (u v : List Nat) :
    List.Lex (· < ·) (s ++ u) (t ++ v) := by
  induction h with
  | nil => cases hlength
  | cons _ ih => exact .cons (ih (Nat.succ.inj hlength))
  | rel hlt => exact .rel hlt

theorem Precedes.length_le {path path' : Path} (h : Precedes fs path path') :
    path.length ≤ path'.length := by
  rcases List.shortlex_def.mp h with hlt | ⟨heq, -⟩
  · rw [length_ranks, length_ranks] at hlt
    exact Nat.le_of_lt hlt
  · rw [length_ranks, length_ranks] at heq
    exact Nat.le_of_eq heq

theorem Precedes.asymm {path path' : Path} (h : Precedes fs path path') :
    ¬ Precedes fs path' path :=
  List.Shortlex.asymm.asymm _ _ h

/-- The order of the search is transitive. -/
theorem Precedes.trans {path path' path'' : Path} (h : Precedes fs path path')
    (h' : Precedes fs path' path'') :
    Precedes fs path path'' := by
  rcases List.shortlex_def.mp h with hlt | ⟨heq, hlex⟩
  · rcases List.shortlex_def.mp h' with hlt' | ⟨heq', -⟩
    · exact List.Shortlex.of_length_lt (hlt.trans hlt')
    · exact List.Shortlex.of_length_lt (heq' ▸ hlt)
  · rcases List.shortlex_def.mp h' with hlt' | ⟨heq', hlex'⟩
    · exact List.Shortlex.of_length_lt (heq ▸ hlt')
    · exact List.Shortlex.of_lex (heq.trans heq') (List.lex_trans Nat.lt_trans hlex hlex')

theorem nodup_list (path : Path) : ((list fs path).getD []).Nodup := by
  cases hlist : list fs path with
  | none => exact List.nodup_nil
  | some names =>
    obtain ⟨l, -, -, rfl⟩ := list_eq_some_iff.mp hlist
    exact nodup_children fs l

theorem precedes_of_length_lt {path path' : Path} (h : path.length < path'.length) :
    Precedes fs path path' :=
  List.Shortlex.of_length_lt (by rw [length_ranks, length_ranks]; exact h)

/-- The order of the search: it goes through the directories of one depth before those of the next,
and through those of one depth as they are listed. -/
theorem ordered_listFiles :
    BreadthFirst.Ordered (fun path => some (listFiles fs path)) (Precedes fs) where
  trans := Precedes.trans
  deeper := by
    intro a b cs hcs hmem
    obtain rfl := Option.some.inj hcs
    obtain ⟨name, -, rfl⟩ := List.mem_map.mp hmem
    apply precedes_of_length_lt
    rw [List.length_append, List.length_singleton]
    exact Nat.lt_succ_self _
  siblings := by
    intro a cs hcs
    obtain rfl := Option.some.inj hcs
    refine List.pairwise_map.mpr (List.pairwise_iff_getElem.mpr fun i j hi hj hlt => ?_)
    rw [Precedes, ranks_concat, ranks_concat, List.nil_append]
    apply List.Shortlex.append_left
    rw [List.shortlex_singleton_iff, (nodup_list a).idxOf_getElem i hi,
      (nodup_list a).idxOf_getElem j hj]
    exact hlt
  cousins := by
    intro a a' b b' cs cs' hbefore hcs hcs' hmem hmem'
    obtain rfl := Option.some.inj hcs
    obtain rfl := Option.some.inj hcs'
    obtain ⟨name, -, rfl⟩ := List.mem_map.mp hmem
    obtain ⟨name', -, rfl⟩ := List.mem_map.mp hmem'
    rcases List.shortlex_def.mp hbefore with hlt | ⟨heq, hlex⟩
    · apply precedes_of_length_lt
      rw [length_ranks, length_ranks] at hlt
      rw [List.length_append, List.length_append]
      exact Nat.add_lt_add_right hlt 1
    · rw [Precedes, ranks_concat, ranks_concat]
      apply List.Shortlex.of_lex
      · rw [List.length_append, List.length_append, heq]
        rfl
      · exact lex_append hlex heq _ _

/-! ## What is to hold -/

/-- All that stands on the way from a directory along some names, and at their end, is a directory
and no link. -/
def RealDir (fs : FileSystem) (top : Loc) (q : List Name) : Prop :=
  ∀ q', q' <+: q → q' ≠ [] → ∃ m, fs.get (top ++ q') = some (.dir m)

/-- A real directory with entries `etc` and `usr`. -/
structure RootfsAt (fs : FileSystem) (top : Loc) (q : List Name) : Prop where
  real : RealDir fs top q
  hasEtc : fs.get (top ++ q ++ [etc]) ≠ none
  hasUsr : fs.get (top ++ q ++ [usr]) ≠ none

/-- One of least depth. -/
def Shallowest (fs : FileSystem) (top : Loc) (q : List Name) : Prop :=
  RootfsAt fs top q ∧ ∀ q', RootfsAt fs top q' → q.length ≤ q'.length

/-- The search comes to its end, with one of least depth, or with none if there is none. -/
def FindsRootfs (fs : FileSystem) (out : Path) (top : Loc) : Prop :=
  ∃ result, (∃ turns, ∀ n ≥ turns, findRootfsDir fs n [out] = some result) ∧
    match result with
    | some path => ∃ q, path = out ++ q ∧ Shallowest fs top q
    | none => ∀ q, ¬ RootfsAt fs top q

/-- What can be come to by listing directories, and lists `etc` and `usr` itself. -/
def Shown (fs : FileSystem) (out : Path) (q : List Name) : Prop :=
  Listed fs out (out ++ q) ∧ showsRootfs fs (out ++ q) = true

/-- One of least depth is shown, and whatever else is shown through a link comes after it; and if
there is none, nothing is shown. -/
def LinksBehind (fs : FileSystem) (out : Path) (top : Loc) : Prop :=
  (∃ q, Shallowest fs top q ∧ Shown fs out q ∧
    ∀ q', Shown fs out q' → ¬ RealDir fs top q' → Precedes fs (out ++ q) (out ++ q')) ∨
  (∀ q, ¬ RootfsAt fs top q) ∧ ∀ q, ¬ Shown fs out q

/-! ## Real directories -/

variable {out : Path} {top : Loc} {q : List Name}

/-- A walk through directories that are no links goes where the path says. -/
theorem walkWith_real {follow : Loc → List Name → Option Loc} {l : Loc} (hq : ∀ c ∈ q, Proper c)
    (hreal : RealDir fs top q)
    (h : walkWith fs false follow top q = some l) : l = top ++ q := by
  induction q generalizing top with
  | nil =>
    cases h
    exact (List.append_nil _).symm
  | cons c q ih =>
    obtain ⟨hc, hrest⟩ := List.forall_mem_cons.mp hq
    obtain ⟨m, hget⟩ :=
      hreal [c] (List.cons_prefix_cons.mpr ⟨rfl, List.nil_prefix⟩) (List.cons_ne_nil _ _)
    have hbelow : RealDir fs (top ++ [c]) q := by
      intro q' hprefix _
      rw [List.append_assoc]
      exact hreal (c :: q') (List.cons_prefix_cons.mpr ⟨rfl, hprefix⟩) (List.cons_ne_nil _ _)
    rw [walkWith] at h
    split at h
    case isFalse => cases h
    case isTrue =>
      rw [if_neg (not_or.mpr ⟨hc.1, hc.2.1⟩), if_neg hc.2.2, hget] at h
      rw [ih hrest hbelow h, List.append_assoc]
      rfl

/-- The path of a real directory leads to it. -/
theorem resolve_real (htop : resolve fs false out = some top) (hq : ∀ c ∈ q, Proper c)
    (hreal : RealDir fs top q) {l : Loc}
    (h : resolve fs false (out ++ q) = some l) : l = top ++ q := by
  obtain ⟨n, hwalk⟩ := walk_append_same (fun _ _ => rfl) false q htop
  rw [resolve, hwalk] at h
  obtain ⟨follow, hfollow⟩ := walk_eq fs false n
  rw [hfollow] at h
  exact walkWith_real hq hreal h

/-- What is shown and real is the directory of a rootfs. -/
theorem Shown.rootfsAt (closed : Closed fs) (htop : resolve fs false out = some top)
    (h : Shown fs out q)
    (hreal : RealDir fs top q) : RootfsAt fs top q := by
  obtain ⟨q', hq', hproper⟩ := h.1.below closed
  obtain rfl := List.append_cancel_left hq'
  have hshows := of_decide_eq_true h.2
  cases hlist : list fs (out ++ q) with
  | none =>
    rw [hlist] at hshows
    cases hshows.1
  | some names =>
    rw [hlist] at hshows
    obtain ⟨l, hresolve, -, rfl⟩ := list_eq_some_iff.mp hlist
    obtain rfl := resolve_real htop hproper hreal hresolve
    exact ⟨hreal, mem_children.mp hshows.1, mem_children.mp hshows.2⟩

/-- The search ends with what is shown first. -/
theorem exists_found (closed : Closed fs) (out : Path) :
    ∃ result, (∃ turns, ∀ n ≥ turns, findRootfsDir fs n [out] = some result) ∧
      match result with
      | some path => ∃ q, path = out ++ q ∧ Shown fs out q ∧
          ∀ q', Shown fs out q' → q' = q ∨ Precedes fs (out ++ q) (out ++ q')
      | none => ∀ q, ¬ Shown fs out q := by
  obtain ⟨turns, visited, hwalk⟩ := exists_walk_listFiles closed out
  obtain ⟨result, hends, hnone, hsome⟩ := ordered_listFiles.search_spec hwalk (showsRootfs fs)
  refine ⟨result, ⟨turns, fun n hn => ?_⟩, ?_⟩
  · rw [findRootfsDir_eq_search]
    exact hends n hn
  · cases result with
    | none =>
      intro q hshown
      have := hnone rfl _ hshown.1
      rw [hshown.2] at this
      cases this
    | some path =>
      obtain ⟨hlisted, hshows, hfirst⟩ := hsome path rfl
      obtain ⟨q, rfl, -⟩ := Listed.below closed hlisted
      refine ⟨q, rfl, ⟨hlisted, hshows⟩, fun q' hshown => ?_⟩
      exact (hfirst _ hshown.1 hshown.2).imp_left List.append_cancel_left

/-- **The search finds a directory of the archive with `etc` and `usr`, of least depth**, if there
is one, exactly when no link leads to another one that is listed earlier, and one of least depth can
be listed. -/
theorem findsRootfs_iff (closed : Closed fs) (htop : resolve fs false out = some top) :
    FindsRootfs fs out top ↔ LinksBehind fs out top := by
  obtain ⟨result, ⟨turns, hends⟩, hfound⟩ := exists_found closed out
  constructor
  · rintro ⟨result', ⟨turns', hends'⟩, hright⟩
    have hsame : result' = result :=
      Option.some.inj
        ((hends' (max turns turns') (Nat.le_max_right _ _)).symm.trans
        (hends _ (Nat.le_max_left _ _)))
    subst hsame
    cases result' with
    | none => exact .inr ⟨hright, hfound⟩
    | some path =>
      obtain ⟨q, rfl, hshallowest⟩ := hright
      obtain ⟨q', heq, hshown, hfirst⟩ := hfound
      obtain rfl := List.append_cancel_left heq
      refine .inl ⟨q, hshallowest, hshown, fun q' hshown' hlinked =>
        (hfirst q' hshown').resolve_left ?_⟩
      rintro rfl
      exact hlinked hshallowest.1.real
  · intro hbehind
    refine ⟨result, ⟨turns, hends⟩, ?_⟩
    rcases hbehind with ⟨q, hshallowest, hshown, hbehind⟩ | ⟨hnone, hnothing⟩
    · cases result with
      | none => exact absurd hshown (hfound q)
      | some path =>
        obtain ⟨found, rfl, hfoundShown, hfirst⟩ := hfound
        have hreal : RealDir fs top found := by
          by_contra hlinked
          rcases hfirst q hshown with rfl | hbefore
          · exact hlinked hshallowest.1.real
          · exact hbefore.asymm (hbehind found hfoundShown hlinked)
        refine ⟨found, rfl, hfoundShown.rootfsAt closed htop hreal, fun q' hq' => ?_⟩
        have hlength : found.length ≤ q.length := by
          rcases hfirst q hshown with rfl | hbefore
          · exact Nat.le_refl _
          · have := hbefore.length_le
            rw [List.length_append, List.length_append] at this
            omega
        exact hlength.trans (hshallowest.2 q' hq')
    · cases result with
      | none => exact hnone
      | some path =>
        obtain ⟨found, -, hfoundShown, -⟩ := hfound
        exact absurd hfoundShown (hnothing found)

/-- A device with a rootfs that was installed before. -/
def phone : FileSystem where
  entries :=
    [(["tmp"], Node.dir 0o700), (["tmp", "extracted-rootfs"], .dir 0o700), (["rootfs"], .dir 0o700),
      (["rootfs", "alpine-1"], .dir 0o700), (["rootfs", "alpine-1", "etc"], .dir 0o755),
      (["rootfs", "alpine-1", "usr"], .dir 0o755)].map fun (names, node) =>
        (names.map String.toList, node)
  nodup := by decide +kernel

def extracted : Path := ["tmp", "extracted-rootfs"].map String.toList

/-- A rootfs in two directories, beside a link to another one. -/
def linkArchive : List TarArchiveEntry :=
  [⟨"debian/root/etc/".toList, .directory, [], 0o755, []⟩,
    ⟨"debian/root/usr/".toList, .directory, [], 0o755, []⟩,
    ⟨"old".toList, .symlink, "/rootfs/alpine-1".toList, 0o777, []⟩]

def linkTree : FileSystem :=
  (Archive.decompressCompressedTarStream id extracted ⟨phone, []⟩ linkArchive).fs

theorem findsRootfs_linkTree :
    FindsRootfs linkTree extracted extracted ↔ LinksBehind linkTree extracted extracted :=
  findsRootfs_iff (closed_of_wellPlaced (by decide +kernel)) (by decide +kernel)

theorem linkTree_found :
    ¬ ∀ (fs : FileSystem) (out : Path) (top : Loc), Closed fs → resolve fs false out = some top →
      FindsRootfs fs out top := by
  intro hall
  obtain ⟨result, ⟨turns, hends⟩, hright⟩ :=
    hall linkTree extracted extracted (closed_of_wellPlaced (by decide +kernel)) (by decide +kernel)
  have hlist : list linkTree extracted = some ["debian".toList, "old".toList] := by decide +kernel
  have hdebian : list linkTree (extracted ++ ["debian".toList]) = some ["root".toList] := by
    decide +kernel
  have hold : list linkTree (extracted ++ ["old".toList]) = some ["etc".toList, "usr".toList] := by
    decide +kernel
  have hfound :
      findRootfsDir linkTree (turns + 3) [extracted] =
        some (some (extracted ++ ["old".toList])) := by
    rw [findRootfsDir, hlist]
    dsimp only
    rw [if_neg (by decide), List.nil_append, List.map_cons, List.map_cons, List.map_nil,
      findRootfsDir, hdebian]
    dsimp only
    rw [if_neg (by decide), List.singleton_append, findRootfsDir, hold]
    exact if_pos (by decide)
  have hresult := Option.some.inj ((hends (turns + 3) (Nat.le_add_right _ _)).symm.trans hfound)
  subst hresult
  obtain ⟨q, heq, hshallowest⟩ := hright
  obtain rfl := List.append_cancel_left heq
  obtain ⟨m, hdir⟩ := hshallowest.1.real ["old".toList] List.prefix_rfl (List.cons_ne_nil _ _)
  have hlink :
      linkTree.get (extracted ++ ["old".toList]) =
        some (.link "/rootfs/alpine-1".toList) := by decide +kernel
  rw [hlink] at hdir
  cases hdir

end WinEmulator.App.Rootfs
