import Mathlib.Data.List.Infix
import WinEmulator.Lib.FileTree
import WinEmulator.Lib.JavaFile

/-!
# Where a path leads

How the location of a path depends on the file system, and on the lexical form of the path. A path
that resolved once keeps resolving while its nodes stay; and a path on which no link stands leads
where its collapsed form says.
-/

set_option autoImplicit false

namespace WinEmulator.Lib.Fs

open JavaFile

/-! ## Paths and the file system -/

/-- A component that is a name. -/
def Proper (c : Name) : Prop := c ≠ [] ∧ c ≠ dot ∧ c ≠ dotdot

instance : DecidablePred Proper := fun _ => inferInstanceAs (Decidable (_ ∧ _ ∧ _))

/-- What was there is there, but for directories, which may have another mode or be gone. -/
def Tolerates (fs₀ fs : FileSystem) : Prop :=
  ∀ l, fs₀.get l ≠ none → fs.get l = fs₀.get l ∨
    (∃ m, fs₀.get l = some (.dir m)) ∧ (fs.get l = none ∨ ∃ m, fs.get l = some (.dir m))

theorem get_of_dirGrants {fs : FileSystem} {l : Loc} {a : Access} (hl : l ≠ [])
    (h : dirGrants fs l a = true) : ∃ m, fs.get l = some (.dir m) ∧ grants m a = true := by
  unfold dirGrants at h
  rw [node_of_ne_nil hl] at h
  split at h
  next m hget => exact ⟨m, hget, h⟩
  next => cases h

theorem dirGrants_congr {fs₀ fs : FileSystem} {l : Loc} (a : Access) (h : fs.get l = fs₀.get l) :
    dirGrants fs l a = dirGrants fs₀ l a := by
  unfold dirGrants node
  rw [h]

section Stable

variable {fs₀ fs : FileSystem}

/-- The walk in the new file system fails, and something has changed. -/
def Lost (fs₀ fs : FileSystem) (result : Option Loc) : Prop :=
  result = none ∧ ∃ l, fs₀.get l ≠ none ∧ fs.get l ≠ fs₀.get l

theorem dirGrants_or_changed (fs : FileSystem) {l : Loc} {a : Access}
    (hgrants : dirGrants fs₀ l a = true) :
    dirGrants fs l a = true ∨
      dirGrants fs l a ≠ true ∧ ∃ l, fs₀.get l ≠ none ∧ fs.get l ≠ fs₀.get l := by
  by_cases hl : l = []
  · subst hl
    exact .inl hgrants
  · obtain ⟨m, hget, -⟩ := get_of_dirGrants hl hgrants
    by_cases hsame : fs.get l = fs₀.get l
    · exact .inl (by rw [dirGrants_congr a hsame]; exact hgrants)
    · by_cases hnow : dirGrants fs l a = true
      · exact .inl hnow
      · exact .inr ⟨hnow, l, by rw [hget]; exact Option.some_ne_none _, hsame⟩

/-- The walk along a path that resolved goes on after it, or is lost. -/
theorem walkWith_append (h : Tolerates fs₀ fs) {create : Bool} {cs : List Name}
    {follow₀ follow : Loc → List Name → Option Loc} {l : Loc}
    (hfollow : ∀ cur p, follow₀ cur p = some l → Lost fs₀ fs (follow cur (p ++ cs)) ∨
      ∃ n, follow cur (p ++ cs) = walk fs create n l cs)
    (hself : ∃ n, walkWith fs create follow l cs = walk fs create n l cs)
    {cur : Loc} {p : List Name} (hwalk : walkWith fs₀ false follow₀ cur p = some l) :
    Lost fs₀ fs (walkWith fs create follow cur (p ++ cs)) ∨
      ∃ n, walkWith fs create follow cur (p ++ cs) = walk fs create n l cs := by
  induction p generalizing cur with
  | nil =>
    cases hwalk
    exact .inr hself
  | cons c p ih =>
    rw [walkWith] at hwalk
    rw [List.cons_append, walkWith]
    split at hwalk
    next hgrants =>
      rcases dirGrants_or_changed fs hgrants with hnow | ⟨hnow, hchanged⟩
      · rw [if_pos hnow]
        split at hwalk
        next hdot =>
          rw [if_pos hdot]
          exact ih hwalk
        next hdot =>
          rw [if_neg hdot]
          split at hwalk
          next hdots =>
            rw [if_pos hdots]
            exact ih hwalk
          next hdots =>
            rw [if_neg hdots]
            have hthere : fs₀.get (cur ++ [c]) ≠ none := by
              intro hnone
              rw [hnone] at hwalk
              simp at hwalk
            rcases h _ hthere with hsame | ⟨⟨m, hdir⟩, hgone | ⟨m', hdir'⟩⟩
            · rw [hsame]
              cases hget : fs₀.get (cur ++ [c]) with
              | none => exact absurd hget hthere
              | some node =>
                rw [hget] at hwalk
                cases node with
                | dir m => exact ih hwalk
                | file content m =>
                  -- nothing comes after a file
                  dsimp only at hwalk ⊢
                  split at hwalk
                  next hp =>
                    cases hwalk
                    subst hp
                    obtain ⟨n, hn⟩ := hself
                    refine .inr ⟨n, ?_⟩
                    rw [← hn, List.nil_append]
                    cases cs with
                    | nil => rfl
                    | cons c' cs =>
                      have hfile : dirGrants fs (cur ++ [c]) .search ≠ true := by
                        intro hdir
                        obtain ⟨m', hm', -⟩ := get_of_dirGrants (by simp) hdir
                        rw [hsame, hget] at hm'
                        cases hm'
                      rw [walkWith, if_neg hfile, if_neg (List.cons_ne_nil _ _)]
                  next => cases hwalk
                | link target =>
                  dsimp only at hwalk ⊢
                  rw [← List.append_assoc]
                  exact hfollow _ _ hwalk
            · rw [hgone]
              rw [hdir] at hwalk
              dsimp only at hwalk ⊢
              have hchanged : ∃ l, fs₀.get l ≠ none ∧ fs.get l ≠ fs₀.get l :=
                ⟨cur ++ [c], hthere, by rw [hgone, hdir]; simp⟩
              split
              next hcreate =>
                obtain ⟨rfl, rfl⟩ := List.append_eq_nil_iff.mp hcreate.2
                cases hwalk
                obtain ⟨n, hn⟩ := hself
                exact .inr ⟨n, hn⟩
              next => exact .inl ⟨rfl, hchanged⟩
            · rw [hdir']
              rw [hdir] at hwalk
              exact ih hwalk
      · rw [if_neg hnow]
        exact .inl ⟨rfl, hchanged⟩
    next => cases hwalk

/-- A walk goes on from where its beginning leads, or is lost. -/
theorem walk_append (h : Tolerates fs₀ fs) (create : Bool) (cs : List Name) {n : Nat} {cur l : Loc}
    {p : List Name} (hwalk : walk fs₀ false n cur p = some l) :
    Lost fs₀ fs (walk fs create n cur (p ++ cs)) ∨
      ∃ n', walk fs create n cur (p ++ cs) = walk fs create n' l cs := by
  induction n generalizing cur p with
  | zero => exact walkWith_append h (fun _ _ hnone => by cases hnone) ⟨0, rfl⟩ hwalk
  | succ n ih => exact walkWith_append h (fun _ _ hfollow => ih hfollow) ⟨n + 1, rfl⟩ hwalk

/-- While everything that was there stays, the walk goes on. -/
theorem walk_append_same (h : ∀ l, fs₀.get l ≠ none → fs.get l = fs₀.get l) (create : Bool)
    (cs : List Name) {n : Nat} {cur l : Loc} {p : List Name}
    (hwalk : walk fs₀ false n cur p = some l) :
    ∃ n', walk fs create n cur (p ++ cs) = walk fs create n' l cs := by
  rcases walk_append (fun l hl => .inl (h l hl)) create cs hwalk
    with ⟨-, l', hthere, hchanged⟩ | hsome
  · exact absurd (h l' hthere) hchanged
  · exact hsome

end Stable

section Upto

variable {fs : FileSystem} {cs : List Name}

/-- The beginning of a walk that arrives arrives somewhere. -/
theorem walkWith_upto {follow : Loc → List Name → Option Loc} {cur x : Loc} {p : List Name}
    (hfollow : ∀ cur p, follow cur (p ++ cs) = some x → ∃ l, follow cur p = some l)
    (hwalk : walkWith fs false follow cur (p ++ cs) = some x) :
    ∃ l, walkWith fs false follow cur p = some l := by
  induction p generalizing cur with
  | nil => exact ⟨cur, rfl⟩
  | cons c p ih =>
    rw [List.cons_append, walkWith] at hwalk
    rw [walkWith]
    split at hwalk
    next hgrants =>
      rw [if_pos hgrants]
      split at hwalk
      next hdot =>
        rw [if_pos hdot]
        exact ih hwalk
      next hdot =>
        rw [if_neg hdot]
        split at hwalk
        next hdots =>
          rw [if_pos hdots]
          exact ih hwalk
        next hdots =>
          rw [if_neg hdots]
          split at hwalk
          next => exact ih hwalk
          next =>
            split at hwalk
            next hnil =>
              rw [if_pos (List.append_eq_nil_iff.mp hnil).1]
              exact ⟨_, rfl⟩
            next => cases hwalk
          next => exact hfollow _ _ (by rwa [List.append_assoc])
          next => simp at hwalk
    next => cases hwalk

/-- A path leads somewhere if a longer one does. -/
theorem walk_upto {n : Nat} {cur x : Loc} {p : List Name}
    (hwalk : walk fs false n cur (p ++ cs) = some x) :
    ∃ l, walk fs false n cur p = some l := by
  induction n generalizing cur p with
  | zero => exact walkWith_upto (fun _ _ hnone => by cases hnone) hwalk
  | succ n ih => exact walkWith_upto (fun _ _ h => ih h) hwalk

end Upto

/-! ## Locations as paths -/

section Clear

variable {fs : FileSystem}

/-- Every directory on the way to the location can be searched, and every name is one. -/
def Clear (fs : FileSystem) (l : Loc) : Prop :=
  ∀ q c, q ++ [c] <+: l → Proper c ∧ dirGrants fs q .search = true

theorem clear_nil : Clear fs [] := by
  intro q c h
  simp at h

theorem Clear.upto {l l' : Loc} (h : Clear fs l) (hle : l' <+: l) : Clear fs l' :=
  fun q c hq => h q c (hq.trans hle)

/-- A way is clear one name further if its directory can be searched. -/
theorem Clear.concat {l : Loc} {c : Name} (h : Clear fs l) (hc : Proper c)
    (hgrants : dirGrants fs l .search = true) : Clear fs (l ++ [c]) := by
  intro q c' hq
  rcases List.prefix_concat_iff.mp hq with heq | hle
  · obtain ⟨rfl, hc'⟩ := List.append_inj' heq rfl
    cases hc'
    exact ⟨hc, hgrants⟩
  · exact h q c' hle

theorem walkWith_clear {create : Bool} {follow : Loc → List Name → Option Loc} {l : Loc}
    (hfollow : ∀ cur p, Clear fs cur → follow cur p = some l → Clear fs l) {cur : Loc}
    {p : List Name}
    (hcur : Clear fs cur) (hwalk : walkWith fs create follow cur p = some l) : Clear fs l := by
  induction p generalizing cur with
  | nil =>
    cases hwalk
    exact hcur
  | cons c p ih =>
    rw [walkWith] at hwalk
    split at hwalk
    next hgrants =>
      split at hwalk
      next => exact ih hcur hwalk
      next hdot =>
        split at hwalk
        next => exact ih (hcur.upto (List.dropLast_prefix cur)) hwalk
        next hdots =>
          have hproper : Proper c := ⟨fun h => hdot (.inl h), fun h => hdot (.inr h), hdots⟩
          have hnext := hcur.concat hproper hgrants
          split at hwalk
          next => exact ih hnext hwalk
          next =>
            split at hwalk
            · cases hwalk
              exact hnext
            · cases hwalk
          next => exact hfollow _ _ (by split; exacts [clear_nil, hcur]) hwalk
          next =>
            split at hwalk
            · cases hwalk
              exact hnext
            · cases hwalk
    next => cases hwalk

/-- Where a walk from a clear place arrives is clear. -/
theorem walk_clear {create : Bool} {n : Nat} {cur l : Loc} {p : List Name} (hcur : Clear fs cur)
    (hwalk : walk fs create n cur p = some l) : Clear fs l := by
  induction n generalizing cur p with
  | zero => exact walkWith_clear (fun _ _ _ h => by cases h) hcur hwalk
  | succ n ih => exact walkWith_clear (fun _ _ hc h => ih hc h) hcur hwalk

theorem walkWith_proper {create : Bool} {follow : Loc → List Name → Option Loc} {cur : Loc}
    {c : Name}
    (cs : List Name) (hc : Proper c) (hgrants : dirGrants fs cur .search = true) :
    walkWith fs create follow cur (c :: cs) =
      match fs.get (cur ++ [c]) with
      | some (.dir _) => walkWith fs create follow (cur ++ [c]) cs
      | some (.file _ _) => if cs = [] then some (cur ++ [c]) else none
      | some (.link target) =>
        follow (if target.head? = some '/' then [] else cur) (targetPath target ++ cs)
      | none => if create ∧ cs = [] then some (cur ++ [c]) else none := by
  have hdot : ¬ (c = [] ∨ c = dot) := fun h => h.elim hc.1 hc.2.1
  exact (if_pos hgrants).trans ((if_neg hdot).trans (if_neg hc.2.2))

/-- A walk along names to a node that is no link. -/
theorem walkWith_names {create : Bool} {follow : Loc → List Name → Option Loc} {cur : Loc}
    {p : List Name} (hclear : Clear fs (cur ++ p)) (hnode : ∀ t, fs.get (cur ++ p) ≠ some (.link t))
    (hthere : fs.get (cur ++ p) ≠ none ∨ create = true ∨ p = []) :
    walkWith fs create follow cur p = some (cur ++ p) := by
  induction p generalizing cur with
  | nil =>
    rw [List.append_nil]
    rfl
  | cons c p ih =>
    have hsplit : cur ++ c :: p = cur ++ [c] ++ p := by simp
    rw [hsplit] at hclear hnode hthere ⊢
    obtain ⟨hproper, hgrants⟩ := hclear cur c (List.prefix_append _ _)
    rw [walkWith_proper p hproper hgrants]
    cases p with
    | nil =>
      rw [List.append_nil] at hnode hthere ⊢
      cases hget : fs.get (cur ++ [c]) with
      | none =>
        rcases hthere with hthere | rfl | hnil
        · exact absurd hget hthere
        · rfl
        · cases hnil
      | some node =>
        cases node with
        | dir m => rfl
        | file content m => rfl
        | link target => exact absurd hget (hnode target)
    | cons c' p =>
      obtain ⟨-, hdir⟩ := hclear (cur ++ [c]) c' ⟨p, by simp⟩
      obtain ⟨m, hget, -⟩ := get_of_dirGrants (by simp) hdir
      rw [hget]
      refine ih hclear hnode ?_
      rcases hthere with hthere | hcreate | hnil
      · exact .inl hthere
      · exact .inr (.inl hcreate)
      · cases hnil

theorem walk_eq (fs : FileSystem) (create : Bool) (n : Nat) :
    ∃ follow, ∀ cur p, walk fs create n cur p = walkWith fs create follow cur p := by
  cases n with
  | zero => exact ⟨_, fun _ _ => rfl⟩
  | succ n => exact ⟨_, fun _ _ => rfl⟩

/-- A clear way is walked as it is written. -/
theorem walk_names {create : Bool} {n : Nat} {cur : Loc} {p : List Name}
    (hclear : Clear fs (cur ++ p)) (hnode : ∀ t, fs.get (cur ++ p) ≠ some (.link t))
    (hthere : fs.get (cur ++ p) ≠ none ∨ create = true ∨ p = []) :
    walk fs create n cur p = some (cur ++ p) := by
  obtain ⟨follow, heq⟩ := walk_eq fs create n
  rw [heq]
  exact walkWith_names hclear hnode hthere

theorem node_of_dirGrants {l : Loc} {a : Access} (h : dirGrants fs l a = true) :
    node fs l ≠ none := by
  intro hnone
  unfold dirGrants at h
  rw [hnone] at h
  cases h

theorem Clear.node_dropLast {l : Loc} (h : Clear fs l) (hl : node fs l ≠ none) :
    node fs l.dropLast ≠ none := by
  cases l using List.reverseRecOn with
  | nil => exact hl
  | append_singleton l c =>
    rw [List.dropLast_concat]
    exact node_of_dirGrants (h l c (List.prefix_refl _)).2

/-- Without `create` a walk ends at something that is there. -/
theorem walkWith_there {follow : Loc → List Name → Option Loc} {l : Loc}
    (hfollow : ∀ cur p, Clear fs cur → node fs cur ≠ none → follow cur p = some l →
      node fs l ≠ none)
    {cur : Loc} {p : List Name} (hclear : Clear fs cur) (hcur : node fs cur ≠ none)
    (hwalk : walkWith fs false follow cur p = some l) : node fs l ≠ none := by
  induction p generalizing cur with
  | nil =>
    cases hwalk
    exact hcur
  | cons c p ih =>
    rw [walkWith] at hwalk
    split at hwalk
    next hgrants =>
      split at hwalk
      next => exact ih hclear hcur hwalk
      next hdot =>
        split at hwalk
        next =>
          exact ih (hclear.upto (List.dropLast_prefix cur)) (hclear.node_dropLast hcur) hwalk
        next hdots =>
          have hproper : Proper c := ⟨fun h => hdot (.inl h), fun h => hdot (.inr h), hdots⟩
          have hnonempty : cur ++ [c] ≠ [] := by simp
          split at hwalk
          next m hget =>
            refine ih (hclear.concat hproper hgrants) ?_ hwalk
            rw [node_of_ne_nil hnonempty, hget]
            exact Option.some_ne_none _
          next content m hget =>
            split at hwalk
            · cases hwalk
              rw [node_of_ne_nil hnonempty, hget]
              exact Option.some_ne_none _
            · cases hwalk
          next =>
            refine hfollow _ _ ?_ ?_ hwalk
            · split
              exacts [clear_nil, hclear]
            · split
              exacts [Option.some_ne_none _, hcur]
          next => simp at hwalk
    next => cases hwalk

theorem walk_there {n : Nat} {cur l : Loc} {p : List Name} (hclear : Clear fs cur)
    (hcur : node fs cur ≠ none) (hwalk : walk fs false n cur p = some l) : node fs l ≠ none := by
  induction n generalizing cur p with
  | zero => exact walkWith_there (fun _ _ _ _ h => by cases h) hclear hcur hwalk
  | succ n ih => exact walkWith_there (fun _ _ hc hn h => ih hc hn h) hclear hcur hwalk

/-! ## Placing the last name -/

/-- Where the last name of a path stands. -/
theorem place_concat_iff {p : Path} {c : Name} {l : Loc} :
    place fs (p ++ [c]) = some l ↔
      Proper c ∧ ∃ parent, resolve fs false p = some parent ∧ dirGrants fs parent .search = true ∧
        l = parent ++ [c] := by
  unfold place
  rw [List.getLast?_concat, Option.bind_some, List.dropLast_concat]
  by_cases hc : Proper c
  · have hnot : ¬ (c = [] ∨ c = dot ∨ c = dotdot) := by
      rintro (h | h | h)
      · exact hc.1 h
      · exact hc.2.1 h
      · exact hc.2.2 h
    rw [if_neg hnot, Option.bind_eq_some_iff]
    constructor
    · rintro ⟨parent, hparent, h⟩
      split at h
      next hgrants => exact ⟨hc, parent, hparent, hgrants, (Option.some.inj h).symm⟩
      next => cases h
    · rintro ⟨-, parent, hparent, hgrants, rfl⟩
      exact ⟨parent, hparent, if_pos hgrants⟩
  · have hspecial : c = [] ∨ c = dot ∨ c = dotdot := by
      by_contra hnot
      simp only [not_or] at hnot
      exact hc hnot
    rw [if_pos hspecial]
    exact ⟨fun h => (by cases h), fun h => absurd h.1 hc⟩

/-- A path that leads somewhere has a place, which is where it leads if no link stands there. -/
theorem place_of_resolve {p : Path} {c : Name} {l : Loc} (hc : Proper c)
    (h : resolve fs false (p ++ [c]) = some l) :
    ∃ x, place fs (p ++ [c]) = some x ∧ fs.get x ≠ none ∧
      (x = l ∨ ∃ target, fs.get x = some (.link target)) := by
  obtain ⟨parent, hparent⟩ := walk_upto h
  obtain ⟨n, hn⟩ := walk_append_same (fun _ _ => rfl) false [c] hparent
  have hlast : walk fs false n parent [c] = some l := hn.symm.trans h
  obtain ⟨follow, heq⟩ := walk_eq fs false n
  rw [heq] at hlast
  by_cases hgrants : dirGrants fs parent .search = true
  · rw [walkWith_proper [] hc hgrants] at hlast
    refine ⟨parent ++ [c], place_concat_iff.mpr ⟨hc, parent, hparent, hgrants, rfl⟩, ?_⟩
    split at hlast
    next m hget => exact ⟨by rw [hget]; exact Option.some_ne_none _, .inl (Option.some.inj hlast)⟩
    next content m hget =>
      exact ⟨by rw [hget]; exact Option.some_ne_none _, .inl (Option.some.inj hlast)⟩
    next target hget => exact ⟨by rw [hget]; exact Option.some_ne_none _, .inr ⟨target, hget⟩⟩
    next => simp at hlast
  · rw [walkWith, if_neg hgrants] at hlast
    cases hlast

theorem ne_nil_of_place {p : Path} {l : Loc} (h : place fs p = some l) :
    ∃ q c, p = q ++ [c] := by
  cases p using List.reverseRecOn with
  | nil => cases h
  | append_singleton q c => exact ⟨q, c, rfl⟩

end Clear

/-! ## Collapsed paths -/

/-- Collapsing goes on from where the first part ends. -/
theorem collapse_append (cur : Loc) (cs ds : List Name) :
    collapse cur (cs ++ ds) = collapse (collapse cur cs) ds := by
  induction cs generalizing cur with
  | nil => rfl
  | cons c cs ih =>
    rw [List.cons_append, collapse, collapse]
    split
    · exact ih cur
    · split
      · exact ih cur.dropLast
      · exact ih (cur ++ [c])

theorem collapse_proper (cur : Loc) {c : Name} (hc : Proper c) : collapse cur [c] = cur ++ [c] := by
  have hdot : ¬ (c = [] ∨ c = dot) := fun h => h.elim hc.1 hc.2.1
  rw [collapse, if_neg hdot, if_neg hc.2.2, collapse]

/-- Proper names collapse to themselves. -/
theorem collapse_names (cur : Loc) {cs : List Name} (h : ∀ c ∈ cs, Proper c) :
    collapse cur cs = cur ++ cs := by
  induction cs generalizing cur with
  | nil => rw [List.append_nil]; rfl
  | cons c cs ih =>
    have hcons : c :: cs = [c] ++ cs := rfl
    rw [hcons, collapse_append, collapse_proper cur (h c List.mem_cons_self),
      ih _ fun d hd => h d (List.mem_cons_of_mem _ hd), List.append_assoc]

/-- Only proper names are left by collapsing. -/
theorem proper_of_mem_collapse {cur : Loc} {cs : List Name} (hcur : ∀ c ∈ cur, Proper c) :
    ∀ c ∈ collapse cur cs, Proper c := by
  induction cs generalizing cur with
  | nil => exact hcur
  | cons d cs ih =>
    rw [collapse]
    split
    next => exact ih hcur
    next hdot =>
      split
      next => exact ih fun c hc => hcur c (List.dropLast_subset cur hc)
      next hdots =>
        refine ih fun c hc => ?_
        rcases List.mem_append.mp hc with hc | hc
        · exact hcur c hc
        · rw [List.mem_singleton.mp hc]
          exact ⟨fun h => hdot (.inl h), fun h => hdot (.inr h), hdots⟩

/-- No double dot takes back more than the path has put there, `rel` included. -/
def Stays (rel : Loc) (cs : List Name) : Prop :=
  ∀ pre post, cs = pre ++ dotdot :: post → collapse rel pre ≠ []

theorem stays_nil (rel : Loc) : Stays rel [] := by
  intro pre post heq
  simp at heq

/-- Whether a path stays inside, name by name. -/
theorem stays_cons (rel : Loc) (c : Name) (cs : List Name) :
    Stays rel (c :: cs) ↔ (c = dotdot → rel ≠ []) ∧ Stays (collapse rel [c]) cs := by
  constructor
  · intro h
    refine ⟨fun hc => ?_, fun pre post heq => ?_⟩
    · subst hc
      exact h [] cs rfl
    · rw [← collapse_append]
      exact h (c :: pre) post (by rw [heq, List.cons_append])
  · rintro ⟨hfirst, hrest⟩ pre post heq
    cases pre with
    | nil =>
      rw [List.nil_append, List.cons.injEq] at heq
      exact hfirst heq.1
    | cons c' pre =>
      rw [List.cons_append, List.cons.injEq] at heq
      obtain ⟨rfl, heq⟩ := heq
      have hpre := hrest pre post heq
      rwa [← collapse_append] at hpre

instance decidableStays (rel : Loc) : (cs : List Name) → Decidable (Stays rel cs)
  | [] => isTrue (stays_nil rel)
  | c :: cs =>
    have := decidableStays (collapse rel [c]) cs
    decidable_of_iff _ (stays_cons rel c cs).symm

theorem Stays.upto {rel : Loc} {cs ds : List Name} (h : Stays rel (cs ++ ds)) : Stays rel cs := by
  intro pre post heq
  refine h pre (post ++ ds) ?_
  rw [heq, List.append_assoc, List.cons_append]

theorem Stays.tail {rel : Loc} {c : Name} {cs : List Name} (h : Stays rel (c :: cs)) :
    Stays (collapse rel [c]) cs :=
  ((stays_cons rel c cs).mp h).2

/-- Such a path stays below where it starts. -/
theorem collapse_under (out : Loc) {rel : Loc} {cs : List Name} (h : Stays rel cs) :
    collapse (out ++ rel) cs = out ++ collapse rel cs := by
  induction cs generalizing rel with
  | nil => rfl
  | cons c cs ih =>
    have htail := h.tail
    rw [collapse, collapse]
    rw [collapse] at htail
    by_cases hdot : c = [] ∨ c = dot
    · rw [if_pos hdot] at htail ⊢
      rw [if_pos hdot]
      exact ih htail
    · rw [if_neg hdot] at htail ⊢
      rw [if_neg hdot]
      by_cases hdots : c = dotdot
      · rw [if_pos hdots] at htail ⊢
        rw [if_pos hdots]
        have hne : rel ≠ [] := by
          subst hdots
          exact h [] cs rfl
        rw [List.dropLast_append_of_ne_nil hne]
        exact ih htail
      · rw [if_neg hdots] at htail ⊢
        rw [if_neg hdots, List.append_assoc]
        exact ih htail

/-- What a path visits it keeps, or a double dot takes it back right there. -/
theorem prefix_or_popped (rel : Loc) (pre rest : List Name) :
    collapse rel pre <+: collapse rel (pre ++ rest) ∨
      ∃ mid post, pre ++ rest = mid ++ dotdot :: post ∧ collapse rel mid = collapse rel pre := by
  induction rest using List.reverseRecOn with
  | nil =>
    rw [List.append_nil]
    exact .inl (List.prefix_refl _)
  | append_singleton rest c ih =>
    rw [← List.append_assoc]
    rcases ih with hle | ⟨mid, post, heq, hmid⟩
    · rw [collapse_append rel (pre ++ rest)]
      by_cases hdot : c = [] ∨ c = dot
      · rw [collapse, if_pos hdot]
        exact .inl hle
      · by_cases hdots : c = dotdot
        · by_cases hsame : collapse rel pre = collapse rel (pre ++ rest)
          · exact .inr ⟨pre ++ rest, [], by rw [hdots], hsame.symm⟩
          · rw [collapse, if_neg hdot, if_pos hdots]
            refine .inl ?_
            obtain ⟨more, hmore⟩ := hle
            rw [← hmore]
            have hne : more ≠ [] := by
              rintro rfl
              rw [List.append_nil] at hmore
              exact hsame hmore
            rw [List.dropLast_append_of_ne_nil hne]
            exact List.prefix_append _ _
        · rw [collapse, if_neg hdot, if_neg hdots]
          exact .inl (hle.trans (List.prefix_append _ _))
    · refine .inr ⟨mid, post ++ [c], ?_, hmid⟩
      rw [heq, List.append_assoc, List.cons_append]

/-! ## Walks without links -/

/-- No link stands where the path comes by. -/
def NoLinks (fs : FileSystem) (cur : Loc) (cs : List Name) : Prop :=
  ∀ pre, pre <+: cs → ∀ t, fs.get (collapse cur pre) ≠ some (.link t)

instance (fs : FileSystem) (cur : Loc) (cs : List Name) : Decidable (NoLinks fs cur cs) :=
  decidable_of_iff (∀ pre ∈ cs.inits, ∀ node ∈ fs.get (collapse cur pre), node.isLink = false) <| by
    constructor
    · intro h pre hpre t hget
      exact absurd (h pre ((List.mem_inits pre cs).mpr hpre) _ hget) (by simp [Node.isLink])
    · intro h pre hpre node hget
      cases node with
      | dir => rfl
      | file => rfl
      | link t => exact absurd hget (h pre ((List.mem_inits pre cs).mp hpre) t)

theorem NoLinks.upto {fs : FileSystem} {cur : Loc} {cs ds : List Name} (h : NoLinks fs cur ds)
    (hle : cs <+: ds) : NoLinks fs cur cs :=
  fun pre hpre => h pre (hpre.trans hle)

theorem NoLinks.tail {fs : FileSystem} {cur : Loc} {c : Name} {cs : List Name}
    (h : NoLinks fs cur (c :: cs)) : NoLinks fs (collapse cur [c]) cs := by
  intro pre hpre
  rw [← collapse_append]
  exact h (c :: pre) (List.cons_prefix_cons.mpr ⟨rfl, hpre⟩)

/-- The walk ends where the collapsed path says, if it ends. -/
theorem walk_noLinks {fs : FileSystem} {create : Bool} {n : Nat} {cur l : Loc} {cs : List Name}
    (h : NoLinks fs cur cs) (hwalk : walk fs create n cur cs = some l) : l = collapse cur cs := by
  obtain ⟨follow, heq⟩ := walk_eq fs create n
  rw [heq] at hwalk
  induction cs generalizing cur with
  | nil =>
    cases hwalk
    rfl
  | cons c cs ih =>
    have htail := h.tail
    rw [walkWith] at hwalk
    rw [collapse] at htail ⊢
    split at hwalk
    next =>
      split at hwalk
      next hdot =>
        rw [if_pos hdot] at htail ⊢
        exact ih htail hwalk
      next hdot =>
        rw [if_neg hdot] at htail ⊢
        split at hwalk
        next hdots =>
          rw [if_pos hdots] at htail ⊢
          exact ih htail hwalk
        next hdots =>
          rw [if_neg hdots] at htail ⊢
          split at hwalk
          next => exact ih htail hwalk
          next =>
            split at hwalk
            next hnil =>
              cases hwalk
              rw [hnil]
              rfl
            next => cases hwalk
          next target hget =>
            have hnot := h [c] ⟨cs, rfl⟩ target
            rw [collapse_proper cur ⟨fun h => hdot (.inl h), fun h => hdot (.inr h), hdots⟩] at hnot
            exact absurd hget hnot
          next =>
            split at hwalk
            next hcreate =>
              cases hwalk
              rw [hcreate.2]
              rfl
            next => cases hwalk
    next => cases hwalk

end WinEmulator.Lib.Fs
