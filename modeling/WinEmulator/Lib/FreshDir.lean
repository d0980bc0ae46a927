import WinEmulator.Lib.Resolve

/-!
# Below a fresh directory

A directory that was empty at the beginning and is only filled with directories and files: every
path into it that does not climb out of it leads where its collapsed form says, and `mkdirs` makes
sure that no link can come to stand on such a path later.
-/

set_option autoImplicit false

namespace WinEmulator.Lib.Fs

open JavaFile

def grantsAll (m : Mode) : Prop := ∀ a, grants m a = true

theorem grantsAll_newDirMode : grantsAll newDirMode := by
  intro a
  cases a <;> decide

/-- An empty directory that grants everything. -/
structure Fresh (fs₀ : FileSystem) (out : Loc) : Prop where
  dir : ∃ m, fs₀.get out = some (.dir m) ∧ grantsAll m
  empty : ∀ l, out <+: l → l ≠ out → fs₀.get l = none

/-- Below the location every node stands in a directory. -/
def Rooted (out : Loc) (fs : FileSystem) : Prop :=
  ∀ l c, out <+: l → fs.get (l ++ [c]) ≠ none → ∃ m, fs.get l = some (.dir m)

/-- The file system has changed below the directory only, and there it has accessible directories,
and files. -/
structure Filling (fs₀ : FileSystem) (out : Loc) (fs : FileSystem) : Prop where
  outside : ∀ l, ¬ out <+: l → fs.get l = fs₀.get l
  top : fs.get out = fs₀.get out
  rooted : Rooted out fs
  dirs : ∀ l m, out <+: l → fs.get l = some (.dir m) → grantsAll m
  noLinks : ∀ l t, out <+: l → fs.get l ≠ some (.link t)

/-- Directories stay directories and files stay files. -/
def SameKind (fs fs' : FileSystem) : Prop :=
  ∀ l, (∀ m, fs.get l = some (.dir m) → ∃ m', fs'.get l = some (.dir m')) ∧
    ∀ c m, fs.get l = some (.file c m) → ∃ c' m', fs'.get l = some (.file c' m')

/-- A directory stands there, or a file there or above. -/
def Sealed (out : Loc) (fs : FileSystem) (l : Loc) : Prop :=
  (∃ m, fs.get l = some (.dir m)) ∨
    ∃ l' c m, out <+: l' ∧ l' <+: l ∧ fs.get l' = some (.file c m)

theorem SameKind.refl (fs : FileSystem) : SameKind fs fs :=
  fun _ => ⟨fun m h => ⟨m, h⟩, fun c m h => ⟨c, m, h⟩⟩

/-- Being of the same kind everywhere is transitive. -/
theorem SameKind.trans {fs fs' fs'' : FileSystem} (h : SameKind fs fs') (h' : SameKind fs' fs'') :
    SameKind fs fs'' := by
  intro l
  constructor
  · intro m hm
    obtain ⟨m', hm'⟩ := (h l).1 m hm
    exact (h' l).1 m' hm'
  · intro c m hm
    obtain ⟨c', m', hm'⟩ := (h l).2 c m hm
    exact (h' l).2 c' m' hm'

/-- A sealed place stays sealed while nothing changes its kind. -/
theorem Sealed.mono {out : Loc} {fs fs' : FileSystem} {l : Loc} (h : Sealed out fs l)
    (hsame : SameKind fs fs') : Sealed out fs' l := by
  rcases h with ⟨m, hm⟩ | ⟨l', c, m, hout, hle, hm⟩
  · exact .inl ((hsame l).1 m hm)
  · obtain ⟨c', m', hm'⟩ := (hsame l').2 c m hm
    exact .inr ⟨l', c', m', hout, hle, hm'⟩

/-- The directories above what is there. -/
theorem Rooted.dir_above {out : Loc} {fs : FileSystem} (h : Rooted out fs) {l l' : Loc}
    (hout : out <+: l) (hle : l <+: l') (hne : l ≠ l') (hget : fs.get l' ≠ none) :
    ∃ m, fs.get l = some (.dir m) := by
  obtain ⟨rest, rfl⟩ := hle
  induction rest using List.reverseRecOn with
  | nil => exact absurd (List.append_nil l).symm hne
  | append_singleton rest c ih =>
    rw [← List.append_assoc] at hget
    obtain ⟨m, hm⟩ := h _ c (hout.trans (List.prefix_append l rest)) hget
    by_cases hrest : rest = []
    · subst hrest
      rw [List.append_nil] at hm
      exact ⟨m, hm⟩
    · exact ih (by simpa using hrest) (by rw [hm]; exact Option.some_ne_none _)

/-- A location below another one, and the name it ends with. -/
theorem concat_of_prefix_ne {out l : Loc} (hout : out <+: l) (hne : l ≠ out) :
    ∃ parent c, l = parent ++ [c] ∧ out <+: parent := by
  cases l using List.reverseRecOn with
  | nil => exact absurd (List.prefix_nil.mp hout) (Ne.symm hne)
  | append_singleton parent c =>
    exact ⟨parent, c, rfl, (List.prefix_concat_iff.mp hout).resolve_left (Ne.symm hne)⟩

section Fresh

variable {fs₀ fs : FileSystem} {out : Loc}

theorem Filling.start (fresh : Fresh fs₀ out) : Filling fs₀ out fs₀ := by
  obtain ⟨⟨m, hm, hall⟩, hempty⟩ := fresh
  refine ⟨fun _ _ => rfl, rfl, ?_, ?_, ?_⟩
  · intro l c hl hget
    refine absurd (hempty (l ++ [c]) (hl.trans (List.prefix_append l [c])) ?_) hget
    rintro rfl
    exact not_prefix_parent l c hl
  · intro l m' hl hget
    by_cases heq : l = out
    · subst heq
      rw [hm] at hget
      cases hget
      exact hall
    · rw [hempty l hl heq] at hget
      cases hget
  · intro l t hl hget
    by_cases heq : l = out
    · subst heq
      rw [hm] at hget
      cases hget
    · rw [hempty l hl heq] at hget
      cases hget

/-- Everything that was there at the beginning is still the same. -/
theorem Filling.same (fresh : Fresh fs₀ out) (h : Filling fs₀ out fs) {l : Loc}
    (hl : fs₀.get l ≠ none) : fs.get l = fs₀.get l := by
  by_cases hout : out <+: l
  · by_cases heq : l = out
    · rw [heq]
      exact h.top
    · exact absurd (fresh.empty l hout heq) hl
  · exact h.outside l hout

/-- A node is made where nothing was, in a directory. -/
theorem Filling.create (h : Filling fs₀ out fs) {l : Loc} {c : Name} {n : Node}
    (hout : out <+: l) (hdir : ∃ m, fs.get l = some (.dir m)) (hnone : fs.get (l ++ [c]) = none)
    (hn : n = .dir newDirMode ∨ ∃ content m, n = .file content m) :
    Filling fs₀ out (fs.set (l ++ [c]) (some n)) ∧ SameKind fs (fs.set (l ++ [c]) (some n)) := by
  have hother : ∀ l', l' ≠ l ++ [c] → (fs.set (l ++ [c]) (some n)).get l' = fs.get l' := by
    intro l' hne
    rw [LinkedMap.get_set, if_neg hne]
  have hself : (fs.set (l ++ [c]) (some n)).get (l ++ [c]) = some n := by
    rw [LinkedMap.get_set, if_pos rfl]
  have hlc : out <+: l ++ [c] := hout.trans (List.prefix_append l [c])
  have hlne : l ≠ l ++ [c] := by simp
  have hsame : SameKind fs (fs.set (l ++ [c]) (some n)) := by
    intro l'
    by_cases heq : l' = l ++ [c]
    · subst heq
      rw [hnone]
      exact ⟨fun _ h => (by cases h), fun _ _ h => (by cases h)⟩
    · rw [hother l' heq]
      exact SameKind.refl fs l'
  refine ⟨⟨?_, ?_, ?_, ?_, ?_⟩, hsame⟩
  · intro l' hl'
    rw [hother l' (fun heq => hl' (heq ▸ hlc))]
    exact h.outside l' hl'
  · rw [hother out (fun heq => not_prefix_parent l c (heq ▸ hout))]
    exact h.top
  · intro l' c' hl' hget
    by_cases heq : l' ++ [c'] = l ++ [c]
    · obtain ⟨rfl, -⟩ := List.append_inj' heq rfl
      rw [hother l' hlne]
      exact hdir
    · rw [hother _ heq] at hget
      obtain ⟨m, hm⟩ := h.rooted l' c' hl' hget
      exact (hsame l').1 m hm
  · intro l' m hl' hget
    by_cases heq : l' = l ++ [c]
    · subst heq
      rw [hself] at hget
      rcases hn with rfl | ⟨content, m', rfl⟩
      · cases hget
        exact grantsAll_newDirMode
      · cases hget
    · rw [hother l' heq] at hget
      exact h.dirs l' m hl' hget
  · intro l' t hl' hget
    by_cases heq : l' = l ++ [c]
    · subst heq
      rw [hself] at hget
      rcases hn with rfl | ⟨content, m', rfl⟩
      · cases hget
      · cases hget
    · rw [hother l' heq] at hget
      exact h.noLinks l' t hl' hget

/-- A file is replaced by a file. -/
theorem Filling.replace (fresh : Fresh fs₀ out) (h : Filling fs₀ out fs) {l : Loc} {c : List UInt8}
    {m : Mode} (hout : out <+: l) (hfile : fs.get l = some (.file c m)) (c' : List UInt8)
    (m' : Mode) :
    Filling fs₀ out (fs.set l (some (.file c' m'))) ∧
      SameKind fs (fs.set l (some (.file c' m'))) := by
  have hother : ∀ l', l' ≠ l → (fs.set l (some (.file c' m'))).get l' = fs.get l' := by
    intro l' hne
    rw [LinkedMap.get_set, if_neg hne]
  have hself : (fs.set l (some (.file c' m'))).get l = some (.file c' m') := by
    rw [LinkedMap.get_set, if_pos rfl]
  have hsame : SameKind fs (fs.set l (some (.file c' m'))) := by
    intro l'
    by_cases heq : l' = l
    · subst heq
      rw [hself, hfile]
      exact ⟨fun _ h => (by cases h), fun _ _ _ => ⟨c', m', rfl⟩⟩
    · rw [hother l' heq]
      exact SameKind.refl fs l'
  refine ⟨⟨?_, ?_, ?_, ?_, ?_⟩, hsame⟩
  · intro l' hl'
    rw [hother l' (fun heq => hl' (heq ▸ hout))]
    exact h.outside l' hl'
  · have hne : out ≠ l := by
      rintro rfl
      obtain ⟨m₀, hm₀, -⟩ := fresh.dir
      rw [h.top, hm₀] at hfile
      cases hfile
    rw [hother out hne]
    exact h.top
  · intro l' c₁ hl' hget
    have hbefore : fs.get (l' ++ [c₁]) ≠ none := by
      by_cases heq : l' ++ [c₁] = l
      · rw [heq, hfile]
        exact Option.some_ne_none _
      · rwa [hother _ heq] at hget
    obtain ⟨m₁, hm₁⟩ := h.rooted l' c₁ hl' hbefore
    exact (hsame l').1 m₁ hm₁
  · intro l' m₁ hl' hget
    by_cases heq : l' = l
    · subst heq
      rw [hself] at hget
      cases hget
    · rw [hother l' heq] at hget
      exact h.dirs l' m₁ hl' hget
  · intro l' t hl' hget
    by_cases heq : l' = l
    · subst heq
      rw [hself] at hget
      cases hget
    · rw [hother l' heq] at hget
      exact h.noLinks l' t hl' hget

/-! ## Paths into the directory -/

theorem stays_prefix_mem {cs pre : List Name} (h : Stays [] cs) (hpre : pre <+: cs) :
    Stays [] pre := by
  obtain ⟨post, rfl⟩ := hpre
  exact h.upto

theorem under_collapse {cs pre : List Name} (h : Stays [] cs) (hpre : pre <+: cs) :
    collapse out pre = out ++ collapse [] pre := by
  have hunder := collapse_under out (stays_prefix_mem h hpre)
  rwa [List.append_nil] at hunder

theorem ne_nil_of_place_some {p : Path} (hplace : place fs₀ p = some out) : out ≠ [] := by
  obtain ⟨q, c, rfl⟩ := ne_nil_of_place hplace
  obtain ⟨-, parent, -, -, rfl⟩ := place_concat_iff.mp hplace
  simp

/-- A path to the directory resolves to it. -/
theorem resolve_of_place {p : Path} (fresh : Fresh fs₀ out) (hplace : place fs₀ p = some out) :
    resolve fs₀ false p = some out := by
  obtain ⟨q, c, rfl⟩ := ne_nil_of_place hplace
  obtain ⟨hc, parent, hq, hgrants, rfl⟩ := place_concat_iff.mp hplace
  obtain ⟨n, hn⟩ := walk_append_same (fun _ _ => rfl) false [c] hq
  obtain ⟨m, hm, -⟩ := fresh.dir
  show walk fs₀ false maxLinks [] (q ++ [c]) = _
  rw [hn]
  obtain ⟨follow, heq⟩ := walk_eq fs₀ false n
  rw [heq, walkWith_proper [] hc hgrants, hm]
  rfl

/-- The directory's own location is a path to it. -/
theorem place_self {p : Path} (hplace : place fs₀ p = some out) :
    place fs₀ out = some out := by
  obtain ⟨q, c, rfl⟩ := ne_nil_of_place hplace
  obtain ⟨hc, parent, hq, hgrants, rfl⟩ := place_concat_iff.mp hplace
  refine place_concat_iff.mpr ⟨hc, parent, ?_, hgrants, rfl⟩
  by_cases hparent : parent = []
  · rw [hparent]
    rfl
  · obtain ⟨m, hm, -⟩ := get_of_dirGrants hparent hgrants
    refine walk_names (walk_clear clear_nil hq : Clear fs₀ ([] ++ parent)) ?_ (.inl ?_)
    · intro t
      rw [List.nil_append, hm]
      simp
    · rw [List.nil_append, hm]
      simp

variable {p : Path} {cs : List Name}

/-- Paths below the fresh directory are walked from it. -/
theorem Filling.resolve_eq (fresh : Fresh fs₀ out) (h : Filling fs₀ out fs)
    (hplace : place fs₀ p = some out) (create : Bool) (cs : List Name) :
    ∃ n, resolve fs create (p ++ cs) = walk fs create n out cs :=
  walk_append_same (fun _ hl => h.same fresh hl) create cs (resolve_of_place fresh hplace)

/-- No link stands on the way of a name that stays inside. -/
theorem Filling.no_links (h : Filling fs₀ out fs) (hstays : Stays [] cs) : NoLinks fs out cs := by
  intro pre hpre t
  rw [under_collapse hstays hpre]
  exact h.noLinks _ t (List.prefix_append _ _)

/-- A path that does not climb out leads where its collapsed form says. -/
theorem Filling.resolve_some (fresh : Fresh fs₀ out) (h : Filling fs₀ out fs)
    (hplace : place fs₀ p = some out) (hstays : Stays [] cs) {create : Bool} {l : Loc}
    (hl : resolve fs create (p ++ cs) = some l) : l = out ++ collapse [] cs := by
  obtain ⟨n, hn⟩ := h.resolve_eq fresh hplace create cs
  rw [hn] at hl
  rw [walk_noLinks (h.no_links hstays) hl]
  exact under_collapse hstays (List.prefix_refl cs)

theorem Filling.clear_out (fresh : Fresh fs₀ out) (h : Filling fs₀ out fs)
    (hplace : place fs₀ p = some out) : Clear fs out := by
  intro q c hq
  obtain ⟨hc, hgrants⟩ := walk_clear clear_nil (resolve_of_place fresh hplace) q c hq
  refine ⟨hc, ?_⟩
  by_cases hq₀ : q = []
  · subst hq₀
    exact hgrants
  · obtain ⟨m, hm, -⟩ := get_of_dirGrants hq₀ hgrants
    rw [dirGrants_congr _ (h.same fresh (by rw [hm]; exact Option.some_ne_none _))]
    exact hgrants

theorem Filling.grants (h : Filling fs₀ out fs) {l : Loc} (hout : out <+: l) (hl : l ≠ [])
    (hdir : ∃ m, fs.get l = some (.dir m)) (a : Access) : dirGrants fs l a = true := by
  obtain ⟨m, hm⟩ := hdir
  unfold dirGrants
  rw [node_of_ne_nil hl, hm]
  exact h.dirs l m hout hm a

/-- The way to a name is clear when its directories are there. -/
theorem Filling.clear (fresh : Fresh fs₀ out) (h : Filling fs₀ out fs)
    (hplace : place fs₀ p = some out) (hnames : ∀ c ∈ cs, Proper c)
    (hdirs : ∀ pre c, pre ++ [c] <+: cs → ∃ m, fs.get (out ++ pre) = some (.dir m)) :
    Clear fs (out ++ cs) := by
  induction cs using List.reverseRecOn with
  | nil =>
    rw [List.append_nil]
    exact h.clear_out fresh hplace
  | append_singleton cs c ih =>
    rw [← List.append_assoc]
    refine (ih (fun d hd => hnames d (List.mem_append_left _ hd)) fun pre d hpre =>
      hdirs pre d (hpre.trans (List.prefix_append cs [c]))).concat (hnames c (by simp)) ?_
    refine h.grants (List.prefix_append out cs) ?_ (hdirs cs c (List.prefix_refl _)) .search
    exact List.append_ne_nil_of_left_ne_nil (ne_nil_of_place_some hplace) cs

/-- A node below is reached along its names. -/
theorem Filling.resolve_names (fresh : Fresh fs₀ out) (h : Filling fs₀ out fs)
    (hplace : place fs₀ p = some out) (hnames : ∀ c ∈ cs, Proper c) {create : Bool}
    (hn : fs.get (out ++ cs) ≠ none) : resolve fs create (p ++ cs) = some (out ++ cs) := by
  obtain ⟨k, hk⟩ := h.resolve_eq fresh hplace create cs
  rw [hk]
  refine walk_names (h.clear fresh hplace hnames fun pre c hpre => ?_) (fun t hget =>
    h.noLinks _ t (List.prefix_append _ _) hget) (.inl hn)
  refine h.rooted.dir_above (List.prefix_append out pre) ?_ ?_ hn
  · rw [List.prefix_append_right_inj]
    exact (List.prefix_append pre [c]).trans hpre
  · intro heq
    rw [List.append_cancel_left_eq] at heq
    rw [← heq] at hpre
    exact not_prefix_parent pre c hpre

/-- What was there at the beginning resolves as it did. -/
theorem Filling.resolve_before (fresh : Fresh fs₀ out) (h : Filling fs₀ out fs) {q : Path} {l : Loc}
    (hq : resolve fs₀ false q = some l) : resolve fs false q = some l := by
  obtain ⟨n, hn⟩ := walk_append_same (fun _ hl => h.same fresh hl) false [] hq
  rw [List.append_nil] at hn
  show walk fs false maxLinks [] q = _
  rw [hn]
  cases n <;> rfl

theorem Filling.place_top (fresh : Fresh fs₀ out) (h : Filling fs₀ out fs)
    (hplace : place fs₀ p = some out) : place fs p = some out := by
  obtain ⟨q, c, rfl⟩ := ne_nil_of_place hplace
  obtain ⟨hc, parent, hq, hgrants, rfl⟩ := place_concat_iff.mp hplace
  refine place_concat_iff.mpr ⟨hc, parent, h.resolve_before fresh hq, ?_, rfl⟩
  rw [dirGrants_congr _ (h.outside parent (not_prefix_parent parent c))]
  exact hgrants

/-! ## Making nodes -/

/-- A node that is created comes to stand where the path says. -/
theorem Filling.createEffect_some (fresh : Fresh fs₀ out) (h : Filling fs₀ out fs)
    (hplace : place fs₀ p = some out) (hstays : Stays [] cs) {n : Node} {e : Effect}
    (he : createEffect fs (p ++ cs) n = some e) :
    ∃ l c, out <+: l ∧ collapse [] cs ≠ [] ∧ l ++ [c] = out ++ collapse [] cs ∧
      e = (l ++ [c], some n) ∧
      fs.get (l ++ [c]) = none ∧ ∃ m, fs.get l = some (.dir m) := by
  obtain ⟨l, hl, he⟩ := Option.bind_eq_some_iff.mp he
  split at he
  next hfree =>
    cases he
    cases cs using List.reverseRecOn with
    | nil =>
      rw [List.append_nil, h.place_top fresh hplace] at hl
      cases hl
      obtain ⟨m, hm, -⟩ := fresh.dir
      rw [h.top, hm] at hfree
      cases hfree.1
    | append_singleton cs c =>
      rw [← List.append_assoc] at hl
      obtain ⟨hc, parent, hparent, hgrants, rfl⟩ := place_concat_iff.mp hl
      have hparent' := h.resolve_some fresh hplace hstays.upto hparent
      subst hparent'
      have hcollapse : collapse [] (cs ++ [c]) = collapse [] cs ++ [c] := by
        rw [collapse_append, collapse_proper _ hc]
      refine ⟨_, c, List.prefix_append _ _, by simp [hcollapse], by simp [hcollapse], rfl,
        hfree.1, ?_⟩
      obtain ⟨m, hm, -⟩ := get_of_dirGrants
        (List.append_ne_nil_of_left_ne_nil (ne_nil_of_place_some hplace) _) hgrants
      exact ⟨m, hm⟩
  next => cases he

/-- From one disk to the other, nodes were made and files written below the directory. -/
structure Advances (fs₀ : FileSystem) (out : Loc) (d d' : Disk) : Prop where
  filling : Filling fs₀ out d'.fs
  within : Within out d d'
  same : SameKind d.fs d'.fs

theorem Advances.refl {d : Disk} (h : Filling fs₀ out d.fs) : Advances fs₀ out d d :=
  ⟨h, .refl out d, .refl d.fs⟩

theorem Advances.trans {d₁ d₂ d₃ : Disk} (h : Advances fs₀ out d₁ d₂)
    (h' : Advances fs₀ out d₂ d₃) :
    Advances fs₀ out d₁ d₃ :=
  ⟨h'.filling, h.within.trans h'.within, h.same.trans h'.same⟩

/-- Making a directory goes on filling the fresh one. -/
theorem Filling.mkdir (fresh : Fresh fs₀ out) {d : Disk} (h : Filling fs₀ out d.fs)
    (hplace : place fs₀ p = some out) (hstays : Stays [] cs) {e : Effect}
    (he : mkdirEffect d.fs (p ++ cs) = some e) :
    Advances fs₀ out d (d.apply e) ∧
      (d.apply e).fs.get (out ++ collapse [] cs) = some (.dir newDirMode) := by
  obtain ⟨l, c, hout, -, heq, rfl, hnone, hdir⟩ := h.createEffect_some fresh hplace hstays he
  obtain ⟨hfilling, hsame⟩ := h.create hout hdir hnone (.inl rfl)
  refine ⟨⟨hfilling, within_apply d (hout.trans (List.prefix_append l [c])), hsame⟩, ?_⟩
  rw [← heq]
  show (d.fs.set (l ++ [c]) (some (.dir newDirMode))).get (l ++ [c]) = _
  rw [LinkedMap.get_set, if_pos rfl]

/-- What is there is sealed. -/
theorem sealed_of_ne_none (h : Filling fs₀ out fs) {l : Loc} (hout : out <+: l)
    (hget : fs.get l ≠ none) :
    Sealed out fs l := by
  obtain ⟨n, hn⟩ := Option.ne_none_iff_exists'.mp hget
  cases n with
  | dir m => exact .inl ⟨m, hn⟩
  | file content m => exact .inr ⟨l, content, m, hout, List.prefix_refl l, hn⟩
  | link t => exact absurd hn (h.noLinks l t hout)

theorem stays_of_proper {cs : List Name} (h : ∀ c ∈ cs, Proper c) : Stays [] cs := by
  intro pre post heq
  exact absurd rfl (h dotdot (by simp [heq])).2.2

/-- The canonical form of a path that does not climb out. -/
theorem Filling.canonical_eq (fresh : Fresh fs₀ out) (h : Filling fs₀ out fs)
    (hplace : place fs₀ p = some out) (hstays : Stays [] cs) :
    canonical fs (p ++ cs) = out ++ collapse [] cs := by
  have main : ∀ k, canonicalTake fs (p ++ cs) (p.length + k) = out ++ collapse [] cs := by
    intro k
    induction k with
    | zero =>
      obtain ⟨q, c, rfl⟩ := ne_nil_of_place hplace
      have hlength : (q ++ [c]).length + 0 = q.length + 1 := by simp
      have htake : (q ++ [c] ++ cs).take (q.length + 1) = q ++ [c] :=
        List.take_left' (by simp)
      have hdrop : (q ++ [c] ++ cs).drop (q.length + 1) = cs := List.drop_left' (by simp)
      rw [hlength, canonicalTake, htake, h.resolve_before fresh (resolve_of_place fresh hplace),
        hdrop]
      exact under_collapse hstays (List.prefix_refl cs)
    | succ k ih =>
      have htake : (p ++ cs).take (p.length + k + 1) = p ++ cs.take (k + 1) := by
        rw [Nat.add_assoc, List.take_length_add_append]
      have hdrop : (p ++ cs).drop (p.length + k + 1) = cs.drop (k + 1) := by
        rw [Nat.add_assoc, List.drop_length_add_append]
      rw [← Nat.add_assoc, canonicalTake, htake, hdrop]
      cases hresolve : resolve fs false (p ++ cs.take (k + 1)) with
      | none => exact ih
      | some l =>
        have hpre : cs.take (k + 1) <+: cs := List.take_prefix _ _
        rw [h.resolve_some fresh hplace (stays_prefix_mem hstays hpre) hresolve]
        show collapse (out ++ collapse [] (cs.take (k + 1))) (cs.drop (k + 1)) = _
        rw [← under_collapse hstays hpre, ← collapse_append, List.take_append_drop]
        exact under_collapse hstays (List.prefix_refl cs)
  unfold canonical
  rw [List.length_append]
  exact main cs.length

theorem Filling.mkdir_top (fresh : Fresh fs₀ out) (h : Filling fs₀ out fs)
    (hplace : place fs₀ p = some out) : mkdirEffect fs p = none := by
  cases he : mkdirEffect fs p with
  | none => rfl
  | some e =>
    rw [← List.append_nil p] at he
    obtain ⟨-, -, -, hne, -⟩ :=
      h.createEffect_some fresh hplace (stays_of_proper fun c hc => by cases hc) he
    exact absurd rfl hne

/-- The parent of the directory is there. -/
theorem Filling.mkdirs_parent (fresh : Fresh fs₀ out) {n : Nat} {d : Disk}
    (h : Filling fs₀ out d.fs)
    (hplace : place fs₀ p = some out) (hn : 0 < n) :
    exists_ d.fs p.dropLast = true ∧ JavaFile.mkdirsWith n d p.dropLast = (d, false) := by
  have hexists : exists_ d.fs p.dropLast = true := by
    obtain ⟨q, c, rfl⟩ := ne_nil_of_place hplace
    obtain ⟨-, parent, hq, -, -⟩ := place_concat_iff.mp hplace
    rw [List.dropLast_concat]
    exact Option.isSome_iff_exists.mpr ⟨parent, h.resolve_before fresh hq⟩
  refine ⟨hexists, ?_⟩
  cases n with
  | zero => exact absurd hn (Nat.lt_irrefl 0)
  | succ n => rw [JavaFile.mkdirsWith, if_pos hexists]

/-- What lies below a file is sealed with it. -/
theorem Sealed.of_file {l' : Loc} {content : List UInt8} {m : Mode} (c : Name) (hout : out <+: l')
    (hle : l' <+: out ++ cs) (hfile : fs.get l' = some (.file content m)) :
    Sealed out fs (out ++ (cs ++ [c])) := by
  refine .inr ⟨l', content, m, hout, hle.trans ?_, hfile⟩
  rw [← List.append_assoc]
  exact List.prefix_append _ _

/-- A directory that is sealed and cannot be reached lies under a file. -/
theorem Filling.sealed_of_not_exists (fresh : Fresh fs₀ out) (h : Filling fs₀ out fs)
    (hplace : place fs₀ p = some out) (hnames : ∀ c ∈ cs, Proper c) (c : Name)
    (hsealed : Sealed out fs (out ++ cs)) (hnot : exists_ fs (p ++ cs) ≠ true) :
    Sealed out fs (out ++ (cs ++ [c])) := by
  rcases hsealed with ⟨m, hm⟩ | ⟨l', content, m, hout, hle, hfile⟩
  · have hsome : fs.get (out ++ cs) ≠ none := by
      rw [hm]
      exact Option.some_ne_none _
    refine absurd ?_ hnot
    rw [exists_, h.resolve_names fresh hplace hnames hsome]
    rfl
  · exact .of_file c hout hle hfile

/-- What cannot be made in a sealed directory is sealed as well. -/
theorem Filling.sealed_of_mkdir_none (fresh : Fresh fs₀ out) (h : Filling fs₀ out fs)
    (hplace : place fs₀ p = some out) {c : Name} (hnames : ∀ d ∈ cs ++ [c], Proper d)
    (hsealed : Sealed out fs (out ++ cs)) (hnone : mkdirEffect fs (p ++ (cs ++ [c])) = none) :
    Sealed out fs (out ++ (cs ++ [c])) := by
  rcases hsealed with ⟨m, hm⟩ | ⟨l', content, m, hout, hle, hfile⟩
  · have hsome : fs.get (out ++ cs) ≠ none := by
      rw [hm]
      exact Option.some_ne_none _
    have hresolve : resolve fs false (p ++ cs) = some (out ++ cs) :=
      h.resolve_names fresh hplace (fun d hd => hnames d (List.mem_append_left _ hd)) hsome
    have hne := List.append_ne_nil_of_left_ne_nil (ne_nil_of_place_some hplace) cs
    have hgrants := h.grants (List.prefix_append out cs) hne ⟨m, hm⟩
    have hlast : place fs (p ++ (cs ++ [c])) = some (out ++ cs ++ [c]) := by
      rw [← List.append_assoc]
      exact place_concat_iff.mpr ⟨hnames c (by simp), _, hresolve, hgrants .search, rfl⟩
    rw [← List.append_assoc]
    refine sealed_of_ne_none h ((List.prefix_append out cs).trans (List.prefix_append _ _)) ?_
    intro hfree
    rw [mkdirEffect, createEffect, hlast, Option.bind_some, List.dropLast_concat,
      if_pos ⟨hfree, hgrants .write⟩] at hnone
    cases hnone
  · exact .of_file c hout hle hfile

/-- **`mkdirs` seals the directory it makes**, whatever the path to it looks like. -/
theorem Filling.mkdirsWith (fresh : Fresh fs₀ out) {n : Nat} {d : Disk} (h : Filling fs₀ out d.fs)
    (hplace : place fs₀ p = some out) (hstays : Stays [] cs)
    (hn : (collapse [] cs).length + 2 ≤ n) :
    Advances fs₀ out d (mkdirsWith n d (p ++ cs)).1 ∧
      Sealed out (mkdirsWith n d (p ++ cs)).1.fs (out ++ collapse [] cs) := by
  induction n generalizing p cs d with
  | zero => omega
  | succ n ih =>
    have hself := place_self hplace
    rw [JavaFile.mkdirsWith]
    by_cases hexists : exists_ d.fs (p ++ cs) = true
    · rw [if_pos hexists]
      obtain ⟨l, hl⟩ := Option.isSome_iff_exists.mp hexists
      have hthere := walk_there clear_nil (Option.some_ne_none _) hl
      rw [h.resolve_some fresh hplace hstays hl, node_of_ne_nil
        (List.append_ne_nil_of_left_ne_nil (ne_nil_of_place_some hplace) _)] at hthere
      exact ⟨.refl h, sealed_of_ne_none h (List.prefix_append _ _) hthere⟩
    · rw [if_neg hexists]
      cases hmkdir : mkdirEffect d.fs (p ++ cs) with
      | some e =>
        obtain ⟨hadvances, hget⟩ := h.mkdir fresh hplace hstays hmkdir
        exact ⟨hadvances, .inl ⟨_, hget⟩⟩
      | none =>
        dsimp only
        have hne : out ++ collapse [] cs ≠ [] :=
          List.append_ne_nil_of_left_ne_nil (ne_nil_of_place_some hplace) _
        rw [h.canonical_eq fresh hplace hstays, if_neg hne]
        have hproper : ∀ c ∈ collapse [] cs, Proper c :=
          proper_of_mem_collapse fun c hc => by cases hc
        generalize collapse [] cs = rel at hproper hn ⊢
        cases rel using List.reverseRecOn with
        | nil =>
          -- the directory itself: its parent is there, and so is it
          rw [List.append_nil]
          obtain ⟨hparent, hmkdirs⟩ := h.mkdirs_parent fresh hself (n := n) (by
            rw [List.length_nil] at hn
            omega)
          rw [hmkdirs, hparent, Bool.or_true, if_pos rfl, h.mkdir_top fresh hself]
          obtain ⟨m, hm, -⟩ := fresh.dir
          exact ⟨.refl h, .inl ⟨m, by rw [h.top, hm]⟩⟩
        | append_singleton rel c =>
          have hproper' : ∀ d ∈ rel, Proper d := fun d hd => hproper d (List.mem_append_left _ hd)
          have hcollapse : collapse [] rel = rel := collapse_names [] hproper'
          have hall : collapse [] (rel ++ [c]) = rel ++ [c] := collapse_names [] hproper
          have hdrop : (out ++ (rel ++ [c])).dropLast = out ++ rel := by
            rw [← List.append_assoc, List.dropLast_concat]
          obtain ⟨hadvances, hsealed⟩ := ih h hself (stays_of_proper hproper') (by
            rw [List.length_append, List.length_singleton] at hn
            rw [hcollapse]
            omega)
          rw [hdrop]
          rw [hcollapse] at hsealed
          generalize JavaFile.mkdirsWith n d (out ++ rel) = r at hadvances hsealed ⊢
          have hfill := hadvances.filling
          cases hlast : mkdirEffect r.1.fs (out ++ (rel ++ [c])) with
          | some e =>
            obtain ⟨hmade, hget⟩ := hfill.mkdir fresh hself (stays_of_proper hproper) hlast
            rw [hall] at hget
            split
            · exact ⟨hadvances.trans hmade, .inl ⟨_, hget⟩⟩
            next hnot =>
              have hnotExists : exists_ r.1.fs (out ++ rel) ≠ true := fun hyes => hnot (by
                rw [hyes, Bool.or_true])
              exact ⟨hadvances,
                hfill.sealed_of_not_exists fresh hself hproper' c hsealed hnotExists⟩
          | none =>
            have hgoal := hfill.sealed_of_mkdir_none fresh hself hproper hsealed hlast
            split
            · exact ⟨hadvances, hgoal⟩
            · exact ⟨hadvances, hgoal⟩

/-- `mkdirs` itself. -/
theorem Filling.mkdirs (fresh : Fresh fs₀ out) {d : Disk} (h : Filling fs₀ out d.fs)
    (hplace : place fs₀ p = some out) (hstays : Stays [] cs) :
    Advances fs₀ out d (mkdirs d (p ++ cs)).1 ∧
      Sealed out (mkdirs d (p ++ cs)).1.fs (out ++ collapse [] cs) := by
  refine h.mkdirsWith fresh hplace hstays ?_
  rw [h.canonical_eq fresh hplace hstays, List.length_append]
  omega

/-- The parent of a path is made and sealed. -/
theorem Filling.mkdirs_dropLast (fresh : Fresh fs₀ out) {d : Disk} (h : Filling fs₀ out d.fs)
    (hplace : place fs₀ p = some out) (hstays : Stays [] cs) :
    Advances fs₀ out d (JavaFile.mkdirs d (p ++ cs).dropLast).1 ∧
      Sealed out (JavaFile.mkdirs d (p ++ cs).dropLast).1.fs (out ++ collapse [] cs.dropLast) := by
  cases cs using List.reverseRecOn with
  | nil =>
    obtain ⟨m, hm, -⟩ := fresh.dir
    have hnop : (JavaFile.mkdirs d p.dropLast).1 = d := by
      rw [JavaFile.mkdirs, (h.mkdirs_parent fresh hplace (Nat.succ_pos _)).2]
    rw [List.append_nil, hnop]
    refine ⟨.refl h, .inl ⟨m, ?_⟩⟩
    exact (congrArg d.fs.get (List.append_nil out)).trans (h.top.trans hm)
  | append_singleton cs c =>
    rw [← List.append_assoc, List.dropLast_concat, List.dropLast_concat]
    exact h.mkdirs fresh hplace hstays.upto

/-! ## Writing files -/

/-- A file that is written stands where the path says. -/
theorem Filling.write (fresh : Fresh fs₀ out) {d : Disk} (h : Filling fs₀ out d.fs)
    (hplace : place fs₀ p = some out) (hstays : Stays [] cs) {content : List UInt8} {e : Effect}
    (he : writeEffect d.fs (p ++ cs) content = some e) :
    Advances fs₀ out d (d.apply e) ∧
      ∃ m, (d.apply e).fs.get (out ++ collapse [] cs) = some (.file content m) := by
  obtain ⟨l, hl, he⟩ := Option.bind_eq_some_iff.mp he
  have heq := h.resolve_some fresh hplace hstays hl
  have hout : out <+: l := heq ▸ List.prefix_append _ _
  rw [← heq]
  split at he
  next hnone =>
    split at he
    next hgrants =>
      cases he
      -- something is at the directory, so the file is below it
      have hne : l ≠ out := by
        rintro rfl
        obtain ⟨m, hm, -⟩ := fresh.dir
        rw [h.top, hm] at hnone
        cases hnone
      obtain ⟨parent, c, rfl, hparent⟩ := concat_of_prefix_ne hout hne
      rw [List.dropLast_concat] at hgrants
      have hnonempty : parent ≠ [] := by
        rintro rfl
        exact ne_nil_of_place_some hplace (List.prefix_nil.mp hparent)
      obtain ⟨m, hm, -⟩ := get_of_dirGrants hnonempty hgrants
      obtain ⟨hfilling, hsame⟩ := h.create hparent ⟨m, hm⟩ hnone (.inr ⟨content, newFileMode, rfl⟩)
      refine ⟨⟨hfilling, within_apply d hout, hsame⟩, newFileMode, ?_⟩
      exact (LinkedMap.get_set _ _ _ _).trans (if_pos rfl)
    next => cases he
  next content' m hfile =>
    split at he
    next =>
      cases he
      obtain ⟨hfilling, hsame⟩ := h.replace fresh hout hfile content m
      refine ⟨⟨hfilling, within_apply d hout, hsame⟩, m, ?_⟩
      exact (LinkedMap.get_set _ _ _ _).trans (if_pos rfl)
    next => cases he
  next => cases he

/-- So does changing the mode of a file. -/
theorem Filling.chmod_file (fresh : Fresh fs₀ out) {d : Disk} (h : Filling fs₀ out d.fs)
    (hplace : place fs₀ p = some out) (hstays : Stays [] cs) {content : List UInt8} {m : Mode}
    (hfile : d.fs.get (out ++ collapse [] cs) = some (.file content m)) (m' : Mode) :
    Advances fs₀ out d (d.perform (chmodEffect d.fs (p ++ cs) m')) := by
  cases he : chmodEffect d.fs (p ++ cs) m' with
  | none => exact .refl h
  | some e =>
    obtain ⟨l, hl, he⟩ := Option.bind_eq_some_iff.mp he
    rw [h.resolve_some fresh hplace hstays hl, hfile] at he
    cases he
    obtain ⟨hfilling, hsame⟩ := h.replace fresh (List.prefix_append _ _) hfile content m'
    exact ⟨hfilling, within_apply d (List.prefix_append _ _), hsame⟩

end Fresh

/-! ## Checks that run -/

/-- The location is an empty directory that grants everything. -/
def isFresh (fs : FileSystem) (l : Loc) : Bool :=
  (match fs.get l with
    | some (.dir m) => grants m .read && grants m .write && grants m .search
    | _ => false)
    && fs.entries.all fun e => e.1 = l || !l.isPrefixOf e.1

/-- The check for a fresh directory is sound. -/
theorem fresh_of_isFresh {fs : FileSystem} {l : Loc} (h : isFresh fs l = true) : Fresh fs l := by
  rw [isFresh, Bool.and_eq_true, List.all_eq_true] at h
  obtain ⟨hdir, hempty⟩ := h
  constructor
  · split at hdir
    next m hget =>
      simp only [Bool.and_eq_true] at hdir
      refine ⟨m, hget, fun a => ?_⟩
      cases a
      exacts [hdir.1.1, hdir.1.2, hdir.2]
    next => cases hdir
  · intro l' hle hne
    by_contra hget
    obtain ⟨n, hn⟩ := Option.ne_none_iff_exists'.mp hget
    have hcheck := hempty _ (fs.mem_of_get hn)
    simp only [Bool.or_eq_true, decide_eq_true_eq, Bool.not_eq_true', hne, false_or] at hcheck
    rw [List.isPrefixOf_iff_prefix.mpr hle] at hcheck
    cases hcheck

end WinEmulator.Lib.Fs
