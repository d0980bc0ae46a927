import Mathlib.Data.List.Induction
import WinEmulator.Lib.FileSystem

/-!
# Trees in a file system

What `removeTree` removes: nothing outside the tree it is given, whatever happens on the way; and
everything in it exactly when every directory of the tree can be read and, if it is not empty,
written and searched.
-/

set_option autoImplicit false

namespace WinEmulator.Lib.Fs

/-! ## Directories -/

/-- The children of a place are the names below it. -/
theorem mem_children {fs : FileSystem} {l : Loc} {c : Name} :
    c ∈ children fs l ↔ fs.get (l ++ [c]) ≠ none := by
  unfold children
  rw [List.mem_filterMap]
  constructor
  · rintro ⟨l', hmem, hlast⟩
    split at hlast
    next hdrop =>
      obtain ⟨e, he, rfl⟩ := List.mem_map.mp hmem
      have heq : l ++ [c] = e.1 := by
        rw [← hdrop]
        exact List.dropLast_append_getLast? c hlast
      rw [heq, fs.get_of_mem he]
      exact Option.some_ne_none _
    next => cases hlast
  · intro hget
    obtain ⟨n, hn⟩ := Option.ne_none_iff_exists'.mp hget
    refine ⟨l ++ [c], List.mem_map.mpr ⟨_, fs.mem_of_get hn, rfl⟩, ?_⟩
    simp

theorem nodup_children (fs : FileSystem) (l : Loc) : (children fs l).Nodup := by
  refine fs.nodup.filterMap ?_
  intro l₁ l₂ c h₁ h₂
  simp only [Option.mem_def, Option.ite_none_right_eq_some] at h₁ h₂
  rw [← List.dropLast_append_getLast? c h₁.2, ← List.dropLast_append_getLast? c h₂.2, h₁.1, h₂.1]

/-- A place without children has nothing directly below it. -/
theorem children_eq_nil_iff {fs : FileSystem} {l : Loc} :
    children fs l = [] ↔ ∀ c, fs.get (l ++ [c]) = none := by
  rw [List.eq_nil_iff_forall_not_mem]
  refine forall_congr' fun c => ?_
  rw [mem_children, not_not]

/-- No path is longer than the tree is high. -/
theorem length_le_height {fs : FileSystem} {l : Loc} (h : fs.get l ≠ none) :
    l.length ≤ height fs := by
  obtain ⟨n, hn⟩ := Option.ne_none_iff_exists'.mp h
  have hmem : l.length ∈ fs.entries.map fun e => e.1.length :=
    List.mem_map.mpr ⟨_, fs.mem_of_get hn, rfl⟩
  unfold height
  generalize fs.entries.map (fun e => e.1.length) = lengths at hmem
  induction lengths with
  | nil => cases hmem
  | cons k ks ih =>
    rcases List.mem_cons.mp hmem with rfl | hk
    · exact Nat.le_max_left _ _
    · exact Nat.le_trans (ih hk) (Nat.le_max_right _ _)

theorem node_of_ne_nil {fs : FileSystem} {l : Loc} (h : l ≠ []) : node fs l = fs.get l := if_neg h

/-- A node below a location needs a directory there. -/
theorem Closed.dir_above {fs : FileSystem} (closed : Closed fs) {l l' : Loc} (hle : l <+: l')
    (hne : l ≠ l') (h : fs.get l' ≠ none) : ∃ m, node fs l = some (.dir m) := by
  obtain ⟨rest, rfl⟩ := hle
  induction rest using List.reverseRecOn with
  | nil => exact absurd (List.append_nil l).symm hne
  | append_singleton rest c ih =>
    rw [← List.append_assoc] at h
    obtain ⟨m, hm⟩ := closed.parents _ c h
    by_cases hrest : rest = []
    · subst hrest
      rw [List.append_nil] at hm
      exact ⟨m, hm⟩
    · have hnonempty : l ++ rest ≠ [] := by simp [hrest]
      rw [node_of_ne_nil hnonempty] at hm
      refine ih ?_ (by rw [hm]; exact Option.some_ne_none _)
      simpa using hrest

/-- Nothing stands below what is not a directory. -/
theorem Closed.below {fs : FileSystem} (closed : Closed fs) {l l' : Loc} (hle : l <+: l')
    (hne : l ≠ l') (h : ∀ m, node fs l ≠ some (.dir m)) : fs.get l' = none := by
  by_contra hget
  obtain ⟨m, hm⟩ := closed.dir_above hle hne hget
  exact h m hm

/-! ## What stays in a tree -/

/-- From one disk to the other everything that happened was at the location or below it. -/
structure Within (l : Loc) (d d' : Disk) : Prop where
  log : ∃ es, d'.log = d.log ++ es ∧ ∀ e ∈ es, l <+: e.1
  outside : ∀ l', ¬ l <+: l' → d'.fs.get l' = d.fs.get l'

theorem Within.refl (l : Loc) (d : Disk) : Within l d d :=
  ⟨⟨[], (List.append_nil _).symm, fun _ he => by cases he⟩, fun _ _ => rfl⟩

theorem Within.trans {l : Loc} {d₁ d₂ d₃ : Disk} (h : Within l d₁ d₂) (h' : Within l d₂ d₃) :
    Within l d₁ d₃ := by
  obtain ⟨es, hes, hall⟩ := h.log
  obtain ⟨es', hes', hall'⟩ := h'.log
  refine ⟨⟨es ++ es', ?_, List.forall_mem_append.mpr ⟨hall, hall'⟩⟩, ?_⟩
  · rw [hes', hes, List.append_assoc]
  · intro l' hl'
    rw [h'.outside l' hl', h.outside l' hl']

theorem Within.mono {l l' : Loc} {d d' : Disk} (h : Within l d d') (hle : l' <+: l) :
    Within l' d d' := by
  obtain ⟨es, hes, hall⟩ := h.log
  refine ⟨⟨es, hes, fun e he => hle.trans (hall e he)⟩, ?_⟩
  intro l₁ hl₁
  exact h.outside l₁ fun hl => hl₁ (hle.trans hl)

/-- An effect stays within the tree that its place is in. -/
theorem within_apply {l : Loc} (d : Disk) {e : Effect} (h : l <+: e.1) :
    Within l d (d.apply e) := by
  refine ⟨⟨[e], rfl, fun _ he => List.mem_singleton.mp he ▸ h⟩, ?_⟩
  intro l' hl'
  have hne : l' ≠ e.1 := by
    rintro rfl
    exact hl' h
  show (d.fs.set e.1 e.2).get l' = _
  rw [LinkedMap.get_set, if_neg hne]

theorem removeAll_within {remove : Disk → Loc → Disk × Bool} {l : Loc}
    (h : ∀ d l, Within l d (remove d l).1) (d : Disk) (cs : List Name) :
    Within l d (removeAll remove l d cs).1 := by
  induction cs generalizing d with
  | nil => exact .refl l d
  | cons c cs ih => exact ((h d (l ++ [c])).mono (List.prefix_append l [c])).trans (ih _)

/-- Whatever fails on the way, a removal stays in its tree. -/
theorem removeTree_within (force : Bool) (n : Nat) (d : Disk) (l : Loc) :
    Within l d (removeTree force n d l).1 := by
  induction n generalizing d l with
  | zero => exact .refl l d
  | succ n ih =>
    have hall := removeAll_within (l := l) ih d (children d.fs l)
    unfold removeTree
    dsimp only
    split
    · exact .refl l d
    · split
      · split
        · exact hall.trans (within_apply _ (List.prefix_refl l))
        · exact hall
      · exact .refl l d
    · split
      · exact within_apply d (List.prefix_refl l)
      · exact .refl l d

/-- Nothing but removals. -/
def Shrinks (fs fs' : FileSystem) : Prop := ∀ l, fs'.get l = fs.get l ∨ fs'.get l = none

theorem Shrinks.refl (fs : FileSystem) : Shrinks fs fs := fun _ => .inl rfl

theorem Shrinks.trans {fs fs' fs'' : FileSystem} (h : Shrinks fs fs') (h' : Shrinks fs' fs'') :
    Shrinks fs fs'' := by
  intro l
  rcases h' l with heq | hnone
  · rw [heq]
    exact h l
  · exact .inr hnone

theorem get_apply_none (d : Disk) (l l' : Loc) :
    (d.apply (l, none)).fs.get l' = if l' = l then none else d.fs.get l' :=
  d.fs.get_set l l' none

theorem shrinks_apply (d : Disk) (l : Loc) : Shrinks d.fs (d.apply (l, none)).fs := by
  intro l'
  rw [get_apply_none]
  split
  · exact .inr rfl
  · exact .inl rfl

theorem removeAll_shrinks {remove : Disk → Loc → Disk × Bool}
    (h : ∀ d l, Shrinks d.fs (remove d l).1.fs) (l : Loc) (d : Disk) (cs : List Name) :
    Shrinks d.fs (removeAll remove l d cs).1.fs := by
  induction cs generalizing d with
  | nil => exact .refl d.fs
  | cons c cs ih => exact (h d (l ++ [c])).trans (ih _)

/-- Removing a tree makes nothing. -/
theorem removeTree_shrinks (force : Bool) (n : Nat) (d : Disk) (l : Loc) :
    Shrinks d.fs (removeTree force n d l).1.fs := by
  induction n generalizing d l with
  | zero => exact .refl d.fs
  | succ n ih =>
    have hall := removeAll_shrinks ih l d (children d.fs l)
    unfold removeTree
    dsimp only
    split
    · exact .refl d.fs
    · split
      · split
        · exact hall.trans (shrinks_apply _ l)
        · exact hall
      · exact .refl d.fs
    · split
      · exact shrinks_apply d l
      · exact .refl d.fs

/-! ## What a removal removes -/

/-- Every directory of the tree can be listed, and emptied if there is something in it. -/
def Removable (fs : FileSystem) (l : Loc) : Prop :=
  ∀ l' m, l <+: l' → fs.get l' = some (.dir m) →
    grants m .read = true ∧
      (children fs l' = [] ∨ grants m .write = true ∧ grants m .search = true)

/-- The tree is gone and nothing else. -/
def Removed (l : Loc) (fs fs' : FileSystem) : Prop :=
  ∀ l', fs'.get l' = if l <+: l' then none else fs.get l'

theorem removed_of_within {l : Loc} {d d' : Disk} {fs' : FileSystem} (h : Within l d d')
    (hremoved : Removed l d'.fs fs') :
    Removed l d.fs fs' := by
  intro l'
  rw [hremoved l']
  by_cases hle : l <+: l'
  · rw [if_pos hle, if_pos hle]
  · rw [if_neg hle, if_neg hle, h.outside l' hle]

/-- The directory lets its entries be removed. -/
def Writable (fs : FileSystem) (l : Loc) : Prop :=
  dirGrants fs l .write = true ∧ dirGrants fs l .search = true

theorem removable_congr {fs fs' : FileSystem} {l : Loc}
    (h : ∀ l', l <+: l' → fs'.get l' = fs.get l') :
    Removable fs' l ↔ Removable fs l := by
  have hchildren : ∀ l', l <+: l' → (children fs' l' = [] ↔ children fs l' = []) := by
    intro l' hl'
    rw [children_eq_nil_iff, children_eq_nil_iff]
    refine forall_congr' fun c => ?_
    rw [h _ (hl'.trans (List.prefix_append l' [c]))]
  unfold Removable
  refine forall_congr' fun l' => forall_congr' fun m => forall_congr' fun hl' => ?_
  rw [h l' hl', hchildren l' hl']

/-- A closed file system without one of its trees is closed. -/
theorem closed_of_removed {fs fs' : FileSystem} {l : Loc} (closed : Closed fs)
    (h : Removed l fs fs') :
    Closed fs' := by
  have hkept : ∀ l', fs'.get l' ≠ none → ¬ l <+: l' ∧ fs.get l' ≠ none := by
    intro l' hget
    rw [h l'] at hget
    by_cases hl : l <+: l'
    · rw [if_pos hl] at hget
      exact absurd rfl hget
    · rw [if_neg hl] at hget
      exact ⟨hl, hget⟩
  refine ⟨?_, ?_, ?_⟩
  · by_contra hroot
    exact (hkept [] hroot).2 closed.root
  · intro l' c hget
    exact closed.names l' c (hkept _ hget).2
  · intro l' c hget
    obtain ⟨hout, hold⟩ := hkept _ hget
    obtain ⟨m, hm⟩ := closed.parents l' c hold
    refine ⟨m, ?_⟩
    rw [← hm]
    have hsame : fs'.get l' = fs.get l' := by
      rw [h l', if_neg fun hl => hout (List.IsPrefix.trans hl (List.prefix_append l' [c]))]
    unfold node
    rw [hsame]

/-- Two children of a directory are not one below the other. -/
theorem not_prefix_sibling {l l' : Loc} {c c' : Name} (hne : c ≠ c') (h : l ++ [c'] <+: l') :
    ¬ l ++ [c] <+: l' := by
  intro h'
  obtain ⟨rest, rfl⟩ := h
  obtain ⟨rest', heq⟩ := h'
  simp only [List.append_assoc, List.append_cancel_left_eq, List.singleton_append, List.cons.injEq]
    at heq
  exact hne heq.1

theorem not_prefix_parent (l : Loc) (c : Name) : ¬ l ++ [c] <+: l := by
  intro h
  have hlength := h.length_le
  rw [List.length_append, List.length_singleton] at hlength
  omega

/-- What holds of a removal at depth `n`, for a directory all of whose entries are removed so. -/
structure RemovesTrees (remove : Disk → Loc → Disk × Bool) (n : Nat) : Prop where
  iff : ∀ d l, Closed d.fs → (∀ l', l <+: l' → d.fs.get l' ≠ none → l'.length < l.length + n) →
    ((remove d l).2 = true ↔
      d.fs.get l ≠ none ∧ Writable d.fs l.dropLast ∧ Removable d.fs l)
  removed : ∀ d l, Closed d.fs → (∀ l', l <+: l' → d.fs.get l' ≠ none → l'.length < l.length + n) →
    (remove d l).2 = true → Removed l d.fs (remove d l).1.fs

/-- Removing the children one by one empties the directory, if each can be removed. -/
theorem removeAll_spec {remove : Disk → Loc → Disk × Bool} {n : Nat} (h : RemovesTrees remove n)
    {l : Loc} (hl : l ≠ []) {cs : List Name} (hnodup : cs.Nodup) (d : Disk) (closed : Closed d.fs)
    (hdepth : ∀ l', l <+: l' → d.fs.get l' ≠ none → l'.length < l.length + (n + 1))
    (hthere : ∀ c ∈ cs, d.fs.get (l ++ [c]) ≠ none) :
    ((removeAll remove l d cs).2 = true ↔
        ∀ c ∈ cs, Writable d.fs l ∧ Removable d.fs (l ++ [c])) ∧
      ((removeAll remove l d cs).2 = true →
        ∀ l', (removeAll remove l d cs).1.fs.get l'
          = if ∃ c ∈ cs, l ++ [c] <+: l' then none else d.fs.get l') := by
  induction cs generalizing d with
  | nil => simp [removeAll]
  | cons c cs ih =>
    have hdepth' : ∀ c' l', l ++ [c'] <+: l' → d.fs.get l' ≠ none →
        l'.length < (l ++ [c']).length + n := by
      intro c' l' hle hget
      have := hdepth l' ((List.prefix_append l [c']).trans hle) hget
      simp only [List.length_append, List.length_singleton]
      omega
    have hiff := h.iff d (l ++ [c]) closed (hdepth' c)
    rw [List.dropLast_concat] at hiff
    have hsnd : (removeAll remove l d (c :: cs)).2
        = ((remove d (l ++ [c])).2 && (removeAll remove l (remove d (l ++ [c])).1 cs).2) := rfl
    have hfst :
        (removeAll remove l d (c :: cs)).1 = (removeAll remove l (remove d (l ++ [c])).1 cs).1 :=
      rfl
    obtain ⟨hnew, hrest⟩ := List.nodup_cons.mp hnodup
    by_cases hr : (remove d (l ++ [c])).2 = true
    · have hremoved := h.removed d (l ++ [c]) closed (hdepth' c) hr
      rw [hsnd, hfst, hr, Bool.true_and]
      obtain ⟨-, hwritable, hremovable⟩ := hiff.mp hr
      generalize (remove d (l ++ [c])).1 = d' at hremoved ⊢
      -- the other children and the directory itself are as before
      have hsame : ∀ l', ¬ l ++ [c] <+: l' → d'.fs.get l' = d.fs.get l' := by
        intro l' hout
        rw [hremoved l', if_neg hout]
      have hsibling : ∀ c' ∈ cs, ∀ l', l ++ [c'] <+: l' → d'.fs.get l' = d.fs.get l' := by
        intro c' hc' l' hl'
        exact hsame l' (not_prefix_sibling (fun heq => hnew (heq ▸ hc')) hl')
      have hwritable' : Writable d'.fs l ↔ Writable d.fs l := by
        unfold Writable dirGrants
        rw [node_of_ne_nil hl, node_of_ne_nil hl, hsame l (not_prefix_parent l c)]
      obtain ⟨hiff', hget'⟩ := ih hrest d' (closed_of_removed closed hremoved)
        (by
          intro l' hle hget
          refine hdepth l' hle fun hnone => hget ?_
          rw [hremoved l', hnone, ite_self])
        (by
          intro c' hc'
          rw [hsibling c' hc' _ (List.prefix_refl _)]
          exact hthere c' (List.mem_cons_of_mem _ hc'))
      constructor
      · rw [hiff', List.forall_mem_cons]
        constructor
        · intro hall
          refine ⟨⟨hwritable, hremovable⟩, fun c' hc' => ?_⟩
          exact ⟨hwritable, (removable_congr (hsibling c' hc')).mp (hall c' hc').2⟩
        · rintro ⟨-, hall⟩ c' hc'
          exact ⟨hwritable'.mpr hwritable, (removable_congr (hsibling c' hc')).mpr (hall c' hc').2⟩
      · intro hdone l'
        rw [hget' hdone l', hremoved l']
        by_cases hc : l ++ [c] <+: l'
        · rw [if_pos hc, ite_self, if_pos ⟨c, List.mem_cons_self, hc⟩]
        · rw [if_neg hc]
          have hexists : (∃ c' ∈ c :: cs, l ++ [c'] <+: l') ↔ ∃ c' ∈ cs, l ++ [c'] <+: l' := by
            simp only [List.mem_cons, exists_eq_or_imp, hc, false_or]
          simp only [hexists]
    · have hsnd' : (removeAll remove l d (c :: cs)).2 = false := by
        rw [hsnd, Bool.eq_false_iff.mpr hr, Bool.false_and]
      rw [hsnd']
      refine ⟨⟨fun h' => (by cases h'), fun hall => ?_⟩, fun h' => (by cases h')⟩
      exact absurd (hiff.mpr ⟨hthere c List.mem_cons_self, hall c List.mem_cons_self⟩) hr

/-- A file or a link is its own tree. -/
theorem removed_leaf {d : Disk} {l : Loc} (closed : Closed d.fs) (hl : l ≠ [])
    (hleaf : ∀ m, d.fs.get l ≠ some (.dir m)) : Removed l d.fs (d.apply (l, none)).fs := by
  intro l'
  rw [get_apply_none]
  by_cases heq : l' = l
  · subst heq
    rw [if_pos rfl, if_pos (List.prefix_refl l')]
  · rw [if_neg heq]
    split
    next hle => exact closed.below hle (Ne.symm heq) fun m hm => hleaf m (node_of_ne_nil hl ▸ hm)
    next => rfl

/-- When a directory and what is below it can be removed. -/
theorem removable_dir_iff {fs : FileSystem} (closed : Closed fs) {l : Loc} {m : Mode}
    (hdir : fs.get l = some (.dir m)) :
    Removable fs l ↔ grants m .read = true ∧
      ∀ c ∈ children fs l, (grants m .write = true ∧ grants m .search = true) ∧
        Removable fs (l ++ [c]) := by
  constructor
  · intro h
    obtain ⟨hread, hempty⟩ := h l m (List.prefix_refl l) hdir
    refine ⟨hread, fun c hc => ⟨?_, ?_⟩⟩
    · rcases hempty with hnil | hgrants
      · rw [hnil] at hc
        cases hc
      · exact hgrants
    · intro l' m' hle
      exact h l' m' ((List.prefix_append l [c]).trans hle)
  · rintro ⟨hread, hchildren⟩ l' m' hle hget
    by_cases heq : l = l'
    · subst heq
      rw [hdir] at hget
      cases hget
      refine ⟨hread, ?_⟩
      cases hcs : children fs l with
      | nil => exact .inl rfl
      | cons c cs => exact .inr (hchildren c (hcs ▸ List.mem_cons_self)).1
    · obtain ⟨rest, rfl⟩ := hle
      cases rest with
      | nil => exact absurd (List.append_nil l).symm heq
      | cons c rest =>
        have hbelow : l ++ [c] <+: l ++ c :: rest := ⟨rest, by simp⟩
        have hthere : fs.get (l ++ [c]) ≠ none := by
          by_cases hrest : rest = []
          · subst hrest
            rw [hget]
            exact Option.some_ne_none _
          · have hnonempty : l ++ [c] ≠ [] := by simp
            obtain ⟨m₁, hm₁⟩ := closed.dir_above hbelow (by simpa using Ne.symm hrest)
              (by rw [hget]; exact Option.some_ne_none _)
            rw [← node_of_ne_nil hnonempty, hm₁]
            exact Option.some_ne_none _
        exact (hchildren c (mem_children.mpr hthere)).2 _ m' hbelow hget

/-- What is no directory can be removed. -/
theorem removable_leaf {fs : FileSystem} (closed : Closed fs) {l : Loc} (hl : l ≠ [])
    (hleaf : ∀ m, fs.get l ≠ some (.dir m)) : Removable fs l := by
  intro l' m hle hget
  by_cases heq : l = l'
  · subst heq
    exact absurd hget (hleaf m)
  · rw [closed.below hle heq fun m hm => hleaf m (node_of_ne_nil hl ▸ hm)] at hget
    cases hget

/-- A file or a link goes if its directory lets it. -/
theorem removeTree_leaf {d : Disk} {l : Loc} {leaf : Node} (n : Nat) (hget : d.fs.get l = some leaf)
    (hleaf : ∀ m, leaf ≠ .dir m) :
    removeTree false (n + 1) d l =
      if (dirGrants d.fs l.dropLast .write && dirGrants d.fs l.dropLast .search) = true then
        (d.apply (l, none), true)
      else (d, false) := by
  unfold removeTree
  rw [hget]
  cases leaf with
  | dir m => exact absurd rfl (hleaf m)
  | file content m => rfl
  | link target => rfl

theorem removeTree_dir {d : Disk} {l : Loc} {m : Mode} (n : Nat)
    (hget : d.fs.get l = some (.dir m)) :
    removeTree false (n + 1) d l =
      if grants m .read = true then
        let r := removeAll (removeTree false n) l d (children d.fs l)
        if (r.2 && (dirGrants d.fs l.dropLast .write && dirGrants d.fs l.dropLast .search)) =
          true then
          (r.1.apply (l, none), true)
        else (r.1, false)
      else (d, false) := by
  rw [removeTree, hget]
  rfl

/-- Nothing that can be removed needs force. -/
theorem removeAll_force {n : Nat} {l : Loc}
    (h : ∀ d l, (removeTree false n d l).2 = true → removeTree true n d l = removeTree false n d l)
    {d : Disk}
    {cs : List Name} (hall : (removeAll (removeTree false n) l d cs).2 = true) :
    removeAll (removeTree true n) l d cs = removeAll (removeTree false n) l d cs := by
  induction cs generalizing d with
  | nil => rfl
  | cons c cs ih =>
    rw [removeAll, Bool.and_eq_true] at hall
    rw [removeAll, removeAll, h d _ hall.1, ih hall.2]

/-- Force makes no difference to a removal that succeeds. -/
theorem removeTree_force {n : Nat} {d : Disk} {l : Loc} (h : (removeTree false n d l).2 = true) :
    removeTree true n d l = removeTree false n d l := by
  induction n generalizing d l with
  | zero => cases h
  | succ n ih =>
    cases hget : d.fs.get l with
    | none => rw [removeTree, removeTree, hget]
    | some node =>
      cases node with
      | dir m =>
        rw [removeTree_dir n hget] at h ⊢
        rw [removeTree, hget]
        split at h
        next hread =>
          dsimp only at h ⊢
          split at h
          next hcond =>
            rw [Bool.and_eq_true] at hcond
            rw [if_pos hread, if_pos hread, removeAll_force (fun _ _ => ih) hcond.1, hcond.1,
              hcond.2]
            rfl
          next => cases h
        next => cases h
      | file content m =>
        rw [removeTree_leaf n hget nofun] at h ⊢
        split at h
        next hcond => rw [removeTree, hget, if_pos hcond]; rfl
        next => cases h
      | link target =>
        rw [removeTree_leaf n hget nofun] at h ⊢
        split at h
        next hcond => rw [removeTree, hget, if_pos hcond]; rfl
        next => cases h

/-- A directory goes after everything in it. -/
theorem removed_of_children {d d' : Disk} {l : Loc} (closed : Closed d.fs) (hl : l ≠ [])
    (h : ∀ l', d'.fs.get l' = if ∃ c ∈ children d.fs l,
      l ++ [c] <+: l' then none else d.fs.get l') :
    Removed l d.fs (d'.apply (l, none)).fs := by
  intro l'
  rw [get_apply_none, h l']
  by_cases heq : l' = l
  · subst heq
    rw [if_pos rfl, if_pos (List.prefix_refl l')]
  · rw [if_neg heq]
    by_cases hle : l <+: l'
    · rw [if_pos hle]
      obtain ⟨rest, rfl⟩ := hle
      cases rest with
      | nil => exact absurd (List.append_nil l) heq
      | cons c rest =>
        have hbelow : l ++ [c] <+: l ++ c :: rest := ⟨rest, by simp⟩
        by_cases hthere : d.fs.get (l ++ [c]) = none
        · have hnone : d.fs.get (l ++ c :: rest) = none := by
            by_cases hrest : rest = []
            · subst hrest
              exact hthere
            · refine closed.below hbelow (by simpa using Ne.symm hrest) fun m hm => ?_
              rw [node_of_ne_nil (by simp), hthere] at hm
              cases hm
          rw [hnone, ite_self]
        · rw [if_pos ⟨c, mem_children.mpr hthere, hbelow⟩]
    · have hnot : ¬ ∃ c ∈ children d.fs l, l ++ [c] <+: l' :=
        fun ⟨c, _, hc⟩ => hle ((List.prefix_append l [c]).trans hc)
      rw [if_neg hnot, if_neg hle]

/-- **A removal removes the tree and nothing else**, and it does so exactly when the location and
every directory below it allow it. -/
theorem removeTree_spec (n : Nat) : RemovesTrees (removeTree false n) n := by
  suffices main : ∀ d l, Closed d.fs →
      (∀ l', l <+: l' → d.fs.get l' ≠ none → l'.length < l.length + n) →
      ((removeTree false n d l).2 = true ↔
        d.fs.get l ≠ none ∧ Writable d.fs l.dropLast ∧ Removable d.fs l) ∧
      ((removeTree false n d l).2 = true → Removed l d.fs (removeTree false n d l).1.fs) from
    ⟨fun d l closed hdepth => (main d l closed hdepth).1,
      fun d l closed hdepth => (main d l closed hdepth).2⟩
  induction n with
  | zero =>
    intro d l _ hdepth
    have hfalse : (removeTree false 0 d l).2 = false := rfl
    rw [hfalse]
    refine ⟨⟨fun h => (by cases h), fun h => ?_⟩, fun h => (by cases h)⟩
    have hlength := hdepth l (List.prefix_refl l) h.1
    omega
  | succ n ih =>
    intro d l closed hdepth
    have hwritable :
        (dirGrants d.fs l.dropLast .write && dirGrants d.fs l.dropLast .search) = true ↔
        Writable d.fs l.dropLast := Bool.and_eq_true _ _ ▸ Iff.rfl
    cases hget : d.fs.get l with
    | none =>
      have hfalse : (removeTree false (n + 1) d l).2 = false := by
        rw [removeTree, hget]
      rw [hfalse]
      exact ⟨⟨fun h => (by cases h), fun h => absurd rfl h.1⟩, fun h => (by cases h)⟩
    | some leaf =>
      have hl : l ≠ [] := by
        rintro rfl
        rw [closed.root] at hget
        cases hget
      by_cases hdir : ∃ m, leaf = .dir m
      · obtain ⟨m, rfl⟩ := hdir
        have hgrants : Writable d.fs l ↔ grants m .write = true ∧ grants m .search = true := by
          unfold Writable dirGrants
          rw [node_of_ne_nil hl, hget]
        have hn : RemovesTrees (removeTree false n) n :=
          ⟨fun d l closed hdepth => (ih d l closed hdepth).1,
            fun d l closed hdepth => (ih d l closed hdepth).2⟩
        obtain ⟨hiff, hall⟩ := removeAll_spec hn hl (nodup_children d.fs l) d closed hdepth
          fun c hc => mem_children.mp hc
        rw [removable_dir_iff closed hget, removeTree_dir n hget]
        by_cases hread : grants m .read = true
        · rw [if_pos hread]
          dsimp only
          rw [hgrants] at hiff
          by_cases hdone : (removeAll (removeTree false n) l d (children d.fs l)).2 = true ∧
              Writable d.fs l.dropLast
          · rw [if_pos (by rw [hdone.1, Bool.true_and]; exact hwritable.mpr hdone.2)]
            refine ⟨⟨fun _ => ⟨Option.some_ne_none _, hdone.2, hread, hiff.mp hdone.1⟩,
              fun _ => rfl⟩,
              fun _ => ?_⟩
            exact removed_of_children closed hl (hall hdone.1)
          · have hfalse : ((removeAll (removeTree false n) l d (children d.fs l)).2 &&
                (dirGrants d.fs l.dropLast .write && dirGrants d.fs l.dropLast .search)) ≠
                    true := by
              rw [ne_eq, Bool.and_eq_true, hwritable]
              exact hdone
            rw [if_neg hfalse]
            exact ⟨⟨fun h => (by cases h), fun h => absurd ⟨hiff.mpr h.2.2.2, h.2.1⟩ hdone⟩,
              fun h => (by cases h)⟩
        · rw [if_neg hread]
          refine ⟨⟨fun h => (by cases h), fun h => absurd h.2.2.1 hread⟩, fun h => (by cases h)⟩
      · have hleaf : ∀ m, leaf ≠ .dir m := fun m heq => hdir ⟨m, heq⟩
        have hleaf' : ∀ m, d.fs.get l ≠ some (.dir m) := by
          intro m heq
          rw [hget] at heq
          exact hleaf m (Option.some.inj heq)
        have hremovable := removable_leaf closed hl hleaf'
        rw [removeTree_leaf n hget hleaf]
        by_cases hw : Writable d.fs l.dropLast
        · rw [if_pos (hwritable.mpr hw)]
          exact ⟨⟨fun _ => ⟨Option.some_ne_none _, hw, hremovable⟩, fun _ => rfl⟩,
            fun _ => removed_leaf closed hl hleaf'⟩
        · rw [if_neg (mt hwritable.mp hw)]
          exact ⟨⟨fun h => (by cases h), fun h => absurd h.2.1 hw⟩, fun h => (by cases h)⟩

/-! ## Checks that run -/

/-- The location ends with a proper name and stands in a directory. -/
def wellPlaced (fs : FileSystem) (l : Loc) : Bool :=
  match l.getLast? with
  | none => false
  | some c =>
    c ≠ [] && c ≠ dot && c ≠ dotdot && !c.contains '/' && (node fs l.dropLast).any (·.isDir)

/-- A listed file system is closed if every entry stands in a directory. -/
theorem closed_of_wellPlaced {fs : FileSystem} (h : ∀ e ∈ fs.entries, wellPlaced fs e.1 = true) :
    Closed fs := by
  have hwell : ∀ l, fs.get l ≠ none → wellPlaced fs l = true := by
    intro l hget
    obtain ⟨n, hn⟩ := Option.ne_none_iff_exists'.mp hget
    exact h (l, n) (fs.mem_of_get hn)
  have hparts : ∀ l c, fs.get (l ++ [c]) ≠ none →
      (c ≠ [] ∧ c ≠ dot ∧ c ≠ dotdot ∧ '/' ∉ c) ∧ (node fs l).any (·.isDir) = true := by
    intro l c hget
    have hall := hwell _ hget
    simp only [wellPlaced, List.getLast?_concat, List.dropLast_concat, Bool.and_eq_true,
      Bool.not_eq_true', decide_eq_true_eq, List.contains_eq_mem, decide_eq_false_iff_not] at hall
    exact ⟨⟨hall.1.1.1.1, hall.1.1.1.2, hall.1.1.2, hall.1.2⟩, hall.2⟩
  refine ⟨?_, fun l c hget => (hparts l c hget).1, ?_⟩
  · by_contra hroot
    cases hwell [] hroot
  · intro l c hget
    have hdir := (hparts l c hget).2
    cases hn : node fs l with
    | none =>
      rw [hn] at hdir
      cases hdir
    | some n =>
      rw [hn] at hdir
      cases n with
      | dir m => exact ⟨m, rfl⟩
      | file content m => cases hdir
      | link target => cases hdir

/-- Whether a node lets itself be emptied. -/
def canEmpty (fs : FileSystem) (l : Loc) : Node → Bool
  | .dir m => grants m .read && (children fs l = [] || (grants m .write && grants m .search))
  | _ => true

theorem removable_of_canEmpty {fs : FileSystem} {l : Loc}
    (h : ∀ e ∈ fs.entries, l.isPrefixOf e.1 = true → canEmpty fs e.1 e.2 = true) :
    Removable fs l := by
  intro l' m hle hget
  have hempty := h (l', .dir m) (fs.mem_of_get hget) (List.isPrefixOf_iff_prefix.mpr hle)
  simpa [canEmpty] using hempty

end WinEmulator.Lib.Fs
