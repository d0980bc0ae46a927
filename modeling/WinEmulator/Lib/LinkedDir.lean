import WinEmulator.Lib.FreshDir

/-!
# Below a directory with links

What happens below a directory when links come to stand there, and when nodes go and modes change
afterwards. A path into it still leads where its collapsed form says if no link stands where the
path comes by; that is so when what `mkdirs` has sealed lies on the way and no double dot follows a
link.
-/

set_option autoImplicit false

namespace WinEmulator.Lib.Fs

open JavaFile

/-- Nothing outside the directory has changed, and the directory itself is there or gone. -/
structure Kept (fs₀ : FileSystem) (out : Loc) (fs : FileSystem) : Prop where
  outside : ∀ l, ¬ out <+: l → fs.get l = fs₀.get l
  top : fs.get out = none ∨ ∃ m, fs.get out = some (.dir m)

/-- A link stands only where one stood. -/
def NoNewLinks (fs fs' : FileSystem) : Prop :=
  ∀ l t, fs'.get l = some (.link t) → fs.get l = some (.link t)

theorem NoNewLinks.trans {fs fs' fs'' : FileSystem} (h : NoNewLinks fs fs')
    (h' : NoNewLinks fs' fs'') :
    NoNewLinks fs fs'' :=
  fun l t hget => h l t (h' l t hget)

theorem Shrinks.noNewLinks {fs fs' : FileSystem} (h : Shrinks fs fs') : NoNewLinks fs fs' := by
  intro l t hget
  rcases h l with heq | hnone
  · rw [← heq]
    exact hget
  · rw [hnone] at hget
    cases hget

theorem NoLinks.mono {fs fs' : FileSystem} {cur : Loc} {cs : List Name} (h : NoLinks fs cur cs)
    (hnew : NoNewLinks fs fs') : NoLinks fs' cur cs :=
  fun pre hpre t hget => h pre hpre t (hnew _ t hget)

/-- A way without links goes on without one if its end is none. -/
theorem NoLinks.concat {fs : FileSystem} {cur : Loc} {cs : List Name} {c : Name}
    (h : NoLinks fs cur cs) (hlast : ∀ t, fs.get (collapse cur (cs ++ [c])) ≠ some (.link t)) :
    NoLinks fs cur (cs ++ [c]) := by
  intro pre hpre
  rcases List.prefix_concat_iff.mp hpre with rfl | hle
  · exact hlast
  · exact h pre hle

/-! ## Modes change -/

/-- Nothing but modes has changed. -/
def ModesOnly (fs fs' : FileSystem) : Prop :=
  ∀ l, fs'.get l = fs.get l ∨ ∃ m, fs'.get l = (fs.get l).map (Node.chmod m)

namespace ModesOnly

variable {fs fs' fs'' : FileSystem} {l : Loc}

theorem refl (fs : FileSystem) : ModesOnly fs fs := fun _ => .inl rfl

theorem trans (h : ModesOnly fs fs') (h' : ModesOnly fs' fs'') : ModesOnly fs fs'' := by
  intro l
  rcases h' l with heq | ⟨m, heq⟩
  · rw [heq]
    exact h l
  · refine .inr ⟨m, ?_⟩
    rw [heq]
    rcases h l with heq' | ⟨m', heq'⟩
    · rw [heq']
    · rw [heq', Option.map_map]
      congr 1
      funext n
      cases n <;> rfl

/-- Changing a mode changes modes only. -/
theorem chmod (d : Disk) (q : Path) (m : Mode) :
    ModesOnly d.fs (d.perform (chmodEffect d.fs q m)).fs := by
  cases he : chmodEffect d.fs q m with
  | none => exact .refl d.fs
  | some e =>
    obtain ⟨l, -, he⟩ := Option.bind_eq_some_iff.mp he
    obtain ⟨n, hn, rfl⟩ := Option.map_eq_some_iff.mp he
    intro l'
    have hget :
        (d.apply (l, some (n.chmod m))).fs.get l' = if l' = l then some (n.chmod m)
          else d.fs.get l' :=
      LinkedMap.get_set _ _ _ _
    by_cases heq : l' = l
    · refine .inr ⟨m, hget.trans ?_⟩
      rw [if_pos heq, heq, hn]
      rfl
    · exact .inl (hget.trans (if_neg heq))

theorem ne_none (h : ModesOnly fs fs') (hget : fs'.get l ≠ none) : fs.get l ≠ none := by
  intro hnone
  rcases h l with heq | ⟨m, heq⟩
  · exact hget (heq.trans hnone)
  · rw [hnone] at heq
    exact hget heq

/-- A file was a file with the same content. -/
theorem file {content : List UInt8} {m : Mode} (h : ModesOnly fs fs')
    (hget : fs'.get l = some (.file content m)) :
    ∃ m', fs.get l = some (.file content m') := by
  rcases h l with heq | ⟨m', heq⟩
  · exact ⟨m, heq ▸ hget⟩
  · rw [hget] at heq
    obtain ⟨n, hn, heq⟩ := Option.map_eq_some_iff.mp heq.symm
    cases n with
    | file content' m'' =>
      cases heq
      exact ⟨m'', hn⟩
    | dir m'' => cases heq
    | link t => cases heq

/-- A link was the same link. -/
theorem link {t : List Char} (h : ModesOnly fs fs') (hget : fs'.get l = some (.link t)) :
    fs.get l = some (.link t) := by
  rcases h l with heq | ⟨m', heq⟩
  · exact heq ▸ hget
  · rw [hget] at heq
    obtain ⟨n, hn, heq⟩ := Option.map_eq_some_iff.mp heq.symm
    cases n with
    | link t' =>
      cases heq
      exact hn
    | dir m'' => cases heq
    | file content m'' => cases heq

theorem noNewLinks (h : ModesOnly fs fs') : NoNewLinks fs fs' := fun _ _ => h.link

end ModesOnly

/-- Nodes have gone, and then modes have changed. -/
def Reduces (fs fs' : FileSystem) : Prop := ∃ fs₁, Shrinks fs fs₁ ∧ ModesOnly fs₁ fs'

namespace Reduces

variable {fs fs' : FileSystem} {l : Loc}

/-- What is left was the same before the modes changed. -/
theorem kept {fs₁ : FileSystem} (h : Shrinks fs fs₁) (hget : fs₁.get l ≠ none) :
    fs₁.get l = fs.get l :=
  (h l).resolve_right hget

theorem ne_none (h : Reduces fs fs') (hget : fs'.get l ≠ none) : fs.get l ≠ none := by
  obtain ⟨fs₁, hshrinks, hmodes⟩ := h
  rw [← kept hshrinks (hmodes.ne_none hget)]
  exact hmodes.ne_none hget

theorem file {content : List UInt8} {m : Mode} (h : Reduces fs fs')
    (hget : fs'.get l = some (.file content m)) :
    ∃ m', fs.get l = some (.file content m') := by
  obtain ⟨fs₁, hshrinks, hmodes⟩ := h
  obtain ⟨m', hm'⟩ := hmodes.file hget
  exact ⟨m', (kept hshrinks (by rw [hm']; exact Option.some_ne_none _)).symm.trans hm'⟩

theorem link {t : List Char} (h : Reduces fs fs') (hget : fs'.get l = some (.link t)) :
    fs.get l = some (.link t) := by
  obtain ⟨fs₁, hshrinks, hmodes⟩ := h
  have hlink := hmodes.link hget
  exact (kept hshrinks (by rw [hlink]; exact Option.some_ne_none _)).symm.trans hlink

end Reduces

/-! ## Nodes go -/

section Kept

variable {fs₀ fs : FileSystem} {out : Loc} {p : Path} {cs : List Name}

theorem Kept.tolerates (fresh : Fresh fs₀ out) (h : Kept fs₀ out fs) : Tolerates fs₀ fs := by
  intro l hl
  by_cases hout : out <+: l
  · by_cases heq : l = out
    · subst heq
      obtain ⟨m, hm, -⟩ := fresh.dir
      exact .inr ⟨⟨m, hm⟩, h.top⟩
    · exact absurd (fresh.empty l hout heq) hl
  · exact .inl (h.outside l hout)

/-- A path that comes by no link leads where its collapsed form says, if anywhere. -/
theorem Kept.resolve_some (fresh : Fresh fs₀ out) (h : Kept fs₀ out fs)
    (hplace : place fs₀ p = some out) (hstays : Stays [] cs) (hlinks : NoLinks fs out cs)
    {create : Bool} {l : Loc} (hl : resolve fs create (p ++ cs) = some l) :
    l = out ++ collapse [] cs := by
  rcases walk_append (h.tolerates fresh) create cs (resolve_of_place fresh hplace) with
    ⟨hnone, -⟩ | ⟨n, hn⟩
  · rw [resolve, hnone] at hl
    cases hl
  · rw [resolve, hn] at hl
    rw [walk_noLinks hlinks hl]
    exact under_collapse hstays (List.prefix_refl cs)

theorem walk_nil (fs : FileSystem) (create : Bool) (n : Nat) (l : Loc) :
    walk fs create n l [] = some l := by
  cases n <;> rfl

theorem Kept.place_top (fresh : Fresh fs₀ out) (h : Kept fs₀ out fs)
    (hplace : place fs₀ p = some out) {l : Loc} (hl : place fs p = some l) : l = out := by
  obtain ⟨q, c, rfl⟩ := ne_nil_of_place hplace
  obtain ⟨-, parent, hq, -, rfl⟩ := place_concat_iff.mp hplace
  obtain ⟨-, parent', hq', -, rfl⟩ := place_concat_iff.mp hl
  rcases walk_append (h.tolerates fresh) false [] hq with ⟨hnone, -⟩ | ⟨n, hn⟩
  · rw [List.append_nil] at hnone
    rw [resolve, hnone] at hq'
    cases hq'
  · rw [List.append_nil, walk_nil] at hn
    rw [resolve, hn] at hq'
    cases hq'
    rfl

/-- The place of a path that comes by no link before its end. -/
theorem Kept.place_some (fresh : Fresh fs₀ out) (h : Kept fs₀ out fs)
    (hplace : place fs₀ p = some out) (hstays : Stays [] cs.dropLast)
    (hlinks : NoLinks fs out cs.dropLast) {l : Loc} (hl : place fs (p ++ cs) = some l) :
    l = out ++ collapse [] cs := by
  cases cs using List.reverseRecOn with
  | nil =>
    rw [List.append_nil] at hl
    rw [h.place_top fresh hplace hl]
    exact (List.append_nil out).symm
  | append_singleton cs c =>
    rw [List.dropLast_concat] at hstays hlinks
    rw [← List.append_assoc] at hl
    obtain ⟨hc, parent, hparent, -, rfl⟩ := place_concat_iff.mp hl
    rw [h.resolve_some fresh hplace hstays hlinks hparent, collapse_append,
      collapse_proper _ hc, List.append_assoc]

/-- From one disk to the other, nodes below the directory went or changed their modes. -/
structure Tidies (fs₀ : FileSystem) (out : Loc) (d d' : Disk) : Prop where
  kept : Kept fs₀ out d'.fs
  within : Within out d d'
  noNewLinks : NoNewLinks d.fs d'.fs

theorem Tidies.refl {d : Disk} (h : Kept fs₀ out d.fs) : Tidies fs₀ out d d :=
  ⟨h, .refl out d, fun _ _ hget => hget⟩

theorem Tidies.trans {d₁ d₂ d₃ : Disk} (h : Tidies fs₀ out d₁ d₂) (h' : Tidies fs₀ out d₂ d₃) :
    Tidies fs₀ out d₁ d₃ :=
  ⟨h'.kept, h.within.trans h'.within, h.noNewLinks.trans h'.noNewLinks⟩

/-- Removals within the directory tidy. -/
theorem Kept.tidies {d d' : Disk} (h : Kept fs₀ out d.fs) (hwithin : Within out d d')
    (hshrinks : Shrinks d.fs d'.fs) : Tidies fs₀ out d d' := by
  refine ⟨⟨?_, ?_⟩, hwithin, hshrinks.noNewLinks⟩
  · intro l hl
    rw [hwithin.outside l hl]
    exact h.outside l hl
  · rcases hshrinks out with heq | hnone
    · rw [heq]
      exact h.top
    · exact .inl hnone

/-- What `remove` does, it does at the place of the path. -/
theorem remove_of_effect {fs : FileSystem} {q : Path} {e : Effect}
    (he : removeEffect fs q = some e) :
    ∃ l, place fs q = some l ∧ e = (l, none) := by
  obtain ⟨l, hl, he⟩ := Option.bind_eq_some_iff.mp he
  refine ⟨l, hl, ?_⟩
  split at he
  · cases he
  · split at he
    · cases he
      rfl
    · cases he
  · split at he
    · cases he
      rfl
    · cases he

/-- A directory it removes is empty. -/
theorem empty_of_effect {fs : FileSystem} {q : Path} {l : Loc} {m : Mode}
    (he : removeEffect fs q = some (l, none))
    (hdir : fs.get l = some (.dir m)) : children fs l = [] := by
  obtain ⟨l', hl', heq⟩ := remove_of_effect he
  cases heq
  rw [removeEffect, hl', Option.bind_some, hdir] at he
  dsimp only at he
  split at he
  · exact (‹_ ∧ _›).1
  · cases he

/-- So what goes is all that stands there and below. -/
theorem removed_of_effect {d : Disk} {q : Path} {l : Loc} (closed : Closed d.fs)
    (he : removeEffect d.fs q = some (l, none)) : Removed l d.fs (d.apply (l, none)).fs := by
  obtain ⟨l', hl', heq⟩ := remove_of_effect he
  cases heq
  have hl : l ≠ [] := by
    obtain ⟨p, c, rfl⟩ := ne_nil_of_place hl'
    obtain ⟨-, parent, -, -, rfl⟩ := place_concat_iff.mp hl'
    exact List.append_ne_nil_of_right_ne_nil parent (List.cons_ne_nil c [])
  by_cases hdir : ∃ m, d.fs.get l = some (.dir m)
  · obtain ⟨m, hm⟩ := hdir
    refine removed_of_children closed hl fun l' => ?_
    rw [empty_of_effect he hm, if_neg fun ⟨c, hc, _⟩ => List.not_mem_nil hc]
  · exact removed_leaf closed hl fun m hm => hdir ⟨m, hm⟩

theorem shrinks_delete (d : Disk) (q : Path) : Shrinks d.fs (JavaFile.delete d q).fs := by
  unfold JavaFile.delete
  cases he : removeEffect d.fs q with
  | none => exact .refl d.fs
  | some e =>
    obtain ⟨l, -, rfl⟩ := remove_of_effect he
    exact shrinks_apply d l

/-- Whatever it finds, `deleteDirectory` only removes. -/
theorem shrinks_deleteDirectory (d : Disk) (q : Path) :
    Shrinks d.fs (JavaFile.deleteDirectory d q).fs := by
  unfold JavaFile.deleteDirectory
  split
  next =>
    split
    next => exact .refl d.fs
    next l _ =>
      split
      next => exact shrinks_delete d q
      next =>
        split
        next =>
          have hall :=
            removeAll_shrinks (removeTree_shrinks true (height d.fs + 1)) l d (children d.fs l)
          dsimp only
          split
          next => exact hall.trans (shrinks_delete _ q)
          next => exact hall
        next => exact .refl d.fs
      next => exact .refl d.fs
  next => exact .refl d.fs

/-- Deleting inside keeps the surroundings. -/
theorem Kept.delete (fresh : Fresh fs₀ out) {d : Disk} (h : Kept fs₀ out d.fs)
    (hplace : place fs₀ p = some out) (hstays : Stays [] cs.dropLast)
    (hlinks : NoLinks d.fs out cs.dropLast) : Tidies fs₀ out d (delete d (p ++ cs)) := by
  unfold JavaFile.delete
  cases he : removeEffect d.fs (p ++ cs) with
  | none => exact .refl h
  | some e =>
    obtain ⟨l, hl, rfl⟩ := remove_of_effect he
    have hout : out <+: l :=
      h.place_some fresh hplace hstays hlinks hl ▸ List.prefix_append _ _
    exact h.tidies (within_apply d hout) (shrinks_apply d l)

theorem Kept.noLinks_top (h : Kept fs₀ out fs) : NoLinks fs out [] := by
  intro pre hpre t hget
  rw [List.prefix_nil.mp hpre] at hget
  change fs.get out = _ at hget
  rcases h.top with hnone | ⟨m, hm⟩
  · rw [hnone] at hget
    cases hget
  · rw [hm] at hget
    cases hget

/-- A directory right below goes with everything in it, and a link in its place goes itself. -/
theorem Kept.deleteDirectory (fresh : Fresh fs₀ out) {d : Disk} (h : Kept fs₀ out d.fs)
    (hplace : place fs₀ p = some out) (c : Name) :
    Tidies fs₀ out d (deleteDirectory d (p ++ [c])) := by
  have hstays : Stays [] ([c] : List Name).dropLast := stays_of_proper fun c' hc' => by cases hc'
  unfold JavaFile.deleteDirectory
  split
  next =>
    split
    next => exact .refl h
    next l hl =>
      have hout : out <+: l :=
        h.place_some fresh hplace hstays h.noLinks_top hl ▸ List.prefix_append _ _
      split
      next => exact h.delete fresh hplace hstays h.noLinks_top
      next =>
        split
        next =>
          have hall : Tidies fs₀ out d
              (removeAll (removeTree true (height d.fs + 1)) l d (children d.fs l)).1 :=
            h.tidies ((removeAll_within (removeTree_within true _) d _).mono hout)
              (removeAll_shrinks (removeTree_shrinks true _) l d _)
          dsimp only
          split
          next => exact hall.trans (hall.kept.delete fresh hplace hstays hall.kept.noLinks_top)
          next => exact hall
        next => exact .refl h
      next => exact .refl h
  next => exact .refl h

/-- `chmod` changes what the path says, and only along a clear way. -/
theorem Kept.chmodEffect_cases (fresh : Fresh fs₀ out) (h : Kept fs₀ out fs)
    (hplace : place fs₀ p = some out)
    (hproper : ∀ c ∈ cs, Proper c) (hlinks : NoLinks fs out cs) (m : Mode) :
    chmodEffect fs (p ++ cs) m = none ∨
      Clear fs (out ++ cs) ∧ ∃ n, fs.get (out ++ cs) = some n ∧
        chmodEffect fs (p ++ cs) m = some (out ++ cs, some (n.chmod m)) := by
  cases he : chmodEffect fs (p ++ cs) m with
  | none => exact .inl rfl
  | some e =>
    obtain ⟨l, hl, he⟩ := Option.bind_eq_some_iff.mp he
    obtain ⟨n, hn, rfl⟩ := Option.map_eq_some_iff.mp he
    have heq := h.resolve_some fresh hplace (stays_of_proper hproper) hlinks hl
    rw [collapse_names [] hproper, List.nil_append] at heq
    subst heq
    exact .inr ⟨walk_clear clear_nil hl, n, hn, rfl⟩

/-- So does changing a mode inside. -/
theorem Kept.chmod (fresh : Fresh fs₀ out) {d : Disk} (h : Kept fs₀ out d.fs)
    (hplace : place fs₀ p = some out) (hstays : Stays [] cs) (hlinks : NoLinks d.fs out cs)
    (m : Mode) :
    Tidies fs₀ out d (d.perform (chmodEffect d.fs (p ++ cs) m)) := by
  have hmodes := ModesOnly.chmod d (p ++ cs) m
  have hwithin : Within out d (d.perform (chmodEffect d.fs (p ++ cs) m)) := by
    cases he : chmodEffect d.fs (p ++ cs) m with
    | none => exact .refl out d
    | some e =>
      obtain ⟨l, hl, he⟩ := Option.bind_eq_some_iff.mp he
      obtain ⟨n, -, rfl⟩ := Option.map_eq_some_iff.mp he
      exact within_apply d (h.resolve_some fresh hplace hstays hlinks hl ▸ List.prefix_append _ _)
  refine ⟨⟨fun l' hl' => (hwithin.outside l' hl').trans (h.outside l' hl'), ?_⟩, hwithin,
    hmodes.noNewLinks⟩
  rcases hmodes out with heq | ⟨m', heq⟩
  · rw [heq]
    exact h.top
  · rw [heq]
    rcases h.top with hnone | ⟨m, hm⟩
    · exact .inl (by rw [hnone]; rfl)
    · exact .inr ⟨m', by rw [hm]; rfl⟩

end Kept

/-! ## Links come to stand -/

/-- The file system has changed below the directory only, and links stand there only at some
places. -/
structure Linked (fs₀ : FileSystem) (out : Loc) (links : Loc → Prop) (fs : FileSystem) : Prop where
  outside : ∀ l, ¬ out <+: l → fs.get l = fs₀.get l
  top : fs.get out = fs₀.get out
  rooted : Rooted out fs
  links : ∀ l t, out <+: l → fs.get l = some (.link t) → links l

section Linked

variable {fs₀ fs : FileSystem} {out : Loc} {links : Loc → Prop} {p : Path} {cs : List Name}

theorem Filling.linked (h : Filling fs₀ out fs) : Linked fs₀ out links fs :=
  ⟨h.outside, h.top, h.rooted, fun l t hout hget => absurd hget (h.noLinks l t hout)⟩

theorem Linked.kept (fresh : Fresh fs₀ out) (h : Linked fs₀ out links fs) : Kept fs₀ out fs := by
  obtain ⟨m, hm, -⟩ := fresh.dir
  exact ⟨h.outside, .inr ⟨m, h.top.trans hm⟩⟩

/-- On the way to a sealed location there is no link. -/
theorem Sealed.not_link (hrooted : Rooted out fs) {l l' : Loc} (h : Sealed out fs l)
    (hout : out <+: l')
    (hle : l' <+: l) (t : List Char) : fs.get l' ≠ some (.link t) := by
  intro hlink
  rcases h with ⟨m, hm⟩ | ⟨l'', content, m, hout'', hle'', hfile⟩
  · by_cases heq : l' = l
    · rw [heq, hm] at hlink
      cases hlink
    · obtain ⟨m', hm'⟩ := hrooted.dir_above hout hle heq (by rw [hm]; exact Option.some_ne_none _)
      rw [hm'] at hlink
      cases hlink
  · by_cases heq : l' = l''
    · rw [heq, hfile] at hlink
      cases hlink
    · rcases List.prefix_or_prefix_of_prefix hle hle'' with hbelow | habove
      · obtain ⟨m', hm'⟩ :=
          hrooted.dir_above hout hbelow heq (by rw [hfile]; exact Option.some_ne_none _)
        rw [hm'] at hlink
        cases hlink
      · obtain ⟨m', hm'⟩ := hrooted.dir_above hout'' habove (Ne.symm heq) (by
          rw [hlink]
          exact Option.some_ne_none _)
        rw [hm'] at hfile
        cases hfile

/-- A path to a sealed location comes by no link, if it does not turn round behind one. -/
theorem Linked.noLinks (h : Linked fs₀ out links fs) (hstays : Stays [] cs)
    (hsealed : Sealed out fs (out ++ collapse [] cs))
    (hturns : ∀ mid post, cs = mid ++ dotdot :: post → ¬ links (out ++ collapse [] mid)) :
    NoLinks fs out cs := by
  intro pre hpre t hget
  rw [under_collapse hstays hpre] at hget
  obtain ⟨rest, rfl⟩ := hpre
  rcases prefix_or_popped [] pre rest with hle | ⟨mid, post, heq, hmid⟩
  · exact hsealed.not_link h.rooted (List.prefix_append _ _)
      ((List.prefix_append_right_inj out).mpr hle) t hget
  · refine hturns mid post heq ?_
    rw [hmid]
    exact h.links _ t (List.prefix_append _ _) hget

/-- A link is made where the path says, and nothing that was there changes. -/
theorem Linked.createEffect (fresh : Fresh fs₀ out) {d : Disk} (h : Linked fs₀ out links d.fs)
    (hplace : place fs₀ p = some out) (hstays : Stays [] cs.dropLast)
    (hlinks : NoLinks d.fs out cs.dropLast) (hlink : links (out ++ collapse [] cs)) {t : List Char}
    {e : Effect}
    (he : createEffect d.fs (p ++ cs) (.link t) = some e) :
    Linked fs₀ out links (d.apply e).fs ∧ Within out d (d.apply e) ∧
      SameKind d.fs (d.apply e).fs := by
  obtain ⟨l, hl, he⟩ := Option.bind_eq_some_iff.mp he
  have heq := (h.kept fresh).place_some fresh hplace hstays hlinks hl
  have hout : out <+: l := heq ▸ List.prefix_append _ _
  rw [← heq] at hlink
  split at he
  next hfree =>
    cases he
    obtain ⟨hnone, hgrants⟩ := hfree
    have hne : l ≠ out := by
      rintro rfl
      obtain ⟨m, hm, -⟩ := fresh.dir
      rw [h.top, hm] at hnone
      cases hnone
    obtain ⟨parent, c, rfl, hparent⟩ := concat_of_prefix_ne hout hne
    have hnonempty : parent ≠ [] := by
      rintro rfl
      exact ne_nil_of_place_some hplace (List.prefix_nil.mp hparent)
    rw [List.dropLast_concat] at hgrants
    obtain ⟨m, hm, -⟩ := get_of_dirGrants hnonempty hgrants
    have hget : ∀ l', (d.apply (parent ++ [c], some (.link t))).fs.get l' =
        if l' = parent ++ [c] then some (.link t) else d.fs.get l' :=
      fun l' => LinkedMap.get_set _ _ _ _
    have hwithin := within_apply d (e := (parent ++ [c], some (.link t))) hout
    have hsame : SameKind d.fs (d.apply (parent ++ [c], some (.link t))).fs := by
      intro l'
      rw [hget]
      split
      next heq' =>
        rw [heq', hnone]
        exact ⟨fun _ h => (by cases h), fun _ _ h => (by cases h)⟩
      next => exact SameKind.refl d.fs l'
    refine ⟨⟨?_, ?_, ?_, ?_⟩, hwithin, hsame⟩
    · intro l' hl'
      exact (hwithin.outside l' hl').trans (h.outside l' hl')
    · rw [hget, if_neg (Ne.symm hne)]
      exact h.top
    · intro l' c' hl' hthere
      rw [hget] at hthere
      split at hthere
      next heq' =>
        obtain ⟨rfl, -⟩ := List.append_inj' heq' rfl
        exact (hsame l').1 m hm
      next =>
        obtain ⟨m', hm'⟩ := h.rooted l' c' hl' hthere
        exact (hsame l').1 m' hm'
    · intro l' t' hl' hthere
      rw [hget] at hthere
      split at hthere
      next heq' =>
        rw [heq']
        exact hlink
      next => exact h.links l' t' hl' hthere
  next => cases he

end Linked

end WinEmulator.Lib.Fs
