import WinEmulator.Lib.Subtree

/-!
# What `mkdirs` makes

Below a directory that was empty at the beginning and is only filled with directories and files,
`mkdirs` makes exactly those directories of a path that are not there, if no file stands on the way.
-/

set_option autoImplicit false

namespace WinEmulator.Lib.Fs

open JavaFile

namespace Filling

variable {fs₀ fs : FileSystem} {out : Loc} {p : Path} {cs q : List Name} {c : Name}

/-- No path leads to where nothing is. -/
theorem resolve_none (fresh : Fresh fs₀ out) (h : Filling fs₀ out fs)
    (hplace : place fs₀ p = some out)
    (hproper : ∀ c ∈ cs, Proper c) (hnone : fs.get (out ++ cs) = none) :
    resolve fs false (p ++ cs) = none := by
  cases hl : resolve fs false (p ++ cs) with
  | none => rfl
  | some l =>
    have hthere := walk_there clear_nil (Option.some_ne_none _) hl
    rw [h.resolve_some fresh hplace (stays_of_proper hproper) hl, collapse_names [] hproper,
      List.nil_append,
      node_of_ne_nil (List.append_ne_nil_of_left_ne_nil (ne_nil_of_place_some hplace) _)] at hthere
    exact absurd hnone hthere

/-- What is there has everything above it there. -/
theorem there_above (h : Filling fs₀ out fs) (hthere : fs.get (out ++ q) ≠ none) (hle : cs <+: q) :
    fs.get (out ++ cs) ≠ none := by
  by_cases heq : cs = q
  · rw [heq]
    exact hthere
  · obtain ⟨m, hm⟩ :=
      h.rooted.dir_above (List.prefix_append out cs) ((List.prefix_append_right_inj out).mpr hle)
      (fun h => heq (List.append_cancel_left h)) hthere
    rw [hm]
    exact Option.some_ne_none _

/-- The way into a directory is clear. -/
theorem clear_of_dir (fresh : Fresh fs₀ out) (h : Filling fs₀ out fs)
    (hplace : place fs₀ p = some out)
    (hproper : ∀ c' ∈ q ++ [c], Proper c') (hdir : ∃ m, fs.get (out ++ q) = some (.dir m)) :
    Clear fs (out ++ (q ++ [c])) := by
  refine h.clear fresh hplace hproper fun pre c' hle => ?_
  have hpre : pre <+: q := by
    obtain ⟨rest, hrest⟩ := hle
    have hdrop := congrArg List.dropLast hrest
    rw [List.dropLast_concat, List.append_assoc, List.dropLast_append_of_ne_nil (by simp)] at hdrop
    exact ⟨_, hdrop⟩
  by_cases heq : pre = q
  · rw [heq]
    exact hdir
  · obtain ⟨m, hm⟩ := hdir
    refine h.rooted.dir_above (List.prefix_append out pre)
      ((List.prefix_append_right_inj out).mpr hpre)
      (fun h => heq (List.append_cancel_left h)) ?_
    rw [hm]
    exact Option.some_ne_none _

/-- In a directory something can be made where nothing is. -/
theorem createEffect_eq (fresh : Fresh fs₀ out) (h : Filling fs₀ out fs)
    (hplace : place fs₀ p = some out)
    (hproper : ∀ c' ∈ q ++ [c], Proper c') (hdir : ∃ m, fs.get (out ++ q) = some (.dir m))
    (hnone : fs.get (out ++ (q ++ [c])) = none) (n : Node) :
    createEffect fs (p ++ (q ++ [c])) n = some (out ++ (q ++ [c]), some n) :=
  createEffect_below (h.resolve_before fresh (resolve_of_place fresh hplace))
    (h.clear_of_dir fresh hplace hproper hdir)
    hnone (h.grants (List.prefix_append out q)
      (List.append_ne_nil_of_left_ne_nil (ne_nil_of_place_some hplace) q) hdir .write) n

/-- Writing a new file in the fresh directory is one effect. -/
theorem writeEffect_eq (fresh : Fresh fs₀ out) (h : Filling fs₀ out fs)
    (hplace : place fs₀ p = some out)
    (hproper : ∀ c' ∈ q ++ [c], Proper c') (hdir : ∃ m, fs.get (out ++ q) = some (.dir m))
    (hnone : fs.get (out ++ (q ++ [c])) = none) (content : List UInt8) :
    writeEffect fs (p ++ (q ++ [c])) content =
      some (out ++ (q ++ [c]), some (.file content newFileMode)) :=
  writeEffect_below (h.resolve_before fresh (resolve_of_place fresh hplace))
    (h.clear_of_dir fresh hplace hproper hdir)
    hnone (h.grants (List.prefix_append out q)
      (List.append_ne_nil_of_left_ne_nil (ne_nil_of_place_some hplace) q) hdir .write)
    content

/-- Where there is no directory nothing can be made. -/
theorem createEffect_none (fresh : Fresh fs₀ out) (h : Filling fs₀ out fs)
    (hplace : place fs₀ p = some out)
    (hproper : ∀ c' ∈ q, Proper c') (hnone : fs.get (out ++ q) = none) (n : Node) :
    createEffect fs (p ++ (q ++ [c])) n = none := by
  have hplaceless : place fs (p ++ (q ++ [c])) = none := by
    cases hl : place fs (p ++ (q ++ [c])) with
    | none => rfl
    | some l =>
      rw [← List.append_assoc] at hl
      obtain ⟨-, parent, hparent, -⟩ := place_concat_iff.mp hl
      rw [h.resolve_none fresh hplace hproper hnone] at hparent
      cases hparent
  rw [createEffect, hplaceless, Option.bind_none]

/-- `mkdirs` makes the missing directories of the path, and nothing else. -/
theorem mkdirsWith_get (fresh : Fresh fs₀ out) {n : Nat} {d : Disk} (h : Filling fs₀ out d.fs)
    (hplace : place fs₀ p = some out) (hproper : ∀ c ∈ q, Proper c)
    (hfree : ∀ r, r <+: q → ∀ content m, d.fs.get (out ++ r) ≠ some (.file content m))
    (hn : q.length + 2 ≤ n)
    (cs : List Name) :
    (JavaFile.mkdirsWith n d (p ++ q)).1.fs.get (out ++ cs) =
      if cs <+: q ∧ d.fs.get (out ++ cs) = none then some (.dir newDirMode) else d.fs.get
        (out ++ cs) := by
  induction q using List.reverseRecOn generalizing n p cs with
  | nil =>
    have hexists : exists_ d.fs (p ++ []) = true := by
      rw [List.append_nil, exists_, h.resolve_before fresh (resolve_of_place fresh hplace)]
      rfl
    obtain ⟨m, hm, -⟩ := fresh.dir
    cases n with
    | zero => omega
    | succ n =>
      rw [JavaFile.mkdirsWith, if_pos hexists, if_neg]
      rintro ⟨hle, hnone⟩
      rw [List.prefix_nil.mp hle, List.append_nil, h.top, hm] at hnone
      cases hnone
  | append_singleton q c ih =>
    obtain ⟨n, rfl⟩ : ∃ k, n = k + 1 := ⟨n - 1, by omega⟩
    have hproper' : ∀ d ∈ q, Proper d := fun d hd => hproper d (List.mem_append_left _ hd)
    have hq : q.length + 2 ≤ n := by
      rw [List.length_append, List.length_singleton] at hn
      omega
    by_cases hnone : d.fs.get (out ++ (q ++ [c])) = none
    · have hnot : ¬ exists_ d.fs (p ++ (q ++ [c])) = true :=
        not_exists_of_none (h.resolve_none fresh hplace hproper hnone)
      rw [JavaFile.mkdirsWith, if_neg hnot, mkdirEffect]
      by_cases hdir : ∃ m, d.fs.get (out ++ q) = some (.dir m)
      · -- only the last directory is missing
        rw [h.createEffect_eq fresh hplace hproper hdir hnone]
        show (d.fs.set (out ++ (q ++ [c])) _).get (out ++ cs) = _
        rw [LinkedMap.get_set]
        by_cases heq : cs = q ++ [c]
        · rw [heq, if_pos rfl, if_pos ⟨List.prefix_refl _, hnone⟩]
        · rw [if_neg fun h => heq (List.append_cancel_left h), if_neg]
          rintro ⟨hle, hcs⟩
          have hle' : cs <+: q := (List.prefix_concat_iff.mp hle).resolve_left heq
          obtain ⟨m, hm⟩ := hdir
          exact h.there_above (by rw [hm]; exact Option.some_ne_none _) hle' hcs
      · -- the parent is made first
        have hparent : d.fs.get (out ++ q) = none := by
          cases hget : d.fs.get (out ++ q) with
          | none => rfl
          | some node =>
            cases node with
            | dir m => exact absurd ⟨m, hget⟩ hdir
            | file content m => exact absurd hget (hfree q (List.prefix_append _ _) content m)
            | link t => exact absurd hget (h.noLinks _ t (List.prefix_append _ _))
        have hself := place_self hplace
        have hne : out ++ (q ++ [c]) ≠ [] := by simp
        have hadvances := (h.mkdirsWith fresh hself (stays_of_proper hproper') (n := n) (by
          rw [collapse_names [] hproper', List.nil_append]
          exact hq)).1
        have hmade :=
          ih hself hproper' (fun r hle => hfree r (hle.trans (List.prefix_append _ _))) hq
        rw [h.createEffect_none fresh hplace hproper' hparent]
        dsimp only
        rw [h.canonical_eq fresh hplace (stays_of_proper hproper), collapse_names [] hproper,
          List.nil_append,
          if_neg hne, dropLast_below]
        generalize JavaFile.mkdirsWith n d (out ++ q) = r at hadvances hmade ⊢
        have hfill := hadvances.filling
        have hdir' : ∃ m, r.1.fs.get (out ++ q) = some (.dir m) := by
          refine ⟨newDirMode, ?_⟩
          rw [hmade q, if_pos ⟨List.prefix_refl _, hparent⟩]
        have hnone' : r.1.fs.get (out ++ (q ++ [c])) = none := by
          rw [hmade, if_neg, hnone]
          exact fun hle => not_prefix_parent q c hle.1
        have hexists : exists_ r.1.fs (out ++ q) = true := by
          obtain ⟨m, hm⟩ := hdir'
          rw [exists_,
            hfill.resolve_names fresh hself hproper' (by rw [hm]; exact Option.some_ne_none _)]
          rfl
        rw [hexists, Bool.or_true, if_pos rfl, mkdirEffect,
          hfill.createEffect_eq fresh hself hproper hdir' hnone']
        show (r.1.fs.set (out ++ (q ++ [c])) _).get (out ++ cs) = _
        rw [LinkedMap.get_set]
        by_cases heq : cs = q ++ [c]
        · rw [heq, if_pos rfl, if_pos ⟨List.prefix_refl _, hnone⟩]
        · have hle : cs <+: q ++ [c] ↔ cs <+: q := by
            rw [List.prefix_concat_iff, or_iff_right heq]
          rw [if_neg fun h => heq (List.append_cancel_left h), hmade]
          simp only [hle]
    · have hexists : exists_ d.fs (p ++ (q ++ [c])) = true := by
        rw [exists_, h.resolve_names fresh hplace hproper hnone]
        rfl
      rw [JavaFile.mkdirsWith, if_pos hexists, if_neg]
      rintro ⟨hle, hcs⟩
      exact h.there_above hnone hle hcs

/-- **`mkdirs` makes the directories that are missing.** -/
theorem mkdirs_get (fresh : Fresh fs₀ out) {d : Disk} (h : Filling fs₀ out d.fs)
    (hplace : place fs₀ p = some out)
    (hproper : ∀ c ∈ q, Proper c)
    (hfree : ∀ r, r <+: q → ∀ content m, d.fs.get (out ++ r) ≠ some (.file content m))
    (cs : List Name) :
    (JavaFile.mkdirs d (p ++ q)).1.fs.get (out ++ cs) =
      if cs <+: q ∧ d.fs.get (out ++ cs) = none then some (.dir newDirMode) else d.fs.get
        (out ++ cs) := by
  refine h.mkdirsWith_get fresh hplace hproper hfree ?_ cs
  rw [h.canonical_eq fresh hplace (stays_of_proper hproper), collapse_names [] hproper,
    List.nil_append,
    List.length_append]
  omega

end Filling

end WinEmulator.Lib.Fs
