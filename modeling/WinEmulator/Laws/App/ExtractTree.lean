import WinEmulator.Laws.App.ExtractModes

/-!
# A tree that is extracted

A stream in which every directory comes before what is in it, no path comes twice and no name is
special is extracted to exactly what it says: first the directories and files, then the links, then
the modes of the directories. The directories have to grant the search, as the modes are restored
from the top down.
-/

set_option autoImplicit false

namespace WinEmulator.App

open WinEmulator.Lib WinEmulator.Lib.Fs WinEmulator.Lib.JavaFile Archive

/-! ## Streams -/

structure WellOrdered (entries : List TarArchiveEntry) : Prop where
  proper : ∀ e ∈ entries, e.path ≠ [] ∧ ∀ c ∈ e.path, Proper c
  distinct : (entries.map TarArchiveEntry.path).Nodup
  parents : ∀ pre e post, entries = pre ++ e :: post → e.path.dropLast ≠ [] →
    ∃ d ∈ pre, d.isDirectory = true ∧ d.path = e.path.dropLast

namespace WellOrdered

variable {entries : List TarArchiveEntry}

/-- The parent of an entry is a directory of the stream. -/
theorem parent (h : WellOrdered entries) {e : TarArchiveEntry} (he : e ∈ entries)
    (hne : e.path.dropLast ≠ []) :
    ∃ d ∈ entries, d.isDirectory = true ∧ d.path = e.path.dropLast := by
  obtain ⟨pre, post, rfl⟩ := List.append_of_mem he
  obtain ⟨d, hd, hdir⟩ := h.parents pre e post rfl hne
  exact ⟨d, List.mem_append_left _ hd, hdir⟩

/-- And so is every path on the way to it. -/
theorem ancestor (h : WellOrdered entries) {e : TarArchiveEntry} (he : e ∈ entries) {q : List Name}
    (hq : q ≠ [])
    (hle : q <+: e.path) (hne : q ≠ e.path) : ∃ d ∈ entries, d.isDirectory = true ∧ d.path = q := by
  generalize hn : e.path.length = n
  induction n generalizing e with
  | zero =>
    rw [List.length_eq_zero_iff.mp hn] at hle
    exact absurd (List.prefix_nil.mp hle) hq
  | succ n ih =>
    obtain ⟨q', c, heq⟩ : ∃ q' c, e.path = q' ++ [c] := by
      cases hpath : e.path using List.reverseRecOn with
      | nil => rw [hpath] at hn; cases hn
      | append_singleton q' c => exact ⟨q', c, rfl⟩
    rw [heq] at hle hne
    have hle' : q <+: q' := by
      rcases List.prefix_concat_iff.mp hle with heq' | hle'
      · exact absurd heq' hne
      · exact hle'
    have hdrop : e.path.dropLast = q' := by rw [heq, List.dropLast_concat]
    have hq' : q' ≠ [] := by
      rintro rfl
      exact hq (List.prefix_nil.mp hle')
    obtain ⟨d, hd, hdir, hpath⟩ := h.parent he (hdrop.symm ▸ hq')
    rw [hdrop] at hpath
    by_cases hsame : q = q'
    · exact ⟨d, hd, hdir, hpath.trans hsame.symm⟩
    · refine ih hd (hpath.symm ▸ hle') (hpath.symm ▸ hsame) ?_
      rw [heq, List.length_append, List.length_singleton] at hn
      rw [hpath]
      omega

/-- So nothing lies below what is no directory. -/
theorem layered (h : WellOrdered entries) : Layered entries where
  proper := h.proper
  distinct := h.distinct
  leaves := by
    intro e he leaf hleaf hleafDir hle
    by_contra hne
    obtain ⟨d, hd, hdir, hpath⟩ := h.ancestor he (h.proper leaf hleaf).1 hle hne
    obtain rfl : d = leaf := List.inj_on_of_nodup_map h.distinct hd hleaf hpath
    rw [hleafDir] at hdir
    cases hdir

end WellOrdered

/-! ## What stands below the directory -/

/-- Below the directory there is what a function says of the entries, and nothing else. -/
structure Holds (fs₀ : FileSystem) (out : Loc) (entries : List TarArchiveEntry)
    (f : TarArchiveEntry → Option Node)
    (fs : FileSystem) : Prop where
  outside : ∀ l, ¬ out <+: l → fs.get l = fs₀.get l
  top : fs.get out = fs₀.get out
  there : ∀ e ∈ entries, fs.get (out ++ e.path) = f e
  others : ∀ cs, cs ≠ [] → (∀ e ∈ entries, e.path ≠ cs) → fs.get (out ++ cs) = none

section Passes

variable {fs₀ fs : FileSystem} {out : Loc} {outDir : Path} {entries : List TarArchiveEntry}
  {f : TarArchiveEntry → Option Node}

/-- Nothing is laid out between the entries. -/
theorem Laid.holds (horder : WellOrdered entries) (h : Laid fs₀ out entries f fs) :
    Holds fs₀ out entries f fs where
  outside := h.outside
  top := h.top
  there := h.there
  others := by
    intro cs hcs hnot
    refine h.others cs hcs fun e he hle => ?_
    obtain ⟨d, hd, -, hpath⟩ := horder.ancestor he hcs hle (Ne.symm (hnot e he))
    exact hnot d hd hpath

/-! ## All passes -/

/-- What a stream has to meet beside its order. -/
structure Extractable (outDir : Path) (entries : List TarArchiveEntry) : Prop where
  links : ∀ e ∈ entries, e.isPutOff = true → e.linkName ≠ [] ∧ isL2s (e.symLink outDir) = false
  modes : ∀ e ∈ entries, e.isDirectory = true → grants (modeBits e.mode) .search = true
  l2s : ∀ e ∈ entries, e.path ≠ [".l2s".toList]

/-- **A well-ordered stream is extracted to what it says.** -/
theorem decompress_holds (fresh : Fresh fs₀ out) (hplace : place fs₀ outDir = some out)
    (horder : WellOrdered entries)
    (hextractable : Extractable outDir entries) (log : List Effect) :
    Holds fs₀ out entries (fun e => some e.node)
      (decompressCompressedTarStream id outDir ⟨fs₀, log⟩ entries).fs := by
  have target := target_of_place fresh hplace
  have hlinked :=
    (extractEntries_unpacked fresh hplace horder.layered log).linked target horder.layered
    fun e he hputOff => (hextractable.links e he hputOff).1
  have hnone : (linkedDisk outDir ⟨fs₀, log⟩ entries).fs.get (out ++ [".l2s".toList]) = none :=
    (hlinked.holds horder).others _ (List.cons_ne_nil _ _) hextractable.l2s
  refine (decompress_laid fresh hplace horder.layered hextractable.links log
    (hlinked.l2s_left target (fun m hdir => ?_) fun t hlink => ?_)
      fun upper e hsub hdir _ _ hsearch => ?_).holds horder
  · rw [hnone] at hdir
    cases hdir
  · rw [hnone] at hlink
    cases hlink
  · rw [hextractable.modes upper (hsub.subset List.mem_cons_self) hdir] at hsearch
    cases hsearch

end Passes

end WinEmulator.App
