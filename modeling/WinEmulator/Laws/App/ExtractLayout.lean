import WinEmulator.Laws.App.ExtractInside
import WinEmulator.Lib.MakeDirs
import WinEmulator.Lib.RelativePath

/-!
# A tree that is extracted in any order

A stream may name a directory after what is in it, or not at all: the parents of an entry are made
with it. When no path comes twice and nothing lies below what is no directory, the first two passes
lay out exactly what the entries say, with new directories between them.
-/

set_option autoImplicit false

namespace WinEmulator.App

open WinEmulator.Lib WinEmulator.Lib.Fs WinEmulator.Lib.JavaFile Archive

/-! ## Names -/

/-- What can stand between two slashes. -/
def Whole (c : Name) : Prop := c ≠ [] ∧ '/' ∉ c

theorem whole_of_mem_components {s : Text} {c : Name} (h : c ∈ components s) : Whole c := by
  obtain ⟨hmem, hne⟩ := List.mem_filter.mp h
  exact ⟨of_decide_eq_true hne, not_mem_of_mem_splitOn hmem⟩

/-! ## Entries -/

/-- The names of an entry's path. -/
def TarArchiveEntry.path (entry : TarArchiveEntry) : List Name := components entry.name

/-- What is to stand at the path of an entry. -/
def TarArchiveEntry.node (entry : TarArchiveEntry) : Node :=
  if entry.isDirectory then .dir (modeBits entry.mode)
  else if entry.isSymbolicLink then .link entry.linkName
  else .file entry.content (modeBits entry.mode)

/-- What stands there after the first pass. -/
def TarArchiveEntry.firstNode (entry : TarArchiveEntry) : Option Node :=
  if entry.isDirectory then some (.dir newDirMode)
  else if entry.isSymbolicLink then none
  else some (.file entry.content (modeBits entry.mode))

/-- What stands there once the links have been made. -/
def TarArchiveEntry.linkedNode (entry : TarArchiveEntry) : Node :=
  if entry.isDirectory then .dir newDirMode else entry.node

theorem name_ne_nil {e : TarArchiveEntry} (h : e.path ≠ []) : e.name ≠ [] := by
  intro hname
  rw [TarArchiveEntry.path, hname] at h
  simp [components] at h

/-! ## Layouts -/

/-- Every path is one of names and comes once, and only directories have something below them. -/
structure Layered (entries : List TarArchiveEntry) : Prop where
  proper : ∀ e ∈ entries, e.path ≠ [] ∧ ∀ c ∈ e.path, Proper c
  distinct : (entries.map TarArchiveEntry.path).Nodup
  leaves : ∀ e ∈ entries, ∀ leaf ∈ entries, leaf.isDirectory = false → leaf.path <+: e.path →
    leaf.path = e.path

namespace Layered

variable {entries : List TarArchiveEntry} {e e' : TarArchiveEntry}

/-- A beginning of a layered stream is layered. -/
theorem upto {more : List TarArchiveEntry} (h : Layered (entries ++ more)) : Layered entries where
  proper e he := h.proper e (List.mem_append_left _ he)
  distinct := by
    have := h.distinct
    rw [List.map_append] at this
    exact this.of_append_left
  leaves e he leaf hleaf :=
    h.leaves e (List.mem_append_left _ he) leaf (List.mem_append_left _ hleaf)

/-- In a layered stream, a path stands once. -/
theorem eq_of_path_eq (h : Layered entries) (he : e ∈ entries) (he' : e' ∈ entries)
    (hpath : e.path = e'.path) : e = e' :=
  List.inj_on_of_nodup_map h.distinct he he' hpath

/-- The last entry has a path of its own. -/
theorem last_path (h : Layered (entries ++ [e])) (he' : e' ∈ entries) : e'.path ≠ e.path := by
  intro heq
  have hdistinct := h.distinct
  rw [List.map_append, List.nodup_append] at hdistinct
  exact hdistinct.2.2 _ (List.mem_map_of_mem he') _ (by simp) heq

/-- What has something below it is a directory. -/
theorem dir_of_below (h : Layered entries) (he : e ∈ entries) (he' : e' ∈ entries)
    (hle : e'.path <+: e.path)
    (hne : e'.path ≠ e.path) : e'.isDirectory = true := by
  by_contra hdir
  exact hne (h.leaves e he e' he' (Bool.eq_false_iff.mpr hdir) hle)

end Layered

/-- Below the directory there is what a function says of the entries, new directories above them,
and nothing else. -/
structure Laid (fs₀ : FileSystem) (out : Loc) (entries : List TarArchiveEntry)
    (f : TarArchiveEntry → Option Node)
    (fs : FileSystem) : Prop where
  outside : ∀ l, ¬ out <+: l → fs.get l = fs₀.get l
  top : fs.get out = fs₀.get out
  there : ∀ e ∈ entries, fs.get (out ++ e.path) = f e
  between : ∀ cs, cs ≠ [] → (∀ e ∈ entries, e.path ≠ cs) → (∃ e ∈ entries, cs <+: e.path) →
    fs.get (out ++ cs) = some (.dir newDirMode)
  others : ∀ cs, cs ≠ [] → (∀ e ∈ entries, ¬ cs <+: e.path) → fs.get (out ++ cs) = none

/-- The directory is empty, and a path leads to it. -/
structure Target (fs₀ : FileSystem) (out : Loc) (outDir : Path) : Prop where
  fresh : Fresh fs₀ out
  ne_nil : out ≠ []
  path : resolve fs₀ false outDir = some out

theorem Target.clear {fs₀ : FileSystem} {out : Loc} {outDir : Path} (h : Target fs₀ out outDir) :
    Clear fs₀ out :=
  walk_clear clear_nil h.path

namespace Laid

variable {fs₀ fs fs' : FileSystem} {out : Loc} {outDir : Path} {entries : List TarArchiveEntry}
  {f g : TarArchiveEntry → Option Node} {e : TarArchiveEntry} {cs : List Name}

/-- Nothing is laid in the fresh directory. -/
theorem start (fresh : Fresh fs₀ out) : Laid fs₀ out [] f fs₀ where
  outside _ _ := rfl
  top := rfl
  there := nofun
  between := by
    rintro cs - - ⟨e, he, -⟩
    cases he
  others cs hcs _ := fresh.empty _ (List.prefix_append _ _) (by simpa using hcs)

/-- What is laid depends on the nodes of the entries alone. -/
theorem congr (h : Laid fs₀ out entries f fs) (heq : ∀ e ∈ entries, f e = g e) :
    Laid fs₀ out entries g fs :=
  { h with there := fun e he => (h.there e he).trans (heq e he) }

/-- Laying entries only adds to the file system. -/
theorem grows (fresh : Fresh fs₀ out) (h : Laid fs₀ out entries f fs) : Grows fs₀ fs :=
  grows_of_outside fresh h.outside h.top

/-- The entries decide what is there. -/
theorem get_eq (h : Laid fs₀ out entries f fs) (h' : Laid fs₀ out entries f fs') (l : Loc) :
    fs'.get l = fs.get l := by
  by_cases hout : out <+: l
  · obtain ⟨cs, rfl⟩ := hout
    by_cases hcs : cs = []
    · rw [hcs, List.append_nil, h.top, h'.top]
    · by_cases hpath : ∃ e ∈ entries, e.path = cs
      · obtain ⟨e, he, rfl⟩ := hpath
        rw [h.there e he, h'.there e he]
      · have hnot : ∀ e ∈ entries, e.path ≠ cs := fun e he heq => hpath ⟨e, he, heq⟩
        by_cases hbelow : ∃ e ∈ entries, cs <+: e.path
        · rw [h.between cs hcs hnot hbelow, h'.between cs hcs hnot hbelow]
        · have hnone : ∀ e ∈ entries, ¬ cs <+: e.path := fun e he hle => hbelow ⟨e, he, hle⟩
          rw [h.others cs hcs hnone, h'.others cs hcs hnone]
  · rw [h.outside l hout, h'.outside l hout]

/-- Another node in the place of an entry. -/
theorem update (h : Laid fs₀ out entries f fs) (hlayered : Layered entries) (he : e ∈ entries)
    (n : Option Node) :
    Laid fs₀ out entries (Function.update f e n) (fs.set (out ++ e.path) n) := by
  have hget :
      ∀ cs, (fs.set (out ++ e.path) n).get (out ++ cs) = if cs = e.path then n else fs.get
        (out ++ cs) :=
    fun cs => get_set_below fs e.path cs n
  refine ⟨fun l hl => ?_, ?_, fun e' he' => ?_, fun cs hcs hnot hbelow => ?_, fun cs hcs hnot => ?_⟩
  · rw [LinkedMap.get_set, if_neg, h.outside l hl]
    rintro rfl
    exact hl (List.prefix_append _ _)
  · rw [LinkedMap.get_set, if_neg, h.top]
    intro heq
    exact (hlayered.proper e he).1 (List.self_eq_append_right.mp heq)
  · rw [hget]
    by_cases hsame : e' = e
    · rw [hsame, if_pos rfl, Function.update_self]
    · rw [if_neg fun hpath => hsame (hlayered.eq_of_path_eq he' he hpath),
        Function.update_of_ne hsame]
      exact h.there e' he'
  · rw [hget, if_neg (Ne.symm (hnot e he))]
    exact h.between cs hcs hnot hbelow
  · have hne : cs ≠ e.path := fun heq => hnot e he (heq ▸ List.prefix_refl cs)
    rw [hget, if_neg hne]
    exact h.others cs hcs hnot

/-! ## The way to an entry -/

/-- Everything above an entry grants what its directories in the stream grant. -/
theorem dirGrants_above (fresh : Fresh fs₀ out) (hout : out ≠ []) (h : Laid fs₀ out entries f fs)
    (hlayered : Layered entries) {a : Access} (he : e ∈ entries)
    (hgrant : ∀ d ∈ entries, d.isDirectory = true → d.path <+: e.path → d.path ≠ e.path →
      ∃ m, f d = some (.dir m) ∧ grants m a = true) (hle : cs <+: e.path) (hne : cs ≠ e.path) :
    dirGrants fs (out ++ cs) a = true := by
  rw [dirGrants, node_of_ne_nil (List.append_ne_nil_of_left_ne_nil hout _)]
  by_cases hcs : cs = []
  · obtain ⟨m, hm, hall⟩ := fresh.dir
    rw [hcs, List.append_nil, h.top, hm]
    exact hall a
  · by_cases hpath : ∃ d ∈ entries, d.path = cs
    · obtain ⟨d, hd, rfl⟩ := hpath
      obtain ⟨m, hm, hgrants⟩ := hgrant d hd (hlayered.dir_of_below he hd hle hne) hle hne
      rw [h.there d hd, hm]
      exact hgrants
    · rw [h.between cs hcs (fun d hd heq => hpath ⟨d, hd, heq⟩) ⟨e, he, hle⟩]
      exact grantsAll_newDirMode a

/-- The way to an entry is clear when the directories above it can be searched. -/
theorem clear (target : Target fs₀ out outDir) (h : Laid fs₀ out entries f fs)
    (hlayered : Layered entries)
    (he : e ∈ entries)
    (hgrant : ∀ d ∈ entries, d.isDirectory = true → d.path <+: e.path → d.path ≠ e.path →
      ∃ m, f d = some (.dir m) ∧ grants m .search = true) : Clear fs (out ++ e.path) :=
  ((h.grows target.fresh).clear target.clear).append (hlayered.proper e he).2 fun _ hle hne =>
    h.dirGrants_above target.fresh target.ne_nil hlayered he hgrant hle hne

end Laid

section Passes

variable {fs₀ fs fs' : FileSystem} {out : Loc} {outDir : Path} {entries : List TarArchiveEntry}
  {f : TarArchiveEntry → Option Node} {e : TarArchiveEntry} {cs : List Name}

/-- A fresh directory that its path leads to is a target. -/
theorem target_of_place (fresh : Fresh fs₀ out) (hplace : place fs₀ outDir = some out) :
    Target fs₀ out outDir :=
  ⟨fresh, ne_nil_of_place_some hplace, resolve_of_place fresh hplace⟩

/-! ## The first pass -/

theorem firstNode_dir (hdir : e.isDirectory = true) : e.firstNode = some (.dir newDirMode) :=
  if_pos hdir

/-- Above the next entry there are only new directories. -/
theorem Laid.above_next (hlayered : Layered (entries ++ [e]))
    (h : Laid fs₀ out entries TarArchiveEntry.firstNode fs)
    (hcs : cs ≠ []) (hle : cs <+: e.path) (hne : cs ≠ e.path) :
    fs.get (out ++ cs) = some (.dir newDirMode) ∨ fs.get (out ++ cs) = none := by
  by_cases hpath : ∃ d ∈ entries, d.path = cs
  · obtain ⟨d, hd, rfl⟩ := hpath
    have hdir :=
      hlayered.dir_of_below (List.mem_append_right _ (List.mem_singleton_self e))
      (List.mem_append_left _ hd)
      hle hne
    exact .inl ((h.there d hd).trans (firstNode_dir hdir))
  · have hnot : ∀ d ∈ entries, d.path ≠ cs := fun d hd heq => hpath ⟨d, hd, heq⟩
    by_cases hbelow : ∃ d ∈ entries, cs <+: d.path
    · exact .inl (h.between cs hcs hnot hbelow)
    · exact .inr (h.others cs hcs fun d hd hle' => hbelow ⟨d, hd, hle'⟩)

/-- And in its place there is one, if it is a directory, or nothing. -/
theorem Laid.at_next (hlayered : Layered (entries ++ [e]))
    (h : Laid fs₀ out entries TarArchiveEntry.firstNode fs) :
    fs.get (out ++ e.path) = none ∨ e.isDirectory = true ∧
      fs.get (out ++ e.path) = some (.dir newDirMode) := by
  have hlast : e ∈ entries ++ [e] := List.mem_append_right _ (List.mem_singleton_self e)
  have hne := (hlayered.proper e hlast).1
  by_cases hbelow : ∃ d ∈ entries, e.path <+: d.path
  · obtain ⟨d, hd, hle⟩ := hbelow
    refine .inr ⟨?_, h.between _ hne (fun d hd => hlayered.last_path hd) ⟨d, hd, hle⟩⟩
    exact hlayered.dir_of_below (List.mem_append_left _ hd) hlast hle
      (Ne.symm (hlayered.last_path hd))
  · exact .inl (h.others _ hne fun d hd hle => hbelow ⟨d, hd, hle⟩)

/-- One more entry. -/
theorem Laid.snoc (hlayered : Layered (entries ++ [e]))
    (h : Laid fs₀ out entries TarArchiveEntry.firstNode fs)
    (houtside : ∀ l, ¬ out <+: l → fs'.get l = fs₀.get l) (htop : fs'.get out = fs₀.get out)
    (hget : ∀ cs, cs ≠ [] → fs'.get (out ++ cs) =
      if cs = e.path then e.firstNode else if cs <+: e.path then some (.dir newDirMode) else fs.get
        (out ++ cs)) :
    Laid fs₀ out (entries ++ [e]) TarArchiveEntry.firstNode fs' := by
  have hlast : e ∈ entries ++ [e] := List.mem_append_right _ (List.mem_singleton_self e)
  refine ⟨houtside, htop, fun e' he' => ?_, fun cs hcs hnot hbelow => ?_, fun cs hcs hnot => ?_⟩
  · rw [hget _ (hlayered.proper e' he').1]
    rcases List.mem_append.mp he' with hmem | hmem
    · rw [if_neg (hlayered.last_path hmem)]
      split
      next hle =>
        exact (firstNode_dir (hlayered.dir_of_below hlast he' hle (hlayered.last_path hmem))).symm
      next => exact h.there e' hmem
    · rw [List.mem_singleton.mp hmem, if_pos rfl]
  · rw [hget cs hcs, if_neg (Ne.symm (hnot e hlast))]
    split
    next => rfl
    next hle =>
      obtain ⟨e', he', hle'⟩ := hbelow
      refine h.between cs hcs (fun d hd => hnot d (List.mem_append_left _ hd)) ⟨e', ?_, hle'⟩
      refine (List.mem_append.mp he').resolve_right fun hmem => ?_
      rw [List.mem_singleton.mp hmem] at hle'
      exact hle hle'
  · have hne : cs ≠ e.path := fun heq => hnot e hlast (heq ▸ List.prefix_refl cs)
    rw [hget cs hcs, if_neg hne, if_neg (hnot e hlast)]
    exact h.others cs hcs fun d hd => hnot d (List.mem_append_left _ hd)

/-- On the way to the next entry there is no file. -/
theorem Laid.not_file (fresh : Fresh fs₀ out) (hlayered : Layered (entries ++ [e]))
    (h : Laid fs₀ out entries TarArchiveEntry.firstNode fs) (hle : cs <+: e.path)
    (content : List UInt8) (m : Mode) :
    fs.get (out ++ cs) ≠ some (.file content m) := by
  intro hget
  by_cases hcs : cs = []
  · obtain ⟨m', hm', -⟩ := fresh.dir
    rw [hcs, List.append_nil, h.top, hm'] at hget
    cases hget
  · by_cases hsame : cs = e.path
    · rw [hsame] at hget
      rcases h.at_next hlayered with hat | ⟨-, hat⟩
      · rw [hat] at hget
        cases hget
      · rw [hat] at hget
        cases hget
    · rcases h.above_next hlayered hcs hle hsame with habove | habove
      · rw [habove] at hget
        cases hget
      · rw [habove] at hget
        cases hget

/-- The next entry gets its parents. -/
structure ParentsMade (fs₀ : FileSystem) (out : Loc) (e : TarArchiveEntry) (fs fs' : FileSystem) :
    Prop where
  filling : Filling fs₀ out fs'
  same : fs'.get (out ++ e.path) = fs.get (out ++ e.path)
  made : ∀ cs, cs ≠ [] → cs ≠ e.path →
    fs'.get (out ++ cs) = if cs <+: e.path then some (.dir newDirMode) else fs.get (out ++ cs)

/-- `mkdirs` makes the parents that are missing, and nothing else. -/
theorem mkdirs_parentsMade (fresh : Fresh fs₀ out) (hplace : place fs₀ outDir = some out) {d : Disk}
    (hlayered : Layered (entries ++ [e])) (hfill : Filling fs₀ out d.fs)
    (h : Laid fs₀ out entries TarArchiveEntry.firstNode d.fs) :
    ParentsMade fs₀ out e d.fs (mkdirs d (outDir ++ e.path).dropLast).1.fs := by
  obtain ⟨hne, hproper⟩ := hlayered.proper e (List.mem_append_right _ (List.mem_singleton_self e))
  have habove : ∀ {cs}, cs ≠ [] → cs <+: e.path → cs ≠ e.path →
      d.fs.get (out ++ cs) = some (.dir newDirMode) ∨ d.fs.get (out ++ cs) = none :=
        h.above_next hlayered
  obtain ⟨q, c, hpath⟩ : ∃ q c, e.path = q ++ [c] := ⟨_, _, (List.dropLast_append_getLast hne).symm⟩
  have hproper' : ∀ c ∈ q, Proper c := fun c hc => hproper c (hpath ▸ List.mem_append_left _ hc)
  have hbefore : q <+: e.path := hpath ▸ List.prefix_append q [c]
  have hmade := hfill.mkdirs_get fresh hplace hproper' fun r hle =>
    h.not_file fresh hlayered (hle.trans hbefore)
  rw [show (outDir ++ e.path).dropLast = outDir ++ q by rw [hpath, dropLast_below]]
  refine ⟨(hfill.mkdirs fresh hplace (stays_of_proper hproper')).1.filling, ?_,
    fun cs hcs hself => ?_⟩
  · rw [hmade, if_neg]
    rintro ⟨hle, -⟩
    rw [hpath] at hle
    exact not_prefix_parent q c hle
  · have hle : cs <+: q ↔ cs <+: e.path := by
      rw [hpath] at hself ⊢
      rw [List.prefix_concat_iff, or_iff_right hself]
    rw [hmade]
    simp only [hle]
    by_cases hle : cs <+: e.path
    · rw [if_pos hle]
      rcases habove hcs hle hself with hdir | hnone
      · rw [hdir, if_neg (by simp)]
      · rw [if_pos ⟨hle, hnone⟩]
    · rw [if_neg hle, if_neg fun h => hle h.1]

/-- And it gets its own directory. -/
theorem ParentsMade.mkdirs_get (fresh : Fresh fs₀ out) (hplace : place fs₀ outDir = some out)
    {d : Disk}
    (hproper : ∀ c ∈ e.path, Proper c) (h : ParentsMade fs₀ out e fs d.fs)
    (hat : fs.get (out ++ e.path) = none ∨ fs.get (out ++ e.path) = some (.dir newDirMode))
    (hcs : cs ≠ []) :
    (mkdirs d (outDir ++ e.path)).1.fs.get (out ++ cs) =
      if cs <+: e.path then some (.dir newDirMode) else fs.get (out ++ cs) := by
  have hget : ∀ r, r ≠ [] → r <+: e.path →
      d.fs.get (out ++ r) = none ∨ d.fs.get (out ++ r) = some (.dir newDirMode) := by
    intro r hr hle
    by_cases hself : r = e.path
    · rw [hself, h.same]
      exact hat
    · rw [h.made r hr hself, if_pos hle]
      exact .inr rfl
  have hfree : ∀ r, r <+: e.path → ∀ content m, d.fs.get (out ++ r) ≠ some (.file content m) := by
    intro r hle content m hfile
    by_cases hr : r = []
    · obtain ⟨m', hm', -⟩ := fresh.dir
      rw [hr, List.append_nil, h.filling.top, hm'] at hfile
      cases hfile
    · rcases hget r hr hle with hnone | hdir
      · rw [hnone] at hfile
        cases hfile
      · rw [hdir] at hfile
        cases hfile
  rw [h.filling.mkdirs_get fresh hplace hproper hfree]
  by_cases hle : cs <+: e.path
  · rw [if_pos hle]
    rcases hget cs hcs hle with hnone | hdir
    · rw [if_pos ⟨hle, hnone⟩]
    · rw [hdir, if_neg (by simp)]
  · rw [if_neg hle, if_neg fun h => hle h.1, h.made cs hcs fun heq =>
      hle (heq ▸ List.prefix_refl _), if_neg hle]

/-- Or its content, with its mode. -/
theorem ParentsMade.write_get (fresh : Fresh fs₀ out) (hplace : place fs₀ outDir = some out)
    {d : Disk}
    (hne : e.path ≠ []) (hproper : ∀ c ∈ e.path, Proper c) (h : ParentsMade fs₀ out e fs d.fs)
    (hnone : fs.get (out ++ e.path) = none) (content : List UInt8) (m : Mode) :
    ∃ effect, writeEffect d.fs (outDir ++ e.path) content = some effect ∧
      ∀ cs, ((d.apply effect).perform (chmodEffect (d.apply effect).fs (outDir ++ e.path) m)).fs.get
        (out ++ cs) =
        if cs = e.path then some (.file content m) else d.fs.get (out ++ cs) := by
  obtain ⟨q, c, hpath⟩ : ∃ q c, e.path = q ++ [c] := ⟨_, _, (List.dropLast_append_getLast hne).symm⟩
  have hdir : ∃ m, d.fs.get (out ++ q) = some (.dir m) := by
    by_cases hq : q = []
    · obtain ⟨m, hm, -⟩ := fresh.dir
      exact ⟨m, by rw [hq, List.append_nil, h.filling.top, hm]⟩
    · refine ⟨newDirMode, ?_⟩
      rw [h.made q hq, if_pos (hpath ▸ List.prefix_append q [c])]
      intro heq
      exact List.cons_ne_nil c [] (List.self_eq_append_right.mp (heq.trans hpath))
  have hfree : d.fs.get (out ++ (q ++ [c])) = none := by rw [← hpath, h.same, hnone]
  rw [hpath] at hproper ⊢
  refine ⟨_, h.filling.writeEffect_eq fresh hplace hproper hdir hfree content, fun cs => ?_⟩
  have hgrows : Grows d.fs (d.apply (out ++ (q ++ [c]), some (.file content newFileMode))).fs :=
    Grows.set (fun _ _ => rfl) hfree _
  have hget :
      ∀ cs, (d.apply (out ++ (q ++ [c]), some (.file content newFileMode))).fs.get (out ++ cs) =
      if cs = q ++ [c] then some (.file content newFileMode) else d.fs.get (out ++ cs) := fun cs =>
    get_set_below d.fs (q ++ [c]) cs _
  have hp := hgrows.resolve (h.filling.resolve_before fresh (resolve_of_place fresh hplace))
  have hclear := hgrows.clear (h.filling.clear_of_dir fresh hplace hproper hdir)
  rw [chmodEffect_below hp hclear ((hget _).trans (if_pos rfl)) nofun]
  refine (get_set_below _ (q ++ [c]) cs _).trans ?_
  by_cases heq : cs = q ++ [c]
  · rw [if_pos heq, if_pos heq]
    rfl
  · rw [if_neg heq, if_neg heq, hget, if_neg heq]

/-- One turn of the loop lays out one more entry. -/
theorem extractEntry_get (fresh : Fresh fs₀ out) (hplace : place fs₀ outDir = some out)
    {x : Extraction}
    (hlayered : Layered (entries ++ [e])) (hfill : Filling fs₀ out x.disk.fs)
    (h : Laid fs₀ out entries TarArchiveEntry.firstNode x.disk.fs) (hcs : cs ≠ []) :
    (extractEntry id outDir x e).disk.fs.get (out ++ cs) =
      if cs = e.path then e.firstNode else if cs <+: e.path then some (.dir newDirMode)
        else x.disk.fs.get (out ++ cs) := by
  obtain ⟨hne, hproper⟩ := hlayered.proper e (List.mem_append_right _ (List.mem_singleton_self e))
  have hmade := mkdirs_parentsMade fresh hplace hlayered hfill h
  have hat := h.at_next hlayered
  simp only [extractEntry, id, if_neg (name_ne_nil hne)]
  rw [show outFile id outDir e = outDir ++ e.path from rfl]
  generalize (mkdirs x.disk (outDir ++ e.path).dropLast).1 = d at hmade ⊢
  have hself : ¬ e.isDirectory = true → x.disk.fs.get (out ++ e.path) = none := fun hdir =>
    hat.resolve_right fun h => hdir h.1
  split
  next hdir =>
    rw [hmade.mkdirs_get fresh hplace hproper (hat.imp id And.right) hcs]
    by_cases heq : cs = e.path
    · rw [if_pos heq, heq, if_pos (List.prefix_refl _), firstNode_dir hdir]
    · rw [if_neg heq]
  next hdir =>
    split
    next hlink =>
      by_cases heq : cs = e.path
      · rw [if_pos heq, heq, hmade.same, hself hdir, TarArchiveEntry.firstNode, if_neg hdir,
          if_pos hlink]
      · rw [if_neg heq, hmade.made cs hcs heq]
    next hlink =>
      obtain ⟨effect, heffect, hget⟩ :=
        hmade.write_get fresh hplace hne hproper (hself hdir) e.content (modeBits e.mode)
      rw [heffect]
      refine (hget cs).trans ?_
      by_cases heq : cs = e.path
      · rw [if_pos heq, if_pos heq, TarArchiveEntry.firstNode, if_neg hdir, if_neg hlink]
      · rw [if_neg heq, if_neg heq, hmade.made cs hcs heq]

/-- What one turn puts off. -/
theorem extractEntry_putsOff (outDir : Path) {e : TarArchiveEntry} (hname : e.name ≠ [])
    (x : Extraction) :
    (extractEntry id outDir x e).symLinkList =
        x.symLinkList ++
          (([e].filter TarArchiveEntry.isPutOff).map (TarArchiveEntry.symLink outDir)) ∧
      (extractEntry id outDir x e).dirModeList =
        x.dirModeList ++ ([e].filter TarArchiveEntry.isDirectory).map fun e =>
          (outDir ++ e.path, e.mode) := by
  simp only [extractEntry, id, if_neg hname]
  by_cases hdir : e.isDirectory = true
  · simp [hdir, TarArchiveEntry.isPutOff, outFile, TarArchiveEntry.path]
  · by_cases hlink : e.isSymbolicLink = true
    · simp [hdir, hlink, hname, TarArchiveEntry.isPutOff, outFile, TarArchiveEntry.symLink]
    · rw [if_neg hdir, if_neg hlink]
      split <;> simp [hdir, hlink, TarArchiveEntry.isPutOff]

/-- What holds after the loop over the entries. -/
structure Unpacked (fs₀ : FileSystem) (out : Loc) (outDir : Path) (entries : List TarArchiveEntry)
    (x : Extraction) :
    Prop where
  filling : Filling fs₀ out x.disk.fs
  laid : Laid fs₀ out entries TarArchiveEntry.firstNode x.disk.fs
  symLinks : x.symLinkList = (entries.filter TarArchiveEntry.isPutOff).map
    (TarArchiveEntry.symLink outDir)
  dirModes : x.dirModeList =
    (entries.filter TarArchiveEntry.isDirectory).map fun e => (outDir ++ e.path, e.mode)

/-- **The first pass.** Reading a layered stream lays the first node of every entry. -/
theorem extractEntries_unpacked (fresh : Fresh fs₀ out) (hplace : place fs₀ outDir = some out)
    (hlayered : Layered entries) (log : List Effect) :
    Unpacked fs₀ out outDir entries (extractEntries id outDir ⟨fs₀, log⟩ entries) := by
  induction entries using List.reverseRecOn with
  | nil => exact ⟨.start fresh, .start fresh, rfl, rfl⟩
  | append_singleton entries e ih =>
    obtain ⟨hfill, hlaid, hlinks, hmodes⟩ := ih hlayered.upto
    have hstep : extractEntries id outDir ⟨fs₀, log⟩ (entries ++ [e])
        = extractEntry id outDir (extractEntries id outDir ⟨fs₀, log⟩ entries) e :=
          List.foldl_concat _ _ _ _
    rw [hstep]
    generalize extractEntries id outDir ⟨fs₀, log⟩ entries = x at hfill hlaid hlinks hmodes ⊢
    obtain ⟨hne, hproper⟩ := hlayered.proper e (List.mem_append_right _ (List.mem_singleton_self e))
    have hstays : Stays [] (components e.name) := stays_of_proper hproper
    have hfill' := (extractEntry_advances fresh hplace hfill hstays).1.filling
    obtain ⟨hlinks', hmodes'⟩ := extractEntry_putsOff outDir (name_ne_nil hne) x
    refine ⟨hfill', ?_, ?_, ?_⟩
    · exact hlaid.snoc hlayered hfill'.outside hfill'.top fun cs hcs =>
        extractEntry_get fresh hplace hlayered hfill hlaid hcs
    · rw [hlinks', hlinks, List.filter_append, List.map_append]
    · rw [hmodes', hmodes, List.filter_append, List.map_append]

/-! ## The links -/

/-- **The second pass.** Creating the links lays each in its place and leaves the rest. -/
theorem createSymLinks_laid {d : Disk} {links : List TarArchiveEntry}
    (target : Target fs₀ out outDir)
    (hlayered : Layered entries) (h : Laid fs₀ out entries f d.fs)
    (hnew : ∀ d ∈ entries, d.isDirectory = true → f d = some (.dir newDirMode))
    (hnodup : links.Nodup)
    (hlinks : ∀ e ∈ links, e ∈ entries ∧ e.isDirectory = false ∧ e.linkName ≠ [] ∧ f e = none) :
    Laid fs₀ out entries (fun e => if e ∈ links then some (.link e.linkName) else f e)
      (createSymLinks d (links.map (TarArchiveEntry.symLink outDir))).fs := by
  induction links generalizing f d with
  | nil => exact h.congr fun e _ => by simp
  | cons e links ih =>
    obtain ⟨he, hdir, htarget, hnone⟩ := hlinks e List.mem_cons_self
    rw [List.nodup_cons] at hnodup
    have hgrant : ∀ a, ∀ d ∈ entries, d.isDirectory = true → d.path <+: e.path → d.path ≠ e.path →
        ∃ m, f d = some (.dir m) ∧ grants m a = true :=
      fun a d hd hdir _ _ => ⟨newDirMode, hnew d hd hdir, grantsAll_newDirMode a⟩
    have hclear := h.clear target hlayered he (hgrant .search)
    have hp := (h.grows target.fresh).resolve target.path
    have hget := (h.there e he).trans hnone
    obtain ⟨q, c, hpath⟩ : ∃ q c, e.path = q ++ [c] :=
      ⟨_, _, (List.dropLast_append_getLast (hlayered.proper e he).1).symm⟩
    have hwrite : dirGrants d.fs (out ++ q) .write = true := by
      refine h.dirGrants_above target.fresh target.ne_nil hlayered he (hgrant .write)
        (hpath ▸ List.prefix_append q [c]) fun heq => ?_
      exact List.cons_ne_nil c [] (List.self_eq_append_right.mp (heq.trans hpath))
    have hcreate :
        symlinkEffect d.fs e.linkName (outDir ++ e.path) =
          some (out ++ e.path, some (.link e.linkName)) := by
      rw [symlinkEffect, if_neg htarget]
      rw [hpath] at hclear hget ⊢
      exact createEffect_below hp hclear hget hwrite _
    have hnext := ih (d := d.apply (out ++ e.path, some (.link e.linkName)))
      (h.update hlayered he (some (.link e.linkName))) ?_ hnodup.2 ?_
    · show Laid fs₀ out entries _
        (createSymLinks (d.perform (symlinkEffect d.fs e.linkName (outDir ++ e.path))) _).fs
      rw [hcreate]
      refine hnext.congr fun e' _ => ?_
      by_cases heq : e' = e
      · rw [heq]
        simp
      · simp [heq]
    · intro d' hd' hdir'
      rw [Function.update_of_ne, hnew d' hd' hdir']
      rintro rfl
      rw [hdir] at hdir'
      cases hdir'
    · intro e' he'
      obtain ⟨hmem, hrest, htarget', hnone'⟩ := hlinks e' (List.mem_cons_of_mem _ he')
      refine ⟨hmem, hrest, htarget', ?_⟩
      rw [Function.update_of_ne, hnone']
      rintro rfl
      exact hnodup.1 he'

/-- What stands after the first two passes. -/
def linkedDisk (outDir : Path) (d : Disk) (entries : List TarArchiveEntry) : Disk :=
  createSymLinks (extractEntries id outDir d entries).disk
    (extractEntries id outDir d entries).symLinkList

/-- What the first two passes lay out. -/
theorem Unpacked.linked {x : Extraction} (target : Target fs₀ out outDir)
    (hlayered : Layered entries)
    (h : Unpacked fs₀ out outDir entries x)
    (hlinks : ∀ e ∈ entries, e.isPutOff = true → e.linkName ≠ []) :
    Laid fs₀ out entries (fun e => some e.linkedNode) (createSymLinks x.disk x.symLinkList).fs := by
  have hputOff : ∀ e ∈ entries.filter TarArchiveEntry.isPutOff,
      e ∈ entries ∧ e.isDirectory = false ∧ e.linkName ≠ [] ∧ e.firstNode = none := by
    intro e he
    obtain ⟨hmem, hputOff⟩ := List.mem_filter.mp he
    obtain ⟨-, hdir, hlink⟩ := isPutOff_parts hputOff
    refine ⟨hmem, hdir, hlinks e hmem hputOff, ?_⟩
    rw [TarArchiveEntry.firstNode, hdir, if_neg (by decide), if_pos hlink]
  rw [h.symLinks]
  refine (createSymLinks_laid target hlayered h.laid (fun _ _ => firstNode_dir)
    (hlayered.distinct.of_map.filter _)
    hputOff).congr fun e he => ?_
  have hname := name_ne_nil (hlayered.proper e he).1
  simp only [List.mem_filter, he, true_and, TarArchiveEntry.linkedNode, TarArchiveEntry.node,
    TarArchiveEntry.firstNode,
    TarArchiveEntry.isPutOff]
  by_cases hdir : e.isDirectory = true
  · simp [hdir]
  · by_cases hlink : e.isSymbolicLink = true
    · simp [hdir, hlink, hname]
    · simp [hdir, hlink]

/-! ## All passes -/

/-- No link is one of another proot. -/
theorem fixL2sFiles_of_not_l2s {d : Disk} {symLinkList : List SymLink}
    (h : ∀ item ∈ symLinkList, isL2s item = false) :
    fixL2sFiles outDir d symLinkList = deleteDirectory d (l2sDir outDir) := by
  have hfilter : symLinkList.filter isL2s = [] := by
    rw [List.filter_eq_nil_iff]
    intro item hitem
    rw [h item hitem]
    exact nofun
  rw [fixL2sFiles, hfilter]
  rfl

/-- The directory is there, and no link is one of another proot: the later passes delete `.l2s` and
restore the modes. -/
theorem decompress_passes (fresh : Fresh fs₀ out) (hplace : place fs₀ outDir = some out)
    (hproper : ∀ e ∈ entries, ∀ c ∈ e.path, Proper c)
    (hl2s : ∀ e ∈ entries, e.isPutOff = true → isL2s (e.symLink outDir) = false)
    (log : List Effect) :
    decompressCompressedTarStream id outDir ⟨fs₀, log⟩ entries =
      restoreDirModes (deleteDirectory (linkedDisk outDir ⟨fs₀, log⟩ entries) (l2sDir outDir))
        (extractEntries id outDir ⟨fs₀, log⟩ entries).dirModeList := by
  have hexists : exists_ fs₀ outDir = true := by
    rw [exists_, resolve_of_place fresh hplace]
    rfl
  have hextracted :
      Extracted fs₀ out outDir entries ⟨fs₀, log⟩ (extractEntries id outDir ⟨fs₀, log⟩ entries) :=
    extractEntries_extracted fresh hplace (.start fresh) fun e he => stays_of_proper (hproper e he)
  rw [decompressCompressedTarStream, if_pos hexists]
  show restoreDirModes (fixL2sFiles outDir (linkedDisk outDir ⟨fs₀, log⟩ entries) _) _ = _
  rw [fixL2sFiles_of_not_l2s]
  intro item hitem
  obtain ⟨e, he, hlink, rfl⟩ := hextracted.symLinks item hitem
  exact hl2s e he hlink

end Passes

end WinEmulator.App
