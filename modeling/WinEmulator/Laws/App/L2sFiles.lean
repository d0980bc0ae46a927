import WinEmulator.Laws.App.ExtractLayout

/-!
# What the clean-up of another proot's files deletes

For a link whose name or target begins with `.l2s.` the clean-up deletes the link and what has the
target's name beside it and in `.l2s`. It asks no more about these files: where only the link has
such a name, the target's is any. What becomes of a file that was in the way of such a link, and of
a directory with such a link to the root, is left open: the link was not made, and the target has no
name.
-/

set_option autoImplicit false

namespace WinEmulator.App.L2sFiles

open WinEmulator.Lib WinEmulator.Lib.Fs WinEmulator.Lib.JavaFile Archive

variable {fs : FileSystem} {outDir : Path} {symLinkList : List SymLink} {l : Loc}

/-! ## What is to hold -/

/-- It stands where `delL2s` looks for one of the links. -/
def AtL2sFile (fs : FileSystem) (outDir : Path) (symLinkList : List SymLink) (l : Loc) : Prop :=
  ∃ item ∈ symLinkList, isL2s item = true ∧ ∃ p ∈ l2sFiles outDir item, place fs p = some l

def InL2sDir (fs : FileSystem) (outDir : Path) (l : Loc) : Prop :=
  ∃ top, place fs (l2sDir outDir) = some top ∧ top <+: l

/-- One of the links whose own name or whose target's begins with `.l2s.`. -/
def IsL2sLink (fs : FileSystem) (symLinkList : List SymLink) (l : Loc) : Prop :=
  ∃ item ∈ symLinkList, isL2s item = true ∧ place fs item.symlink = some l ∧ ∃ target,
    fs.get l = some (.link target)

/-- It has the name of such a link's target, beside the link or in `.l2s`. -/
def HasTargetName (fs : FileSystem) (outDir : Path) (symLinkList : List SymLink) (l : Loc) : Prop :=
  ∃ item ∈ symLinkList, isL2s item = true ∧ getName (components item.pointTo) ≠ [] ∧
    ∃ dir ∈ [item.symlink.dropLast, l2sDir outDir],
      place fs (child dir (getName (components item.pointTo))) = some l

/-- It stands where such a link was to be made and is none, or the target of such a link in it has
no name. -/
def LeftOpen (fs : FileSystem) (symLinkList : List SymLink) (l : Loc) : Prop :=
  ∃ item ∈ symLinkList, isL2s item = true ∧
    (place fs item.symlink = some l ∧ (∀ target, fs.get l ≠ some (.link target)) ∨
      getName (components item.pointTo) = [] ∧ place fs item.symlink.dropLast = some l)

/-- It emulates a link: it is in `.l2s`, or one of the links, or a file with such a name. -/
def EmulatesLink (fs : FileSystem) (outDir : Path) (symLinkList : List SymLink) (l : Loc) : Prop :=
  InL2sDir fs outDir l ∨
    IsL2sLink fs symLinkList l ∨
    ".l2s.".toList.isPrefixOf (getName l) = true ∧ ∃ node, fs.get l = some node ∧ node.isDir = false

/-- What changes is deleted, and is one of these. -/
def DeletesOnly (allowed : Loc → Prop) (fs fs' : FileSystem) : Prop :=
  ∀ l, fs'.get l = fs.get l ∨ fs'.get l = none ∧ allowed l

/-- Nothing is left in a directory that is deleted, other than `.l2s`. -/
def EmptiedFirst (fs : FileSystem) (outDir : Path) (fs' : FileSystem) : Prop :=
  ∀ l m, fs.get l = some (.dir m) → fs'.get l = none → ¬ InL2sDir fs outDir l →
    ∀ c, fs'.get (l ++ [c]) = none

/-! ## The run of all deletions -/

/-- What the clean-up has done so far. -/
structure Cleaned (fs : FileSystem) (outDir : Path) (symLinkList : List SymLink)
    (fs' : FileSystem) : Prop where
  only : DeletesOnly (fun l => AtL2sFile fs outDir symLinkList l ∨ InL2sDir fs outDir l) fs fs'
  emptied : EmptiedFirst fs outDir fs'

theorem Cleaned.start (fs : FileSystem) (outDir : Path) (symLinkList : List SymLink) :
    Cleaned fs outDir symLinkList fs := by
  refine ⟨fun l => .inl rfl, fun l m hdir hnone => ?_⟩
  rw [hdir] at hnone
  cases hnone

theorem DeletesOnly.shrinks {allowed : Loc → Prop} {fs' : FileSystem}
    (h : DeletesOnly allowed fs fs') : Shrinks fs fs' :=
  fun l => (h l).imp_right And.left

/-- Deleting a file of an L2S link keeps `Cleaned`. -/
theorem Cleaned.delete {d : Disk} {p : Path} (h : Cleaned fs outDir symLinkList d.fs)
    (hp : ∃ item ∈ symLinkList, isL2s item = true ∧ p ∈ l2sFiles outDir item) :
    Cleaned fs outDir symLinkList (JavaFile.delete d p).fs := by
  obtain heq | ⟨l, hl, heq, hempty⟩ := delete_cases d p
  · rw [heq]
    exact h
  obtain ⟨item, hitem, hl2s, hmem⟩ := hp
  have hat : AtL2sFile fs outDir symLinkList l :=
    ⟨item, hitem, hl2s, p, hmem, h.only.shrinks.grows.place hl⟩
  rw [heq]
  constructor
  · intro l'
    rw [get_apply_none]
    split
    case isTrue hsame => exact .inr ⟨rfl, .inl (hsame ▸ hat)⟩
    case isFalse => exact h.only l'
  · intro l' m hdir hnone hout c
    rw [get_apply_none] at hnone ⊢
    split
    case isTrue => rfl
    case isFalse =>
      by_cases hsame : l' = l
      · subst hsame
        rcases h.only l' with hkept | ⟨hgone, -⟩
        · exact children_eq_nil_iff.mp (hempty m (hkept.trans hdir)) c
        · exact h.emptied l' m hdir hgone hout c
      · rw [if_neg hsame] at hnone
        exact h.emptied l' m hdir hnone hout c

theorem Cleaned.deleteAll {paths : List Path} {d : Disk} (h : Cleaned fs outDir symLinkList d.fs)
    (hpaths : ∀ p ∈ paths, ∃ item ∈ symLinkList, isL2s item = true ∧ p ∈ l2sFiles outDir item) :
    Cleaned fs outDir symLinkList (paths.foldl JavaFile.delete d).fs := by
  induction paths generalizing d with
  | nil => exact h
  | cons p paths ih =>
    obtain ⟨hp, hrest⟩ := List.forall_mem_cons.mp hpaths
    exact ih (h.delete hp) hrest

/-- Deleting the files of some L2S links keeps `Cleaned`. -/
theorem Cleaned.items {items : List SymLink} {d : Disk} (h : Cleaned fs outDir symLinkList d.fs)
    (hitems : ∀ item ∈ items, item ∈ symLinkList ∧ isL2s item = true) :
    Cleaned fs outDir symLinkList
      (items.foldl (fun d item => (l2sFiles outDir item).foldl JavaFile.delete d) d).fs := by
  induction items generalizing d with
  | nil => exact h
  | cons item items ih =>
    obtain ⟨hitem, hrest⟩ := List.forall_mem_cons.mp hitems
    exact ih (h.deleteAll fun p hp => ⟨item, hitem.1, hitem.2, hp⟩) hrest

/-- Deleting the L2S directory keeps `Cleaned`. -/
theorem Cleaned.deleteDirectory {d : Disk} (h : Cleaned fs outDir symLinkList d.fs) :
    Cleaned fs outDir symLinkList (JavaFile.deleteDirectory d (l2sDir outDir)).fs := by
  cases htop : place d.fs (l2sDir outDir) with
  | none =>
    rw [deleteDirectory_of_none htop]
    exact h
  | some top =>
    have htop' := h.only.shrinks.grows.place htop
    have hwithin := deleteDirectory_within htop
    have hshrinks := shrinks_deleteDirectory d (l2sDir outDir)
    constructor
    · intro l
      by_cases hle : top <+: l
      · rcases hshrinks l with hsame | hgone
        · rw [hsame]
          exact h.only l
        · exact .inr ⟨hgone, .inr ⟨top, htop', hle⟩⟩
      · rw [hwithin.outside l hle]
        exact h.only l
    · intro l m hdir hnone hout c
      have hle : ¬ top <+: l := fun hle => hout ⟨top, htop', hle⟩
      rw [hwithin.outside l hle] at hnone
      have hgone := h.emptied l m hdir hnone hout c
      exact (hshrinks (l ++ [c])).elim (fun hsame => hsame.trans hgone) id

/-- **The clean-up is clean.** -/
theorem cleaned_fixL2sFiles (d : Disk) (outDir : Path) (symLinkList : List SymLink) :
    Cleaned d.fs outDir symLinkList (fixL2sFiles outDir d symLinkList).fs := by
  have hitems : ∀ item ∈ symLinkList.filter isL2s, item ∈ symLinkList ∧
      isL2s item = true := fun item hitem =>
    List.mem_filter.mp hitem
  exact ((Cleaned.start d.fs outDir symLinkList).items hitems).deleteDirectory

/-- What stands where `delL2s` looks is one of the links, or has the name of a target, or is in
`.l2s`. -/
theorem AtL2sFile.cases (h : AtL2sFile fs outDir symLinkList l)
    (hopen : ¬LeftOpen fs symLinkList l) :
    IsL2sLink fs symLinkList l ∨ HasTargetName fs outDir symLinkList l ∨ InL2sDir fs outDir l := by
  obtain ⟨item, hitem, hl2s, p, hp, hplace⟩ := h
  by_cases hname : getName (components item.pointTo) = []
  · simp only [l2sFiles, child, hname, if_true, List.mem_cons, List.not_mem_nil, or_false] at hp
    rcases hp with rfl | rfl | rfl
    · by_cases hlink : ∃ target, fs.get l = some (.link target)
      · exact .inl ⟨item, hitem, hl2s, hplace, hlink⟩
      · exact absurd ⟨item, hitem, hl2s, .inl ⟨hplace, not_exists.mp hlink⟩⟩ hopen
    · exact absurd ⟨item, hitem, hl2s, .inr ⟨hname, hplace⟩⟩ hopen
    · exact .inr (.inr ⟨l, hplace, List.prefix_rfl⟩)
  · simp only [l2sFiles, List.mem_cons, List.not_mem_nil, or_false] at hp
    rcases hp with rfl | rfl | rfl
    · by_cases hlink : ∃ target, fs.get l = some (.link target)
      · exact .inl ⟨item, hitem, hl2s, hplace, hlink⟩
      · exact absurd ⟨item, hitem, hl2s, .inl ⟨hplace, not_exists.mp hlink⟩⟩ hopen
    · exact .inr (.inl ⟨item, hitem, hl2s, hname, _, List.mem_cons_self, hplace⟩)
    · exact .inr
        (.inl ⟨item, hitem, hl2s, hname, _, List.mem_cons_of_mem _ List.mem_cons_self, hplace⟩)

/-- **The clean-up deletes only `.l2s`, the links, and what has the names of their targets,** a
directory only after everything in it; so only what emulates a link, where nothing else has these
names. -/
theorem fixL2sFiles_deletes_only (d : Disk) (outDir : Path) (symLinkList : List SymLink) :
    (∀ l, ¬LeftOpen d.fs symLinkList l →
        (fixL2sFiles outDir d symLinkList).fs.get l = d.fs.get l ∨
          (fixL2sFiles outDir d symLinkList).fs.get l = none ∧
            (IsL2sLink d.fs symLinkList l ∨ HasTargetName d.fs outDir symLinkList l ∨
              InL2sDir d.fs outDir l)) ∧
      EmptiedFirst d.fs outDir (fixL2sFiles outDir d symLinkList).fs ∧
      ((∀ l, AtL2sFile d.fs outDir symLinkList l → d.fs.get l ≠ none →
        EmulatesLink d.fs outDir symLinkList l) →
        DeletesOnly (EmulatesLink d.fs outDir symLinkList) d.fs
          (fixL2sFiles outDir d symLinkList).fs) := by
  obtain ⟨honly, hemptied⟩ := cleaned_fixL2sFiles d outDir symLinkList
  refine ⟨fun l hopen => ?_, hemptied, fun hnames l => ?_⟩
  · rcases honly l with hkept | ⟨hgone, hat | hin⟩
    · exact .inl hkept
    · exact .inr ⟨hgone, hat.cases hopen⟩
    · exact .inr ⟨hgone, .inr (.inr hin)⟩
  · rcases honly l with hkept | ⟨hgone, hat⟩
    · exact .inl hkept
    · cases hget : d.fs.get l with
      | none => exact .inl hgone
      | some node =>
        refine .inr ⟨hgone, ?_⟩
        rcases hat with hat | hin
        · exact hnames l hat (by rw [hget]; exact Option.some_ne_none _)
        · exact .inl hin

/-- An empty directory to extract to. -/
def emptyTree : FileSystem where
  entries := [(["out".toList], .dir 0o700)]
  nodup := by decide

def outPath : Path := ["out".toList]

/-- The disk once the links are made, and their list. -/
def extractedLinks (archive : List TarArchiveEntry) : Disk × List SymLink :=
  let x := extractEntries id outPath ⟨emptyTree, []⟩ archive
  (createSymLinks x.disk x.symLinkList, x.symLinkList)

/-- A file with a second name. -/
def hardLinked : Disk × List SymLink :=
  extractedLinks
    [⟨".l2s.notes0001".toList, .normal, [], 0o644, []⟩,
      ⟨"notes".toList, .symlink, "/out/.l2s.notes0001".toList, 0o777, []⟩]

theorem fixL2sFiles_hardLinked :
    DeletesOnly (EmulatesLink hardLinked.1.fs outPath hardLinked.2) hardLinked.1.fs
      (fixL2sFiles outPath hardLinked.1 hardLinked.2).fs := by
  refine (fixL2sFiles_deletes_only hardLinked.1 outPath hardLinked.2).2.2 ?_
  rintro l ⟨item, hitem, -, p, hp, hplace⟩ hthere
  have hlist :
      hardLinked.2 =
        [⟨["out", "notes"].map String.toList, "/out/.l2s.notes0001".toList⟩] := by decide +kernel
  have hfiles :
      l2sFiles outPath ⟨["out", "notes"].map String.toList, "/out/.l2s.notes0001".toList⟩ =
      [["out", "notes"].map String.toList, ["out", ".l2s.notes0001"].map String.toList,
        ["out", ".l2s", ".l2s.notes0001"].map String.toList] := by decide +kernel
  rw [hlist, List.mem_singleton] at hitem
  subst hitem
  rw [hfiles] at hp
  have hnotes :
      place hardLinked.1.fs (["out", "notes"].map String.toList) =
        some (["out", "notes"].map String.toList) := by
    decide +kernel
  have hother : place hardLinked.1.fs (["out", ".l2s.notes0001"].map String.toList) =
      some (["out", ".l2s.notes0001"].map String.toList) := by decide +kernel
  simp only [List.mem_cons, List.not_mem_nil, or_false] at hp
  rcases hp with rfl | rfl | rfl
  · obtain rfl := Option.some.inj (hnotes.symm.trans hplace)
    refine .inr (.inl
      ⟨_, hlist ▸ List.mem_singleton_self _, by decide +kernel, hnotes,
      "/out/.l2s.notes0001".toList, ?_⟩)
    decide +kernel
  · obtain rfl := Option.some.inj (hother.symm.trans hplace)
    refine .inr (.inr ⟨by decide +kernel, .file [] 0o644, ?_, rfl⟩)
    decide +kernel
  · have hnone :
        place hardLinked.1.fs (["out", ".l2s", ".l2s.notes0001"].map String.toList) =
          none := by decide +kernel
    rw [hnone] at hplace
    cases hplace

/-- A link called `.l2s.a` beside the file that it points to, a file in the place of a link, and a
directory with a link to the root. -/
def otherFiles : Disk × List SymLink :=
  extractedLinks
    [⟨"passwd".toList, .normal, [], 0o644, []⟩,
      ⟨".l2s.a".toList, .symlink, "passwd".toList, 0o777, []⟩,
      ⟨"notes".toList, .normal, [], 0o644, []⟩,
        ⟨"notes".toList, .symlink, ".l2s.b".toList, 0o777, []⟩,
      ⟨"dir/.l2s.c".toList, .symlink, "/".toList, 0o777, []⟩]

/-- The two files and the directory go. -/
theorem fixL2sFiles_otherFiles :
    (∀ name ∈ ["passwd", "notes", "dir"],
        otherFiles.1.fs.get ["out".toList, name.toList] ≠ none ∧
          (fixL2sFiles outPath otherFiles.1 otherFiles.2).fs.get
            ["out".toList, name.toList] = none ∧
            ¬ EmulatesLink otherFiles.1.fs outPath otherFiles.2 ["out".toList, name.toList]) ∧
      ¬ ∀ (d : Disk) (outDir : Path) (symLinkList : List SymLink),
        DeletesOnly (EmulatesLink d.fs outDir symLinkList) d.fs
          (fixL2sFiles outDir d symLinkList).fs := by
  have hdir : place otherFiles.1.fs (l2sDir outPath) =
    some (["out", ".l2s"].map String.toList) := by decide +kernel
  have hdeleted : ∀ name ∈ ["passwd", "notes", "dir"],
      (otherFiles.1.fs.get ["out".toList, name.toList] = some (.file [] 0o644) ∨
          otherFiles.1.fs.get ["out".toList, name.toList] = some (.dir 0o700)) ∧
        (fixL2sFiles outPath otherFiles.1 otherFiles.2).fs.get ["out".toList, name.toList] = none ∧
          ¬ (["out", ".l2s"].map String.toList) <+: ["out".toList, name.toList] ∧
            ¬ ".l2s.".toList.isPrefixOf (getName ["out".toList, name.toList]) = true := by
    decide +kernel
  have hothers : ∀ name ∈ ["passwd", "notes", "dir"],
      otherFiles.1.fs.get ["out".toList, name.toList] ≠ none ∧
        (fixL2sFiles outPath otherFiles.1 otherFiles.2).fs.get ["out".toList, name.toList] = none ∧
          ¬ EmulatesLink otherFiles.1.fs outPath otherFiles.2 ["out".toList, name.toList] := by
    intro name hname
    obtain ⟨hnode, hgone, houtside, hprefix⟩ := hdeleted name hname
    refine ⟨by rcases hnode with h | h <;> rw [h] <;> exact Option.some_ne_none _, hgone, ?_⟩
    rintro (⟨top, htop, hle⟩ | ⟨item, -, -, -, target, hlink⟩ | ⟨hname', -⟩)
    · exact houtside (Option.some.inj (hdir.symm.trans htop) ▸ hle)
    · rw [hlink] at hnode
      rcases hnode with h | h <;> cases h
    · exact hprefix hname'
  refine ⟨hothers, fun hall => ?_⟩
  obtain ⟨hthere, hgone, hnot⟩ := hothers "passwd" (by decide)
  rcases hall otherFiles.1 outPath otherFiles.2 ["out".toList, "passwd".toList]
    with hkept | ⟨-, hemulates⟩
  · exact hthere (hkept.symm.trans hgone)
  · exact hnot hemulates

end WinEmulator.App.L2sFiles
