import WinEmulator.App.Archive
import WinEmulator.Lib.LinkedDir

/-!
# Extraction stays inside

When `decompressCompressedTarStream` keeps to the directory it extracts into. It checks no name, so
a name must not climb out with its double dots; and as there are links when the later passes use the
names, none that was made before a call may stand on the way of the call's path.

What a stream says is often enough to know the second (`confined_of_names`). While the entries are
read there are no links yet, and `mkdirs` seals the parent of every entry; the links come to stand
where nothing was, so the sealed parents keep the later passes on their way unless a name turns
round behind a link, or a link takes the place of `.l2s`.
-/

set_option autoImplicit false

namespace WinEmulator.App

open WinEmulator.Lib WinEmulator.Lib.Fs WinEmulator.Lib.JavaFile Archive

/-- Where the name of an entry leads, from the directory on. -/
def TarArchiveEntry.inside (entry : TarArchiveEntry) : Loc := collapse [] (components entry.name)

/-- The entry is put off to become a link. -/
def TarArchiveEntry.isPutOff (entry : TarArchiveEntry) : Bool :=
  entry.name ≠ [] && !entry.isDirectory && entry.isSymbolicLink

def TarArchiveEntry.symLink (outDir : Path) (entry : TarArchiveEntry) : SymLink :=
  ⟨outDir ++ components entry.name, entry.linkName⟩

/-! ## The calls of the later passes -/

/-- The calls of a pass: the files before each of them, and its path. -/
def calls {α : Type} (path : α → Path) (call : Disk → α → Disk) :
    Disk → List α → List (FileSystem × Path)
  | _, [] => []
  | d, a :: as => (d.fs, path a) :: calls path call (call d a) as

/-- `Os.symlink` for an item of `symLinkList`. -/
def makeSymLink (d : Disk) (item : SymLink) : Disk :=
  d.perform (symlinkEffect d.fs item.pointTo item.symlink)

/-- `Os.chmod` for an item of `dirModeList`. -/
def restoreDirMode (d : Disk) (item : Path × Nat) : Disk :=
  d.perform (chmodEffect d.fs item.1 (modeBits item.2))

/-- The files `fixL2sFiles` deletes, in order. -/
def allL2sFiles (outDir : Path) (symLinkList : List SymLink) : List Path :=
  (symLinkList.filter isL2s).flatMap (l2sFiles outDir)

/-- No name climbs out of the directory, and no link that was made stands on the way of a path that
is used afterwards: of the place of another link, of a file that is deleted, of a directory that
gets its mode. -/
@[mk_iff]
structure Confined (fs₀ : FileSystem) (out : Loc) (outDir : Path) (entries : List TarArchiveEntry) :
    Prop where
  climbs : ∀ entry ∈ entries, Stays [] (components entry.name)
  links : let x := extractEntries id outDir ⟨fs₀, []⟩ entries
    ∀ c ∈ calls SymLink.symlink makeSymLink x.disk x.symLinkList,
      NoLinks c.1 out (c.2.drop outDir.length).dropLast
  deletions : let x := extractEntries id outDir ⟨fs₀, []⟩ entries
    ∀ c ∈ calls id delete (createSymLinks x.disk x.symLinkList) (allL2sFiles outDir x.symLinkList),
      NoLinks c.1 out (c.2.drop outDir.length).dropLast
  modes : let x := extractEntries id outDir ⟨fs₀, []⟩ entries
    ∀ c ∈ calls Prod.fst restoreDirMode
      (fixL2sFiles outDir (createSymLinks x.disk x.symLinkList) x.symLinkList)
        x.dirModeList,
      NoLinks c.1 out (c.2.drop outDir.length)

instance (fs₀ : FileSystem) (out : Loc) (outDir : Path) (entries : List TarArchiveEntry) :
    Decidable (Confined fs₀ out outDir entries) :=
  decidable_of_iff' _ (confined_iff fs₀ out outDir entries)

/-- No name climbs out of the directory or turns round behind a link, and no link takes the place of
`.l2s` while there is something to delete in it. -/
structure NamesConfined (outDir : Path) (entries : List TarArchiveEntry) : Prop where
  climbs : ∀ entry ∈ entries, Stays [] (components entry.name)
  turns : ∀ entry ∈ entries, entry.isDirectory = true ∨ entry.isSymbolicLink = true →
    ∀ link ∈ entries, link.isPutOff = true →
      ∀ mid post, (components entry.name).dropLast = mid ++ dotdot :: post →
        collapse [] mid ≠ link.inside
  l2s : ∀ link ∈ entries, link.isPutOff = true → link.inside = [".l2s".toList] →
    ∀ item ∈ entries, item.isPutOff = true → isL2s (item.symLink outDir) = false

/-- Everything that is created, written, deleted or gets a mode lies in the directory, and outside
it nothing changes. -/
def ExtractsInside (fs₀ : FileSystem) (out : Loc) (outDir : Path) (entries : List TarArchiveEntry) :
    Prop :=
  (∀ e ∈ (decompressCompressedTarStream id outDir ⟨fs₀, []⟩ entries).log, out <+: e.1) ∧
    ∀ l, ¬ out <+: l →
      (decompressCompressedTarStream id outDir ⟨fs₀, []⟩ entries).fs.get l = fs₀.get l

section Passes

variable {fs₀ : FileSystem} {out : Loc} {outDir : Path}

/-! ## The entries -/

/-- One turn of the loop makes nodes and writes files below the directory, and seals the parent of
the entry and the directory an entry stands for. -/
theorem extractEntry_advances (fresh : Fresh fs₀ out) (hplace : place fs₀ outDir = some out)
    {x : Extraction} (h : Filling fs₀ out x.disk.fs) {entry : TarArchiveEntry}
    (hstays : Stays [] (components entry.name)) :
    Advances fs₀ out x.disk (extractEntry id outDir x entry).disk ∧
      (entry.name ≠ [] → Sealed out (extractEntry id outDir x entry).disk.fs
        (out ++ collapse [] (components entry.name).dropLast)) ∧
      (entry.name ≠ [] → entry.isDirectory = true →
        Sealed out (extractEntry id outDir x entry).disk.fs (out ++ entry.inside)) := by
  unfold extractEntry
  by_cases hname : entry.name = []
  · rw [id, if_pos hname]
    exact ⟨.refl h, fun hne => absurd hname hne, fun hne => absurd hname hne⟩
  · rw [id, if_neg hname]
    dsimp only [outFile, id]
    obtain ⟨hparent, hsealed⟩ := h.mkdirs_dropLast fresh hplace hstays
    generalize (mkdirs x.disk (outDir ++ components entry.name).dropLast).1 = d at hparent hsealed ⊢
    split
    next hdir =>
      obtain ⟨hmade, hself⟩ := hparent.filling.mkdirs fresh hplace hstays
      exact ⟨hparent.trans hmade, fun _ => hsealed.mono hmade.same, fun _ _ => hself⟩
    next hdir =>
      split
      next => exact ⟨hparent, fun _ => hsealed, fun _ hd => absurd hd hdir⟩
      next =>
        split
        next e he =>
          obtain ⟨hwritten, m, hfile⟩ := hparent.filling.write fresh hplace hstays he
          have hmode := hwritten.filling.chmod_file fresh hplace hstays hfile (modeBits entry.mode)
          exact ⟨(hparent.trans hwritten).trans hmode,
            fun _ => (hsealed.mono hwritten.same).mono hmode.same, fun _ hd => absurd hd hdir⟩
        next => exact ⟨hparent, fun _ => hsealed, fun _ hd => absurd hd hdir⟩

/-- What holds after the loop over the entries. -/
structure Extracted (fs₀ : FileSystem) (out : Loc) (outDir : Path) (entries : List TarArchiveEntry)
    (d : Disk) (x : Extraction) : Prop where
  advances : Advances fs₀ out d x.disk
  parents : ∀ entry ∈ entries, entry.name ≠ [] →
    Sealed out x.disk.fs (out ++ collapse [] (components entry.name).dropLast)
  dirs : ∀ entry ∈ entries, entry.name ≠ [] → entry.isDirectory = true →
    Sealed out x.disk.fs (out ++ entry.inside)
  symLinks : ∀ item ∈ x.symLinkList, ∃ link ∈ entries, link.isPutOff = true ∧
    item = link.symLink outDir
  dirModes : ∀ item ∈ x.dirModeList, ∃ entry ∈ entries, entry.name ≠ [] ∧ entry.isDirectory = true ∧
    item.1 = outDir ++ components entry.name

/-- What one turn puts off. -/
theorem extractEntry_lists (outDir : Path) (x : Extraction) (entry : TarArchiveEntry) :
    (∀ item ∈ (extractEntry id outDir x entry).symLinkList,
        item ∈ x.symLinkList ∨ entry.isPutOff = true ∧ item = entry.symLink outDir) ∧
      ∀ item ∈ (extractEntry id outDir x entry).dirModeList,
        item ∈ x.dirModeList ∨ entry.name ≠ [] ∧ entry.isDirectory = true ∧
          item.1 = outDir ++ components entry.name := by
  unfold extractEntry
  by_cases hname : entry.name = []
  · rw [id, if_pos hname]
    exact ⟨fun _ hitem => .inl hitem, fun _ hitem => .inl hitem⟩
  · rw [id, if_neg hname]
    dsimp only [outFile, id]
    split
    next hdir =>
      refine ⟨fun _ hitem => .inl hitem, fun item hitem => ?_⟩
      rcases List.mem_append.mp hitem with hold | hnew
      · exact .inl hold
      · rw [List.mem_singleton.mp hnew]
        exact .inr ⟨hname, hdir, rfl⟩
    next hdir =>
      split
      next hlink =>
        refine ⟨fun item hitem => ?_, fun _ hitem => .inl hitem⟩
        rcases List.mem_append.mp hitem with hold | hnew
        · exact .inl hold
        · refine .inr ⟨?_, List.mem_singleton.mp hnew⟩
          simp [TarArchiveEntry.isPutOff, hname, hdir, hlink]
      next =>
        split
        · exact ⟨fun _ hitem => .inl hitem, fun _ hitem => .inl hitem⟩
        · exact ⟨fun _ hitem => .inl hitem, fun _ hitem => .inl hitem⟩

/-- Reading the stream establishes `Extracted`, entry by entry. -/
theorem extractEntries_extracted (fresh : Fresh fs₀ out) (hplace : place fs₀ outDir = some out)
    {d : Disk}
    (h : Filling fs₀ out d.fs) {entries : List TarArchiveEntry}
    (hstays : ∀ entry ∈ entries, Stays [] (components entry.name)) :
    Extracted fs₀ out outDir entries d (extractEntries id outDir d entries) := by
  induction entries using List.reverseRecOn with
  | nil =>
    exact ⟨.refl h, fun _ he => (by cases he), fun _ he => (by cases he), fun _ he => (by cases he),
      fun _ he => (by cases he)⟩
  | append_singleton entries entry ih =>
    have hold := ih fun e he => hstays e (List.mem_append_left _ he)
    have hstep : extractEntries id outDir d (entries ++ [entry])
        = extractEntry id outDir (extractEntries id outDir d entries) entry :=
          List.foldl_concat _ _ _ _
    rw [hstep]
    generalize extractEntries id outDir d entries = x at hold ⊢
    obtain ⟨hadvances, hparent, hdir⟩ :=
      extractEntry_advances fresh hplace hold.advances.filling (hstays entry (by simp))
    obtain ⟨hsymLinks, hdirModes⟩ := extractEntry_lists outDir x entry
    refine ⟨hold.advances.trans hadvances, ?_, ?_, ?_, ?_⟩
    · intro e he hname
      rcases List.mem_append.mp he with he | he
      · exact (hold.parents e he hname).mono hadvances.same
      · cases List.mem_singleton.mp he
        exact hparent hname
    · intro e he hname hd
      rcases List.mem_append.mp he with he | he
      · exact (hold.dirs e he hname hd).mono hadvances.same
      · cases List.mem_singleton.mp he
        exact hdir hname hd
    · intro item hitem
      rcases hsymLinks item hitem with hitem | ⟨hputOff, heq⟩
      · obtain ⟨link, hlink, hrest⟩ := hold.symLinks item hitem
        exact ⟨link, List.mem_append_left _ hlink, hrest⟩
      · exact ⟨entry, by simp, hputOff, heq⟩
    · intro item hitem
      rcases hdirModes item hitem with hitem | hrest
      · obtain ⟨e, he, hrest⟩ := hold.dirModes item hitem
        exact ⟨e, List.mem_append_left _ he, hrest⟩
      · exact ⟨entry, by simp, hrest⟩

/-! ## The links -/

/-- What holds of a disk before each call of a pass. -/
theorem calls_forall {α : Type} {path : α → Path} {call : Disk → α → Disk}
    {P : FileSystem × Path → Prop}
    {I : Disk → Prop} {as : List α} (step : ∀ a ∈ as, ∀ d, I d → I (call d a))
    (good : ∀ a ∈ as, ∀ d, I d → P (d.fs, path a)) {d : Disk} (h : I d) :
    ∀ c ∈ calls path call d as, P c := by
  induction as generalizing d with
  | nil =>
    intro c hc
    cases hc
  | cons a as ih =>
    intro c hc
    rcases List.mem_cons.mp hc with rfl | hc
    · exact good a List.mem_cons_self d h
    · exact ih (fun b hb => step b (List.mem_cons_of_mem _ hb))
        (fun b hb => good b (List.mem_cons_of_mem _ hb))
        (step a List.mem_cons_self d h) c hc

theorem stays_dropLast {cs : List Name} (h : Stays [] cs) : Stays [] cs.dropLast :=
  stays_prefix_mem h (List.dropLast_prefix cs)

variable {links : Loc → Prop}

/-- One link comes to stand below the directory if no other one is on its way. -/
theorem makeSymLink_linked (fresh : Fresh fs₀ out) (hplace : place fs₀ outDir = some out) {d : Disk}
    (h : Linked fs₀ out links d.fs) {item : SymLink} {cs : List Name}
    (hpath : item.symlink = outDir ++ cs)
    (hstays : Stays [] cs.dropLast) (hlink : links (out ++ collapse [] cs))
    (hclear : NoLinks d.fs out cs.dropLast) :
    Linked fs₀ out links (makeSymLink d item).fs ∧ Within out d (makeSymLink d item) ∧
      SameKind d.fs (makeSymLink d item).fs := by
  unfold makeSymLink symlinkEffect
  rw [hpath]
  split
  · exact ⟨h, .refl out d, .refl d.fs⟩
  · cases he : createEffect d.fs (outDir ++ cs) (.link item.pointTo) with
    | none => exact ⟨h, .refl out d, .refl d.fs⟩
    | some e => exact h.createEffect fresh hplace hstays hclear hlink he

/-- So do all of them. -/
theorem createSymLinks_linked (fresh : Fresh fs₀ out) (hplace : place fs₀ outDir = some out)
    {d : Disk}
    (h : Linked fs₀ out links d.fs) {symLinkList : List SymLink}
    (hlist : ∀ item ∈ symLinkList, ∃ cs, item.symlink = outDir ++ cs ∧ Stays [] cs.dropLast ∧
      links (out ++ collapse [] cs))
    (hclear : ∀ c ∈ calls SymLink.symlink makeSymLink d symLinkList,
      NoLinks c.1 out (c.2.drop outDir.length).dropLast) :
    Linked fs₀ out links (createSymLinks d symLinkList).fs ∧
      Within out d (createSymLinks d symLinkList) ∧
      SameKind d.fs (createSymLinks d symLinkList).fs := by
  induction symLinkList generalizing d with
  | nil => exact ⟨h, .refl out d, .refl d.fs⟩
  | cons item rest ih =>
    obtain ⟨cs, hpath, hstays, hlink⟩ := hlist item List.mem_cons_self
    have hfirst := hclear _ List.mem_cons_self
    rw [hpath, List.drop_left] at hfirst
    obtain ⟨hlinked, hwithin, hsame⟩ := makeSymLink_linked fresh hplace h hpath hstays hlink hfirst
    obtain ⟨hlinked', hwithin', hsame'⟩ :=
      ih hlinked (fun i hi => hlist i (List.mem_cons_of_mem _ hi))
      fun c hc => hclear c (List.mem_cons_of_mem _ hc)
    exact ⟨hlinked', hwithin.trans hwithin', hsame.trans hsame'⟩

/-! ## What a foreign proot left -/

/-- A name that does not end with a slash has a last component. -/
theorem components_ne_nil {s : Text} (hs : s ≠ []) (hlast : s.getLast? ≠ some '/') :
    components s ≠ [] := by
  have hmain : ∃ c ∈ s.splitOn '/', c ≠ [] := by
    by_cases hslash : '/' ∈ s
    · obtain ⟨a, b, heq, ha⟩ := List.eq_append_cons_of_mem (List.mem_reverse.mpr hslash)
      have hs' : s = b.reverse ++ '/' :: a.reverse := by
        rw [← List.reverse_reverse s, heq]
        simp
      have ha' : '/' ∉ a.reverse := fun h => ha (List.mem_reverse.mp h)
      refine ⟨a.reverse, ?_, fun hnil => hlast ?_⟩
      · rw [hs', List.splitOn_append_cons_self, List.splitOn_eq_singleton ha']
        simp
      · rw [hs', hnil, List.getLast?_concat]
    · rw [List.splitOn_eq_singleton hslash]
      exact ⟨s, List.mem_singleton_self s, hs⟩
  obtain ⟨c, hc, hne⟩ := hmain
  exact List.ne_nil_of_mem (List.mem_filter.mpr ⟨hc, by simpa using hne⟩)

theorem isPutOff_parts {entry : TarArchiveEntry} (h : entry.isPutOff = true) :
    entry.name ≠ [] ∧ entry.isDirectory = false ∧ entry.isSymbolicLink = true := by
  simpa [TarArchiveEntry.isPutOff, and_assoc] using h

theorem components_ne_nil_of_isPutOff {entry : TarArchiveEntry} (h : entry.isPutOff = true) :
    components entry.name ≠ [] := by
  obtain ⟨hname, hdir, -⟩ := isPutOff_parts h
  refine components_ne_nil hname fun hlast => ?_
  rw [TarArchiveEntry.isDirectory, hlast] at hdir
  simp at hdir

/-- The ways to the paths deleted for a link: its own way, or that into `.l2s`. -/
theorem l2sFiles_ways {link : TarArchiveEntry} (hstays : Stays [] (components link.name))
    (hputOff : link.isPutOff = true) :
    ∀ q ∈ l2sFiles outDir (link.symLink outDir), ∃ cs, q = outDir ++ cs ∧ Stays [] cs.dropLast ∧
      (cs.dropLast <+: (components link.name).dropLast ∨ cs.dropLast <+: [".l2s".toList]) := by
  have hparent :
      (outDir ++ components link.name).dropLast = outDir ++ (components link.name).dropLast :=
    List.dropLast_append_of_ne_nil (components_ne_nil_of_isPutOff hputOff)
  intro q hq
  simp only [l2sFiles, TarArchiveEntry.symLink, List.mem_cons, List.not_mem_nil, or_false] at hq
  rcases hq with rfl | rfl | rfl
  · exact ⟨components link.name, rfl, stays_dropLast hstays, .inl (List.prefix_refl _)⟩
  · rw [hparent]
    unfold child
    split
    · exact ⟨(components link.name).dropLast, rfl, stays_dropLast (stays_dropLast hstays),
        .inl (List.dropLast_prefix _)⟩
    · refine ⟨(components link.name).dropLast ++ [_], List.append_assoc _ _ _, ?_, ?_⟩
      · rw [List.dropLast_concat]
        exact stays_dropLast hstays
      · rw [List.dropLast_concat]
        exact .inl (List.prefix_refl _)
  · have hproper : ∀ c ∈ ([".l2s".toList] : List Name), Proper c := by decide
    unfold child l2sDir
    split
    · exact ⟨[".l2s".toList], rfl, stays_dropLast (stays_of_proper hproper),
        .inr (List.dropLast_prefix _)⟩
    · refine ⟨[".l2s".toList] ++ [_], List.append_assoc _ _ _, ?_, ?_⟩
      · rw [List.dropLast_concat]
        exact stays_of_proper hproper
      · rw [List.dropLast_concat]
        exact .inr (List.prefix_refl _)

/-- A file that is deleted at the end belongs to a link that was put off. -/
theorem mem_allL2sFiles {symLinkList : List SymLink} {q : Path}
    (h : q ∈ allL2sFiles outDir symLinkList) :
    ∃ item ∈ symLinkList, isL2s item = true ∧ q ∈ l2sFiles outDir item := by
  obtain ⟨item, hitem, hq⟩ := List.mem_flatMap.mp h
  obtain ⟨hmem, hl2s⟩ := List.mem_filter.mp hitem
  exact ⟨item, hmem, hl2s, hq⟩

/-- The clean-up deletes all the files and then their directory. -/
theorem fixL2sFiles_eq (d : Disk) (symLinkList : List SymLink) :
    fixL2sFiles outDir d symLinkList
      = deleteDirectory ((allL2sFiles outDir symLinkList).foldl delete d) (l2sDir outDir) := by
  unfold fixL2sFiles allL2sFiles
  rw [List.foldl_flatMap]

/-- Deleting files makes no link. -/
theorem deletes_noNewLinks (d : Disk) (files : List Path) :
    NoNewLinks d.fs (files.foldl delete d).fs := by
  induction files generalizing d with
  | nil => exact fun _ _ hget => hget
  | cons q rest ih => exact (shrinks_delete d q).noNewLinks.trans (ih (delete d q))

/-- What a foreign proot left is deleted; no link comes to stand. -/
theorem fixL2sFiles_noNewLinks (d : Disk) (symLinkList : List SymLink) :
    NoNewLinks d.fs (fixL2sFiles outDir d symLinkList).fs := by
  rw [fixL2sFiles_eq]
  exact (deletes_noNewLinks d _).trans (shrinks_deleteDirectory _ _).noNewLinks

/-- Files are deleted one after the other. -/
theorem deletes_tidies (fresh : Fresh fs₀ out) (hplace : place fs₀ outDir = some out) {d : Disk}
    (hkept : Kept fs₀ out d.fs) {files : List Path}
    (hfiles : ∀ q ∈ files, ∃ cs, q = outDir ++ cs ∧ Stays [] cs.dropLast)
    (hclear : ∀ c ∈ calls id delete d files, NoLinks c.1 out (c.2.drop outDir.length).dropLast) :
    Tidies fs₀ out d (files.foldl delete d) := by
  induction files generalizing d with
  | nil => exact .refl hkept
  | cons q rest ih =>
    obtain ⟨cs, rfl, hstays⟩ := hfiles q List.mem_cons_self
    have hfirst := hclear _ List.mem_cons_self
    rw [id, List.drop_left] at hfirst
    have hstep := hkept.delete fresh hplace hstays hfirst
    exact hstep.trans (ih hstep.kept (fun q' hq' => hfiles q' (List.mem_cons_of_mem _ hq'))
      fun c hc => hclear c (List.mem_cons_of_mem _ hc))

/-! ## The modes of the directories -/

/-- Modes are restored one after the other. -/
theorem restoreDirModes_inside (fresh : Fresh fs₀ out) (hplace : place fs₀ outDir = some out)
    {d : Disk}
    (hkept : Kept fs₀ out d.fs) {dirModeList : List (Path × Nat)}
    (hlist : ∀ item ∈ dirModeList, ∃ cs, item.1 = outDir ++ cs ∧ Stays [] cs)
    (hclear : ∀ c ∈ calls Prod.fst restoreDirMode d dirModeList,
      NoLinks c.1 out (c.2.drop outDir.length)) :
    Tidies fs₀ out d (restoreDirModes d dirModeList) := by
  induction dirModeList generalizing d with
  | nil => exact .refl hkept
  | cons item rest ih =>
    obtain ⟨cs, heq, hstays⟩ := hlist item List.mem_cons_self
    have hfirst := hclear _ List.mem_cons_self
    rw [heq, List.drop_left] at hfirst
    have hstep := hkept.chmod fresh hplace hstays hfirst (modeBits item.2)
    rw [← heq] at hstep
    exact hstep.trans
      (ih hstep.kept (fun item' hitem' => hlist item' (List.mem_cons_of_mem _ hitem'))
      fun c hc => hclear c (List.mem_cons_of_mem _ hc))

/-- That is so if no link stood on the ways at the beginning. -/
theorem restoreDirModes_tidies (fresh : Fresh fs₀ out) (hplace : place fs₀ outDir = some out)
    {d : Disk}
    (hkept : Kept fs₀ out d.fs) {dirModeList : List (Path × Nat)}
    (hlist : ∀ item ∈ dirModeList, ∃ cs, item.1 = outDir ++ cs ∧ Stays [] cs ∧
      NoLinks d.fs out cs) :
    Tidies fs₀ out d (restoreDirModes d dirModeList) := by
  refine restoreDirModes_inside fresh hplace hkept (fun item hitem => ?_) ?_
  · obtain ⟨cs, heq, hstays, -⟩ := hlist item hitem
    exact ⟨cs, heq, hstays⟩
  · refine calls_forall (I := fun d' => NoNewLinks d.fs d'.fs) (fun item _ d' h => ?_)
      (fun item hitem d' h => ?_)
      fun _ _ hget => hget
    · exact h.trans (ModesOnly.chmod d' item.1 (modeBits item.2)).noNewLinks
    · obtain ⟨cs, heq, -, hlinks⟩ := hlist item hitem
      rw [heq, List.drop_left]
      exact hlinks.mono h

/-! ## All passes -/

variable {entries : List TarArchiveEntry}

/-- A place where an entry may put a link. -/
def LinkPlace (out : Loc) (entries : List TarArchiveEntry) (l : Loc) : Prop :=
  ∃ link ∈ entries, link.isPutOff = true ∧ l = out ++ link.inside

namespace NamesConfined

/-- The components before a `..` in a confined name are no place of a link. -/
theorem not_linkPlace (h : NamesConfined outDir entries) {entry : TarArchiveEntry}
    (hentry : entry ∈ entries) (hkind : entry.isDirectory = true ∨ entry.isSymbolicLink = true)
    (mid post : List Name) (heq : (components entry.name).dropLast = mid ++ dotdot :: post) :
    ¬ LinkPlace out entries (out ++ collapse [] mid) := by
  rintro ⟨link, hlink, hputOff, hplace⟩
  exact h.turns entry hentry hkind link hlink hputOff mid post heq (List.append_cancel_left hplace)

/-- No link stands on the way to a link whose parent is sealed. -/
theorem noLinks_link (h : NamesConfined outDir entries) {fs : FileSystem}
    (hlinked : Linked fs₀ out (LinkPlace out entries) fs) {link : TarArchiveEntry}
    (hlink : link ∈ entries)
    (hputOff : link.isPutOff = true)
    (hsealed : Sealed out fs (out ++ collapse [] (components link.name).dropLast)) :
    NoLinks fs out (components link.name).dropLast :=
  hlinked.noLinks (stays_dropLast (h.climbs link hlink)) hsealed
    (h.not_linkPlace hlink (.inr (isPutOff_parts hputOff).2.2))

/-- No link stands on the way to a directory that was made. -/
theorem noLinks_dir (h : NamesConfined outDir entries) {fs : FileSystem}
    (hlinked : Linked fs₀ out (LinkPlace out entries) fs) {entry : TarArchiveEntry}
    (hentry : entry ∈ entries)
    (hdir : entry.isDirectory = true)
    (hparent : Sealed out fs (out ++ collapse [] (components entry.name).dropLast))
    (hself : Sealed out fs (out ++ entry.inside)) : NoLinks fs out (components entry.name) := by
  have hstays := h.climbs entry hentry
  have hturns : ∀ mid post, (components entry.name).dropLast = mid ++ dotdot :: post →
      ¬ LinkPlace out entries (out ++ collapse [] mid) := h.not_linkPlace hentry (.inl hdir)
  unfold TarArchiveEntry.inside at hself
  generalize components entry.name = cs at hstays hparent hself hturns ⊢
  cases cs using List.reverseRecOn with
  | nil => exact hlinked.noLinks hstays hself fun mid post heq => by simp at heq
  | append_singleton cs c =>
    rw [List.dropLast_concat] at hparent hturns
    refine (hlinked.noLinks hstays.upto hparent hturns).concat fun t => ?_
    rw [under_collapse hstays (List.prefix_refl _)]
    exact hself.not_link hlinked.rooted (List.prefix_append _ _) (List.prefix_refl _) t

/-- The parents of the links are sealed, so no link is on the way when they are made. -/
theorem calls_noLinks (fresh : Fresh fs₀ out) (hplace : place fs₀ outDir = some out)
    (h : NamesConfined outDir entries) {d : Disk}
    (hlinked : Linked fs₀ out (LinkPlace out entries) d.fs)
    (hsealed : ∀ link ∈ entries, link.isPutOff = true →
      Sealed out d.fs (out ++ collapse [] (components link.name).dropLast))
    {symLinkList : List SymLink}
    (hlist : ∀ item ∈ symLinkList, ∃ link ∈ entries, link.isPutOff = true ∧
      item = link.symLink outDir) :
    ∀ c ∈ calls SymLink.symlink makeSymLink d symLinkList,
      NoLinks c.1 out (c.2.drop outDir.length).dropLast := by
  refine calls_forall (I := fun d' => Linked fs₀ out (LinkPlace out entries) d'.fs ∧
    ∀ link ∈ entries, link.isPutOff = true →
      Sealed out d'.fs (out ++ collapse [] (components link.name).dropLast)) ?_ ?_
        ⟨hlinked, hsealed⟩
  · rintro item hitem d' ⟨hlinked, hsealed⟩
    obtain ⟨link, hlink, hputOff, rfl⟩ := hlist item hitem
    have hpath : (link.symLink outDir).symlink = outDir ++ components link.name := rfl
    obtain ⟨hlinked', -, hsame⟩ := makeSymLink_linked fresh hplace hlinked hpath
      (stays_dropLast (h.climbs link hlink)) ⟨link, hlink, hputOff, rfl⟩
      (h.noLinks_link hlinked hlink hputOff (hsealed link hlink hputOff))
    exact ⟨hlinked', fun l hl hp => (hsealed l hl hp).mono hsame⟩
  · rintro item hitem d' ⟨hlinked, hsealed⟩
    obtain ⟨link, hlink, hputOff, rfl⟩ := hlist item hitem
    show NoLinks d'.fs out ((outDir ++ components link.name).drop outDir.length).dropLast
    rw [List.drop_left]
    exact h.noLinks_link hlinked hlink hputOff (hsealed link hlink hputOff)

theorem createSymLinks_linked (fresh : Fresh fs₀ out) (hplace : place fs₀ outDir = some out)
    (h : NamesConfined outDir entries) {d : Disk}
    (hlinked : Linked fs₀ out (LinkPlace out entries) d.fs)
    (hsealed : ∀ link ∈ entries, link.isPutOff = true →
      Sealed out d.fs (out ++ collapse [] (components link.name).dropLast))
    {symLinkList : List SymLink}
    (hlist : ∀ item ∈ symLinkList, ∃ link ∈ entries, link.isPutOff = true ∧
      item = link.symLink outDir) :
    Linked fs₀ out (LinkPlace out entries) (createSymLinks d symLinkList).fs ∧
      SameKind d.fs (createSymLinks d symLinkList).fs := by
  have hall := App.createSymLinks_linked fresh hplace hlinked (fun item hitem => ?_)
    (h.calls_noLinks fresh hplace hlinked hsealed hlist)
  · exact ⟨hall.1, hall.2.2⟩
  · obtain ⟨link, hlink, hputOff, rfl⟩ := hlist item hitem
    exact ⟨_, rfl, stays_dropLast (h.climbs link hlink), link, hlink, hputOff, rfl⟩

end NamesConfined

/-- **The names of a stream may tell that it is confined**: none turns round behind the place of a
link, and there is no link in the place of `.l2s` while there is something to delete in it. -/
theorem confined_of_names (fresh : Fresh fs₀ out) (hplace : place fs₀ outDir = some out)
    (h : NamesConfined outDir entries) : Confined fs₀ out outDir entries := by
  have hextracted := extractEntries_extracted fresh hplace (d := ⟨fs₀, []⟩) (.start fresh) h.climbs
  refine ⟨h.climbs, ?_, ?_, ?_⟩ <;> dsimp only <;>
    generalize extractEntries id outDir ⟨fs₀, []⟩ entries = x at hextracted ⊢ <;>
    obtain ⟨hadvances, hparents, hdirs, hsymLinks, hdirModes⟩ := hextracted
  all_goals
    have hsealed : ∀ link ∈ entries, link.isPutOff = true →
        Sealed out x.disk.fs (out ++ collapse [] (components link.name).dropLast) :=
      fun link hlink hp => hparents link hlink (isPutOff_parts hp).1
    have hstart : Linked fs₀ out (LinkPlace out entries) x.disk.fs := hadvances.filling.linked
  · exact h.calls_noLinks fresh hplace hstart hsealed hsymLinks
  all_goals
    obtain ⟨hlinked, hsame⟩ := h.createSymLinks_linked fresh hplace hstart hsealed hsymLinks
    generalize createSymLinks x.disk x.symLinkList = d₂ at hlinked hsame ⊢
  · refine calls_forall (I := fun d' => NoNewLinks d₂.fs d'.fs) (fun q _ d' hnew => ?_)
      (fun q hq d' hnew => ?_)
      fun _ _ hget => hget
    · exact hnew.trans (shrinks_delete d' q).noNewLinks
    · obtain ⟨item, hitem, hl2s, hq⟩ := mem_allL2sFiles hq
      obtain ⟨link, hlink, hputOff, rfl⟩ := hsymLinks item hitem
      obtain ⟨cs, rfl, -, hway⟩ := l2sFiles_ways (h.climbs link hlink) hputOff q hq
      rw [id, List.drop_left]
      refine NoLinks.mono ?_ hnew
      rcases hway with hway | hway
      · exact (h.noLinks_link hlinked hlink hputOff ((hsealed link hlink hputOff).mono hsame)).upto
          hway
      · refine NoLinks.upto ?_ hway
        have hproper : ∀ c ∈ ([".l2s".toList] : List Name), Proper c := by decide
        have htop : NoLinks d₂.fs out [] := (hlinked.kept fresh).noLinks_top
        refine htop.concat fun t hget => ?_
        rw [List.nil_append, collapse_names out hproper] at hget
        obtain ⟨other, hother, hputOff', heq⟩ := hlinked.links _ t (List.prefix_append _ _) hget
        rw [h.l2s other hother hputOff' (List.append_cancel_left heq).symm link hlink hputOff]
          at hl2s
        cases hl2s
  · refine calls_forall (I := fun d' => NoNewLinks d₂.fs d'.fs) (fun item _ d' hnew => ?_)
      (fun item hitem d' hnew => ?_) (fixL2sFiles_noNewLinks d₂ x.symLinkList)
    · exact hnew.trans (ModesOnly.chmod d' item.1 (modeBits item.2)).noNewLinks
    · obtain ⟨entry, hentry, hname, hdir, heq⟩ := hdirModes item hitem
      rw [heq, List.drop_left]
      exact (h.noLinks_dir hlinked hentry hdir ((hparents entry hentry hname).mono hsame)
        ((hdirs entry hentry hname hdir).mono hsame)).mono hnew

end Passes

/-! ## Streams -/

/-- Without double dots only `.l2s` can lead outside. -/
theorem namesConfined_of_proper {outDir : Path} {entries : List TarArchiveEntry}
    (hproper : ∀ entry ∈ entries, ∀ c ∈ components entry.name, c ≠ dotdot)
    (hl2s : ∀ link ∈ entries, link.isPutOff = true → link.inside = [".l2s".toList] →
      ∀ item ∈ entries, item.isPutOff = true → isL2s (item.symLink outDir) = false) :
    NamesConfined outDir entries where
  climbs := by
    intro entry hentry mid post heq
    exact absurd rfl (hproper entry hentry dotdot (by simp [heq]))
  turns := by
    intro entry hentry _ _ _ _ mid post heq
    refine absurd rfl (hproper entry hentry dotdot (List.dropLast_subset _ ?_))
    simp [heq]
  l2s := hl2s

def extractedRootfs : Loc := ["cache".toList, "tmp".toList, "extracted-rootfs".toList]

/-- The app's cache with the fresh directory, and a file next to it. -/
def cache : FileSystem where
  entries :=
    [(["cache".toList], .dir 0o700),
      (["cache".toList, "log".toList], .file [] 0o600),
      (["cache".toList, "tmp".toList], .dir 0o777),
      (extractedRootfs, .dir 0o700)]
  nodup := by decide +kernel

/-- An entry with an empty content. -/
def tarEntry (name : String) (linkFlag : LinkFlag) (linkName : String) : TarArchiveEntry :=
  ⟨name.toList, linkFlag, linkName.toList, 0o755, []⟩

end WinEmulator.App
