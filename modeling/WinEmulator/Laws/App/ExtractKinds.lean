import WinEmulator.Laws.App.ExtractModes

/-!
# Every kind of entry

The loop over the entries knows directories and symbolic links, and takes everything else for a file
with a content of its own. A stream of directories, files, symbolic links and hard links is
extracted to what it says exactly when its hard links carry the content of what they name, and the
later passes neither delete an entry nor are kept from one by the mode of a directory.
-/

set_option autoImplicit false

namespace WinEmulator.App

open WinEmulator.Lib WinEmulator.Lib.Fs WinEmulator.Lib.JavaFile Archive

/-! ## Kinds -/

def TarArchiveEntry.isRegular (entry : TarArchiveEntry) : Bool :=
  !entry.isDirectory && entry.linkFlag = .normal

/-- The link name of a hard link is the name of another entry. -/
def TarArchiveEntry.isHardLink (entry : TarArchiveEntry) : Bool :=
  !entry.isDirectory && entry.linkFlag = .link

/-- It is to be a file in the end. -/
def TarArchiveEntry.isFile (entry : TarArchiveEntry) : Bool := entry.isRegular || entry.isHardLink

/-- Directories, files, symbolic links, and hard links to files before them. Nothing lies below a
symbolic link, and no name is one that another proot gives. -/
structure Mixed (entries : List TarArchiveEntry) : Prop where
  proper : ∀ e ∈ entries, e.path ≠ [] ∧ ∀ c ∈ e.path, Proper c
  distinct : (entries.map TarArchiveEntry.path).Nodup
  kinds : ∀ e ∈ entries, e.isDirectory = true ∨ e.isPutOff = true ∨ e.isFile = true
  named : ∀ e ∈ entries, e.isHardLink = true →
    ∃ file, [file, e].Sublist entries ∧ file.isFile = true ∧ file.path = components e.linkName
  links : ∀ e ∈ entries, ∀ link ∈ entries, link.isPutOff = true → link.path <+: e.path →
    link.path = e.path
  names : ∀ e ∈ entries, ¬ ".l2s.".toList <+: getName e.path
  targets : ∀ e ∈ entries, e.isPutOff = true → ¬ ".l2s.".toList <+: getName (components e.linkName)

/-- Every entry is there as what it is. -/
structure Realised (out : Loc) (entries : List TarArchiveEntry) (fs : FileSystem) : Prop where
  dirs : ∀ e ∈ entries, e.isDirectory = true →
    fs.get (out ++ e.path) = some (.dir (modeBits e.mode))
  files : ∀ e ∈ entries, e.isRegular = true →
    fs.get (out ++ e.path) = some (.file e.content (modeBits e.mode))
  symLinks : ∀ e ∈ entries, e.isPutOff = true → fs.get (out ++ e.path) = some (.link e.linkName)
  hardLinks : ∀ e ∈ entries, e.isHardLink = true → ∀ file ∈ entries,
    file.path = components e.linkName →
    ∃ content m m', fs.get (out ++ e.path) = some (.file content m) ∧
      fs.get (out ++ file.path) = some (.file content m')

/-- The link `.l2s` leads nowhere in the tree that the stream describes. -/
def DeadL2s (fs₀ : FileSystem) (out : Loc) (outDir : Path) (entries : List TarArchiveEntry) :
    Prop :=
  ∀ fs, Laid fs₀ out entries (fun e => some e.linkedNode) fs → exists_ fs (l2sDir outDir) = false

/-- What the passes need: nothing below a file, a target for every link, hard links with the content
of what they name, at `.l2s` at most what is not deleted, and no directory that loses the search
before the mode of one below it is restored. -/
structure Realisable (fs₀ : FileSystem) (out : Loc) (outDir : Path)
    (entries : List TarArchiveEntry) : Prop where
  leaves : ∀ e ∈ entries, ∀ file ∈ entries, file.isFile = true → file.path <+: e.path →
    file.path = e.path
  symLinks : ∀ e ∈ entries, e.isPutOff = true → e.linkName ≠ []
  copies : ∀ e ∈ entries, e.isHardLink = true → ∀ file ∈ entries,
    file.path = components e.linkName →
    e.content = file.content
  l2s : ∀ e ∈ entries, [".l2s".toList] <+: e.path →
    e.path = [".l2s".toList] ∧ e.isDirectory = false ∧
      (e.isPutOff = true → DeadL2s fs₀ out outDir entries)
  modes : ∀ upper e, [upper, e].Sublist entries → upper.isDirectory = true → e.isDirectory = true →
    upper.path <+: e.path → grants (modeBits upper.mode) .search = false →
      modeBits e.mode = newDirMode

variable {fs₀ fs : FileSystem} {out : Loc} {outDir : Path} {entries : List TarArchiveEntry}
  {e : TarArchiveEntry}

theorem isRegular_iff : e.isRegular = true ↔ e.isDirectory = false ∧ e.linkFlag = .normal := by
  simp [TarArchiveEntry.isRegular]

theorem isHardLink_iff : e.isHardLink = true ↔ e.isDirectory = false ∧ e.linkFlag = .link := by
  simp [TarArchiveEntry.isHardLink]

/-- A file is what the loop takes for one. -/
theorem isFile_parts (h : e.isFile = true) : e.isDirectory = false ∧ e.isSymbolicLink = false := by
  rw [TarArchiveEntry.isFile, Bool.or_eq_true, isRegular_iff, isHardLink_iff] at h
  rw [TarArchiveEntry.isSymbolicLink]
  rcases h with ⟨hdir, hflag⟩ | ⟨hdir, hflag⟩
  · exact ⟨hdir, by rw [hflag]; decide⟩
  · exact ⟨hdir, by rw [hflag]; decide⟩

theorem isFile_of_isRegular (h : e.isRegular = true) : e.isFile = true := by
  rw [TarArchiveEntry.isFile, h, Bool.true_or]

theorem isFile_of_isHardLink (h : e.isHardLink = true) : e.isFile = true := by
  rw [TarArchiveEntry.isFile, h, Bool.or_true]

theorem node_of_isDirectory (h : e.isDirectory = true) : e.node = .dir (modeBits e.mode) := if_pos h

theorem node_of_isPutOff (h : e.isPutOff = true) : e.node = .link e.linkName := by
  obtain ⟨-, hdir, hlink⟩ := isPutOff_parts h
  rw [TarArchiveEntry.node, hdir, if_neg (by decide), if_pos hlink]

theorem node_of_isFile (h : e.isFile = true) : e.node = .file e.content (modeBits e.mode) := by
  obtain ⟨hdir, hlink⟩ := isFile_parts h
  rw [TarArchiveEntry.node, hdir, hlink, if_neg (by decide), if_neg (by decide)]

theorem linkedNode_of_not_dir (h : e.isDirectory = false) : e.linkedNode = e.node := by
  rw [TarArchiveEntry.linkedNode, h, if_neg (by decide)]

namespace Mixed

/-- A mixed stream whose files are leaves is layered. -/
theorem layered (h : Mixed entries)
    (hleaves : ∀ e ∈ entries, ∀ file ∈ entries, file.isFile = true → file.path <+: e.path →
      file.path = e.path) :
    Layered entries where
  proper := h.proper
  distinct := h.distinct
  leaves := by
    intro e he leaf hleaf hdir hle
    rcases h.kinds leaf hleaf with hdir' | hlink | hfile
    · rw [hdir] at hdir'
      cases hdir'
    · exact h.links e he leaf hleaf hlink hle
    · exact hleaves e he leaf hleaf hfile hle

/-- What a hard link names is a file. -/
theorem isFile_of_named (h : Mixed entries) (he : e ∈ entries) (hlink : e.isHardLink = true)
    {file : TarArchiveEntry}
    (hfile : file ∈ entries) (hpath : file.path = components e.linkName) : file.isFile = true := by
  obtain ⟨file', hbefore, hisFile, hpath'⟩ := h.named e he hlink
  have heq : file = file' :=
    List.inj_on_of_nodup_map h.distinct hfile (hbefore.subset List.mem_cons_self)
      (hpath.trans hpath'.symm)
  rw [heq]
  exact hisFile

theorem not_isL2s (h : Mixed entries) (he : e ∈ entries) (hlink : e.isPutOff = true) :
    isL2s (e.symLink outDir) = false := by
  have hname : getName (outDir ++ e.path) = getName e.path := by
    rw [getName, getName, List.getLast?_append_of_ne_nil _ (h.proper e he).1]
  have hself := h.names e he
  have htarget := h.targets e he hlink
  rw [← List.isPrefixOf_iff_prefix] at hself htarget
  rw [← hname] at hself
  rw [isL2s, Bool.or_eq_false_iff]
  exact ⟨Bool.eq_false_iff.mpr hself, Bool.eq_false_iff.mpr htarget⟩

/-- The names of a mixed stream are confined, for they hold no `..`. -/
theorem namesConfined (h : Mixed entries) : NamesConfined outDir entries :=
  namesConfined_of_proper (fun e he c hc => ((h.proper e he).2 c hc).2.2)
      fun _ _ _ _ _ hitem hlink =>
    h.not_isL2s hitem hlink

end Mixed

/-! ## Runs -/

theorem createEffect_node {p : Path} {n : Node} {effect : Effect}
    (h : createEffect fs p n = some effect) :
    effect.2 = some n := by
  obtain ⟨l, -, h⟩ := Option.bind_eq_some_iff.mp h
  split at h
  next =>
    cases h
    rfl
  next => cases h

/-- No link without a target is made. -/
theorem createSymLinks_target {d : Disk} {items : List SymLink} {l : Loc}
    (h : (createSymLinks d items).fs.get l = some (.link [])) : d.fs.get l = some (.link []) := by
  induction items generalizing d with
  | nil => exact h
  | cons item items ih =>
    have hnext :
        (d.perform (symlinkEffect d.fs item.pointTo item.symlink)).fs.get l = some (.link []) :=
          ih h
    cases heffect : symlinkEffect d.fs item.pointTo item.symlink with
    | none =>
      rw [heffect] at hnext
      exact hnext
    | some effect =>
      rw [heffect] at hnext
      rw [symlinkEffect] at heffect
      split at heffect
      next => cases heffect
      next htarget =>
        have hget : (d.apply effect).fs.get l = if l = effect.1 then effect.2 else d.fs.get l :=
          LinkedMap.get_set _ _ _ _
        rw [Disk.perform, hget] at hnext
        split at hnext
        next =>
          rw [createEffect_node heffect] at hnext
          exact absurd (Node.link.inj (Option.some.inj hnext)) htarget
        next => exact hnext

namespace Mixed

variable (fresh : Fresh fs₀ out) (hplace : place fs₀ outDir = some out) (h : Mixed entries)
  (log : List Effect)

include fresh hplace h

theorem extracted :
    Extracted fs₀ out outDir entries ⟨fs₀, log⟩ (extractEntries id outDir ⟨fs₀, log⟩ entries) :=
  extractEntries_extracted fresh hplace (.start fresh)
    (h.namesConfined : NamesConfined outDir entries).climbs

/-- The files of the L2S links are nobody's, so the clean-up deletes their directory alone. -/
theorem passes :
    decompressCompressedTarStream id outDir ⟨fs₀, log⟩ entries =
      restoreDirModes (deleteDirectory (linkedDisk outDir ⟨fs₀, log⟩ entries) (l2sDir outDir))
        (extractEntries id outDir ⟨fs₀, log⟩ entries).dirModeList :=
  decompress_passes fresh hplace (fun e he => (h.proper e he).2) (fun _ => h.not_isL2s) log

/-- After the two passes there are only removals and changes of modes. -/
theorem reduces :
    Reduces (linkedDisk outDir ⟨fs₀, log⟩ entries).fs
      (decompressCompressedTarStream id outDir ⟨fs₀, log⟩ entries).fs := by
  rw [h.passes fresh hplace log]
  exact ⟨_, shrinks_deleteDirectory _ _, restoreDirModes_modesOnly _ _⟩

/-- After the two passes links stand only at the places of link entries. -/
theorem linked :
    Linked fs₀ out (LinkPlace out entries) (linkedDisk outDir ⟨fs₀, log⟩ entries).fs := by
  obtain ⟨hadvances, hparents, -, hsymLinks, -⟩ := h.extracted fresh hplace log
  exact (h.namesConfined.createSymLinks_linked fresh hplace hadvances.filling.linked
    (fun link hlink hputOff => hparents link hlink (isPutOff_parts hputOff).1) hsymLinks).1

theorem not_emptyLink {l : Loc} (hout : out <+: l) :
    (linkedDisk outDir ⟨fs₀, log⟩ entries).fs.get l ≠ some (.link []) :=
  fun hget => (h.extracted fresh hplace log).advances.filling.noLinks l [] hout
    (createSymLinks_target hget)

/-- What the first two passes lay out. -/
theorem linked_laid
    (hleaves : ∀ e ∈ entries, ∀ file ∈ entries, file.isFile = true → file.path <+: e.path →
      file.path = e.path)
    (hlinks : ∀ e ∈ entries, e.isPutOff = true → e.linkName ≠ []) :
    Laid fs₀ out entries (fun e => some e.linkedNode) (linkedDisk outDir ⟨fs₀, log⟩ entries).fs :=
  (extractEntries_unpacked fresh hplace (h.layered hleaves) log).linked
    (target_of_place fresh hplace)
    (h.layered hleaves) hlinks

end Mixed

/-! ## What a realised stream is like -/

namespace Realised

/-- A realised stream has every file entry as a file. -/
theorem file (hmixed : Mixed entries) (h : Realised out entries fs) (he : e ∈ entries)
    (hfile : e.isFile = true) :
    ∃ content m, fs.get (out ++ e.path) = some (.file content m) := by
  rw [TarArchiveEntry.isFile, Bool.or_eq_true] at hfile
  rcases hfile with hregular | hlink
  · exact ⟨_, _, h.files e he hregular⟩
  · obtain ⟨file, hbefore, -, hpath⟩ := hmixed.named e he hlink
    obtain ⟨content, m, -, hget, -⟩ :=
      h.hardLinks e he hlink file (hbefore.subset List.mem_cons_self) hpath
    exact ⟨content, m, hget⟩

/-- A realised stream has something at the path of every entry. -/
theorem there (hmixed : Mixed entries) (h : Realised out entries fs) (he : e ∈ entries) :
    fs.get (out ++ e.path) ≠ none := by
  rcases hmixed.kinds e he with hdir | hlink | hfile
  · rw [h.dirs e he hdir]
    exact Option.some_ne_none _
  · rw [h.symLinks e he hlink]
    exact Option.some_ne_none _
  · obtain ⟨content, m, hget⟩ := h.file hmixed he hfile
    rw [hget]
    exact Option.some_ne_none _

variable (fresh : Fresh fs₀ out) (hplace : place fs₀ outDir = some out) (hmixed : Mixed entries)
  (log : List Effect)
  (h : Realised out entries (decompressCompressedTarStream id outDir ⟨fs₀, log⟩ entries).fs)

include fresh hplace hmixed h

/-- Nothing lies below a file. -/
theorem leaves {file : TarArchiveEntry} (he : e ∈ entries) (hfile : file ∈ entries)
    (hkind : file.isFile = true)
    (hle : file.path <+: e.path) : file.path = e.path := by
  by_contra hne
  have hreduces := hmixed.reduces fresh hplace log
  obtain ⟨content, m, hget⟩ := h.file hmixed hfile hkind
  obtain ⟨m', hget'⟩ := hreduces.file hget
  obtain ⟨m'', hdir⟩ :=
    (hmixed.linked fresh hplace log).rooted.dir_above (List.prefix_append out file.path)
    ((List.prefix_append_right_inj out).mpr hle) (fun heq => hne (List.append_cancel_left heq))
    (hreduces.ne_none (h.there hmixed he))
  rw [hget'] at hdir
  cases hdir

/-- Every link has a target. -/
theorem linkName_ne_nil (he : e ∈ entries) (hlink : e.isPutOff = true) : e.linkName ≠ [] := by
  intro hnil
  have hget := (hmixed.reduces fresh hplace log).link (h.symLinks e he hlink)
  rw [hnil] at hget
  exact hmixed.not_emptyLink fresh hplace log (List.prefix_append out e.path) hget

/-- A hard link has the content of what it names. -/
theorem content_eq {file : TarArchiveEntry}
    (hlinked : Laid fs₀ out entries (fun e => some e.linkedNode)
      (linkedDisk outDir ⟨fs₀, log⟩ entries).fs)
    (he : e ∈ entries) (hlink : e.isHardLink = true) (hfile : file ∈ entries)
    (hpath : file.path = components e.linkName) :
    e.content = file.content := by
  have hreduces := hmixed.reduces fresh hplace log
  obtain ⟨content, m, m', hget, hget'⟩ := h.hardLinks e he hlink file hfile hpath
  have hcontent : ∀ {e m}, e ∈ entries → e.isFile = true →
      (decompressCompressedTarStream id outDir ⟨fs₀, log⟩ entries).fs.get (out ++ e.path) =
        some (.file content m) →
      e.content = content := by
    intro e m he hkind hget
    obtain ⟨m', hm'⟩ := hreduces.file hget
    rw [hlinked.there e he, linkedNode_of_not_dir (isFile_parts hkind).1, node_of_isFile hkind]
      at hm'
    exact (Node.file.inj (Option.some.inj hm')).1
  exact (hcontent he (isFile_of_isHardLink hlink) hget).trans
    (hcontent hfile (hmixed.isFile_of_named he hlink hfile hpath) hget').symm

/-- What stands at `.l2s` is not deleted. -/
theorem l2s (closed : Closed fs₀) (hlayered : Layered entries)
    (hlinked : Laid fs₀ out entries (fun e => some e.linkedNode)
      (linkedDisk outDir ⟨fs₀, log⟩ entries).fs)
    (he : e ∈ entries) (hle : [".l2s".toList] <+: e.path) :
    e.path = [".l2s".toList] ∧ e.isDirectory = false ∧
      (e.isPutOff = true → DeadL2s fs₀ out outDir entries) := by
  have target := target_of_place fresh hplace
  have hthere :
      (deleteDirectory (linkedDisk outDir ⟨fs₀, log⟩ entries) (l2sDir outDir)).fs.get
        (out ++ e.path) ≠ none := by
    have hget := h.there hmixed he
    rw [hmixed.passes fresh hplace log] at hget
    exact (restoreDirModes_modesOnly _ _).ne_none hget
  have hnot :
      ∀ m, (linkedDisk outDir ⟨fs₀, log⟩ entries).fs.get (out ++ [".l2s".toList]) ≠
        some (.dir m) := by
    intro m hdir
    rw [hlinked.l2s_removed target closed hlayered hdir,
      if_pos ((List.prefix_append_right_inj out).mpr hle)] at hthere
    exact hthere rfl
  have hpath : e.path = [".l2s".toList] := by
    by_contra hne
    obtain ⟨m, hm⟩ := hlinked.dir_above fresh hlayered linked_dirs he hle (Ne.symm hne)
    exact hnot m hm
  have hget := hlinked.there e he
  rw [hpath] at hget hthere
  have hdir : e.isDirectory = false := by
    by_contra hdir
    rw [linkedNode_dir (Bool.not_eq_false _ ▸ hdir)] at hget
    exact hnot _ hget
  refine ⟨hpath, hdir, fun hlink fs hlaid => ?_⟩
  by_contra hexists
  rw [linkedNode_of_not_dir hdir, node_of_isPutOff hlink] at hget
  refine hthere (hlinked.l2s_unlinked target hget ?_)
  exact exists_of_get_eq (fun l => hlaid.get_eq hlinked l) (Bool.not_eq_false _ ▸ hexists)

/-- No directory loses the search too early. -/
theorem modes {upper : TarArchiveEntry} (hlayered : Layered entries)
    (hlinked : Laid fs₀ out entries (fun e => some e.linkedNode)
      (linkedDisk outDir ⟨fs₀, log⟩ entries).fs)
    (hbefore : [upper, e].Sublist entries) (hupper : upper.isDirectory = true)
    (hdir : e.isDirectory = true)
    (hle : upper.path <+: e.path) (hsearch : grants (modeBits upper.mode) .search = false) :
    modeBits e.mode = newDirMode := by
  have hkept : Tidies fs₀ out (linkedDisk outDir ⟨fs₀, log⟩ entries)
      (deleteDirectory (linkedDisk outDir ⟨fs₀, log⟩ entries) (l2sDir outDir)) :=
    (hlinked.kept fresh).deleteDirectory fresh hplace ".l2s".toList
  have hstraight : Straight out (entries.filter TarArchiveEntry.isDirectory)
      (deleteDirectory (linkedDisk outDir ⟨fs₀, log⟩ entries) (l2sDir outDir)).fs := by
    intro d hd
    obtain ⟨hmem, hdir⟩ := List.mem_filter.mp hd
    exact ⟨(hlayered.proper d hmem).2,
      (hlinked.noLinks fresh hlayered linked_dirs hmem hdir).mono hkept.noNewLinks⟩
  have hdistinct : ((entries.filter TarArchiveEntry.isDirectory).map TarArchiveEntry.path).Nodup :=
    hlayered.distinct.sublist (List.filter_sublist.map _)
  have hsub : [upper, e].Sublist (entries.filter TarArchiveEntry.isDirectory) := by
    have := hbefore.filter TarArchiveEntry.isDirectory
    rwa [List.filter_cons_of_pos hupper, List.filter_cons_of_pos hdir, List.filter_nil] at this
  have hupperGet := h.dirs upper (hbefore.subset List.mem_cons_self) hupper
  have hget := h.dirs e (hbefore.subset (by simp)) hdir
  have hreduces := hmixed.reduces fresh hplace log
  rw [hmixed.passes fresh hplace log,
    (extractEntries_unpacked fresh hplace hlayered log).dirModes] at hupperGet hget
  rw [hstraight.restore_blocked fresh hplace hkept.kept hdistinct hsub hle hupperGet hsearch]
    at hget
  have hsame :=
    Reduces.kept (shrinks_deleteDirectory (linkedDisk outDir ⟨fs₀, log⟩ entries) (l2sDir outDir))
    (hget ▸ Option.some_ne_none _)
  rw [hget, hlinked.there e (hbefore.subset (by simp)), linkedNode_dir hdir] at hsame
  exact Node.dir.inj (Option.some.inj hsame)

/-- A stream that extraction realises is realisable. -/
theorem realisable (closed : Closed fs₀) : Realisable fs₀ out outDir entries := by
  have hleaves :
      ∀ e ∈ entries, ∀ file ∈ entries, file.isFile = true → file.path <+: e.path →
        file.path = e.path :=
    fun _ he _ hfile => h.leaves fresh hplace hmixed log he hfile
  have hlinks : ∀ e ∈ entries, e.isPutOff = true → e.linkName ≠ [] :=
    fun _ => h.linkName_ne_nil fresh hplace hmixed log
  have hlayered := hmixed.layered hleaves
  have hlinked := hmixed.linked_laid fresh hplace log hleaves hlinks
  exact ⟨hleaves, hlinks, fun _ he hlink _ => h.content_eq fresh hplace hmixed log hlinked he hlink,
    fun _ => h.l2s fresh hplace hmixed log closed hlayered hlinked,
    fun _ _ => h.modes fresh hplace hmixed log hlayered hlinked⟩

end Realised

/-! ## What a realisable stream becomes -/

namespace Realisable

variable (fresh : Fresh fs₀ out) (hplace : place fs₀ outDir = some out) (hmixed : Mixed entries)
  (log : List Effect)
  (h : Realisable fs₀ out outDir entries)

include fresh hplace hmixed h

/-- Nothing is deleted. -/
theorem l2s_left :
    deleteDirectory (linkedDisk outDir ⟨fs₀, log⟩ entries) (l2sDir outDir) = linkedDisk outDir
      ⟨fs₀, log⟩ entries := by
  have hlinked := hmixed.linked_laid fresh hplace log h.leaves h.symLinks
  have hentry :
      ∀ {n}, (linkedDisk outDir ⟨fs₀, log⟩ entries).fs.get (out ++ [".l2s".toList]) = some n →
      ∃ e ∈ entries, [".l2s".toList] <+: e.path ∧ n = e.node := by
    intro n hget
    obtain ⟨e, he, hle⟩ :=
      hlinked.exists_below (List.cons_ne_nil _ _) (hget ▸ Option.some_ne_none _)
    obtain ⟨hpath, hdir, -⟩ := h.l2s e he hle
    rw [← hpath, hlinked.there e he, linkedNode_of_not_dir hdir] at hget
    exact ⟨e, he, hle, (Option.some.inj hget).symm⟩
  refine hlinked.l2s_left (target_of_place fresh hplace) (fun m hget => ?_) fun t hget => ?_
  · obtain ⟨e, he, hle, hnode⟩ := hentry hget
    rcases hmixed.kinds e he with hdir | hlink | hfile
    · rw [(h.l2s e he hle).2.1] at hdir
      cases hdir
    · rw [node_of_isPutOff hlink] at hnode
      cases hnode
    · rw [node_of_isFile hfile] at hnode
      cases hnode
  · obtain ⟨e, he, hle, hnode⟩ := hentry hget
    rcases hmixed.kinds e he with hdir | hlink | hfile
    · rw [(h.l2s e he hle).2.1] at hdir
      cases hdir
    · exact (h.l2s e he hle).2.2 hlink _ hlinked
    · rw [node_of_isFile hfile] at hnode
      cases hnode

/-- Extraction lays every entry's own node. -/
theorem laid :
    Laid fs₀ out entries (fun e => some e.node)
      (decompressCompressedTarStream id outDir ⟨fs₀, log⟩ entries).fs :=
  decompress_laid fresh hplace (hmixed.layered h.leaves)
    (fun e he hlink => ⟨h.symLinks e he hlink, hmixed.not_isL2s he hlink⟩) log
      (h.l2s_left fresh hplace hmixed log) h.modes

/-- **Extraction realises every mixed stream that is realisable.** -/
theorem realised :
    Realised out entries (decompressCompressedTarStream id outDir ⟨fs₀, log⟩ entries).fs := by
  have hlaid := h.laid fresh hplace hmixed log
  refine ⟨fun e he hdir => ?_, fun e he hfile => ?_, fun e he hlink => ?_,
    fun e he hlink file hfile hpath => ?_⟩
  · rw [hlaid.there e he, node_of_isDirectory hdir]
  · rw [hlaid.there e he, node_of_isFile (isFile_of_isRegular hfile)]
  · rw [hlaid.there e he, node_of_isPutOff hlink]
  · refine ⟨file.content, modeBits e.mode, modeBits file.mode, ?_, ?_⟩
    · rw [hlaid.there e he, node_of_isFile (isFile_of_isHardLink hlink),
        h.copies e he hlink file hfile hpath]
    · rw [hlaid.there file hfile, node_of_isFile (hmixed.isFile_of_named he hlink hfile hpath)]

end Realisable

/-- **A stream of every kind is realised exactly when it is realisable.** -/
theorem realised_iff (fresh : Fresh fs₀ out) (hplace : place fs₀ outDir = some out)
    (closed : Closed fs₀)
    (hmixed : Mixed entries) (log : List Effect) :
    Realised out entries (decompressCompressedTarStream id outDir ⟨fs₀, log⟩ entries).fs ↔
      Realisable fs₀ out outDir entries :=
  ⟨fun h => h.realisable fresh hplace hmixed log closed,
    fun h => h.realised fresh hplace hmixed log⟩

/-- What a hard link names can be looked for in the stream. -/
theorem named_of_mem
    (h : ∀ e ∈ entries, e.isHardLink = true → ∃ file ∈ entries, [file, e].Sublist entries ∧
      file.isFile = true ∧
      file.path = components e.linkName) (e : TarArchiveEntry) (he : e ∈ entries)
        (hlink : e.isHardLink = true) :
    ∃ file, [file, e].Sublist entries ∧ file.isFile = true ∧ file.path = components e.linkName := by
  obtain ⟨file, -, hfile⟩ := h e he hlink
  exact ⟨file, hfile⟩

/-- A file before its directory, a hard link to it with a content of its own, and a symbolic
link. -/
def passwd (copy : List UInt8) : List TarArchiveEntry :=
  [⟨"etc/passwd".toList, .normal, [], 0o644, [114, 111, 111, 116]⟩,
    ⟨"etc/passwd-".toList, .link, "etc/passwd".toList, 0o644, copy⟩,
    ⟨"etc/".toList, .directory, [], 0o755, []⟩,
    ⟨"bin".toList, .symlink, "usr/bin".toList, 0o777, []⟩]

/-- The hard link carries the content of the file. -/
theorem realised_passwd :
    Fresh cache extractedRootfs ∧ place cache extractedRootfs = some extractedRootfs ∧
      Closed cache ∧
      Mixed (passwd [114, 111, 111, 116]) ∧
      Realisable cache extractedRootfs extractedRootfs (passwd [114, 111, 111, 116]) ∧
      Realised extractedRootfs (passwd [114, 111, 111, 116])
        (decompressCompressedTarStream id extractedRootfs ⟨cache, []⟩
          (passwd [114, 111, 111, 116])).fs := by
  have fresh : Fresh cache extractedRootfs := fresh_of_isFresh (by decide +kernel)
  have hplace : place cache extractedRootfs = some extractedRootfs := by decide +kernel
  have closed : Closed cache := closed_of_wellPlaced (by decide +kernel)
  have hmixed : Mixed (passwd [114, 111, 111, 116]) :=
    ⟨by decide +kernel, by decide +kernel, by decide +kernel,
      named_of_mem (by decide +kernel), by decide +kernel,
      by decide +kernel, by decide +kernel⟩
  have hrealisable :
      Realisable cache extractedRootfs extractedRootfs (passwd [114, 111, 111, 116]) := by
    have hl2s : ∀ e ∈ passwd [114, 111, 111, 116], ¬ [".l2s".toList] <+: e.path := by decide +kernel
    have hsearch :
        ∀ e ∈ passwd [114, 111, 111, 116], grants (modeBits e.mode) .search = true ∨
          e.isDirectory = false := by
      decide +kernel
    refine ⟨by decide +kernel, by decide +kernel, by decide +kernel,
      fun e he hle => absurd hle (hl2s e he), ?_⟩
    intro upper e hsub hdir _ _ hno
    rcases hsearch upper (hsub.subset List.mem_cons_self) with h | h
    · rw [h] at hno
      cases hno
    · rw [h] at hdir
      cases hdir
  exact ⟨fresh, hplace, closed, hmixed, hrealisable,
    (realised_iff fresh hplace closed hmixed []).mpr hrealisable⟩

/-- It carries nothing, as hard links do. -/
theorem not_realised_passwd :
    (Fresh cache extractedRootfs ∧ place cache extractedRootfs = some extractedRootfs ∧
      Closed cache) ∧
      Mixed (passwd []) ∧
      ¬ Realised extractedRootfs (passwd [])
        (decompressCompressedTarStream id extractedRootfs ⟨cache, []⟩ (passwd [])).fs := by
  refine ⟨⟨fresh_of_isFresh (by decide +kernel), by decide +kernel,
    closed_of_wellPlaced (by decide +kernel)⟩,
    ⟨by decide +kernel, by decide +kernel, by decide +kernel,
      named_of_mem (by decide +kernel), by decide +kernel,
      by decide +kernel, by decide +kernel⟩, fun h => ?_⟩
  have hempty : (decompressCompressedTarStream id extractedRootfs ⟨cache, []⟩ (passwd [])).fs.get
      (extractedRootfs ++ ["etc".toList, "passwd-".toList]) = some (.file [] 0o644) := by
        decide +kernel
  have hfile :=
    h.files ⟨"etc/passwd".toList, .normal, [], 0o644, [114, 111, 111, 116]⟩ (by decide +kernel)
    (by decide +kernel)
  obtain ⟨content, m, m', hget, hget'⟩ :=
    h.hardLinks ⟨"etc/passwd-".toList, .link, "etc/passwd".toList, 0o644, []⟩
    (by decide +kernel) (by decide +kernel)
      ⟨"etc/passwd".toList, .normal, [], 0o644, [114, 111, 111, 116]⟩
    (by decide +kernel) (by decide +kernel)
  rw [hfile] at hget'
  have heq := hempty.symm.trans hget
  cases heq
  cases hget'

end WinEmulator.App
