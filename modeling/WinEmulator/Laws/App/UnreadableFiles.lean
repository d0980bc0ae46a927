import Mathlib.Algebra.BigOperators.Group.List.Basic
import Mathlib.Algebra.GroupWithZero.Nat
import WinEmulator.App.ExportArchive
import WinEmulator.Laws.App.ExportRootfs

/-!
# An export that meets files it cannot read

A file whose read ends before the size in its header leaves its entry open, and no entry can be put
or closed after that: each of the next files throws in its turn, and the first of the bound
directories throws where nothing catches it. A directory that cannot be listed ends the first walk
already. So the export comes to its end exactly if everything the walk gets to can be read, and then
nothing is missing.
-/

set_option autoImplicit false

namespace WinEmulator.App.ExportArchive

open WinEmulator.Lib WinEmulator.Lib.Fs WinEmulator.Lib.JavaFile
open WinEmulator.App.Rootfs

/-! ## The stream -/

namespace TarArchiveOutputStream

variable {tOut : TarArchiveOutputStream} {entry : TarArchiveEntry}

/-- The open entry lacks some of its bytes. -/
def Lacks (tOut : TarArchiveOutputStream) : Prop :=
  ∃ entry size, tOut.opened = some (entry, size) ∧ entry.content.length < size

/-- The entries, the open one too. -/
def written (tOut : TarArchiveOutputStream) : List TarArchiveEntry :=
  tOut.entries ++ (tOut.opened.map Prod.fst).toList

/-- No entry is put while the last one lacks bytes. -/
theorem putArchiveEntry_of_lacks (h : tOut.Lacks) : tOut.putArchiveEntry entry = none := by
  obtain ⟨opened, size, hopened, hless⟩ := h
  rw [putArchiveEntry, closeArchiveEntry, hopened]
  simp [hless]

/-- The new entry lacks its whole content at first. -/
theorem putArchiveEntry_of_not_lacks (h : ¬tOut.Lacks) (entry : TarArchiveEntry) :
    tOut.putArchiveEntry entry =
      some ⟨tOut.written, some ({ entry with content := [] }, entry.content.length)⟩ := by
  rw [putArchiveEntry, closeArchiveEntry, written]
  cases hopened : tOut.opened with
  | none => simp
  | some opened =>
    obtain ⟨last, size⟩ := opened
    have hfull : ¬last.content.length < size := fun hless => h ⟨last, size, hopened, hless⟩
    simp [hfull]

/-- An entry without a content. -/
theorem putArchiveEntry_bind_close (h : ¬tOut.Lacks) (entry : TarArchiveEntry) :
    (tOut.putArchiveEntry entry).bind closeArchiveEntry =
      if entry.content ≠ [] then none else some ⟨tOut.written ++ [entry], none⟩ := by
  rw [putArchiveEntry_of_not_lacks h, Option.bind_some, closeArchiveEntry]
  obtain ⟨name, linkFlag, linkName, mode, content⟩ := entry
  cases content with
  | nil => simp
  | cons byte content => simp

theorem not_lacks_of_closed (entries : List TarArchiveEntry) : ¬Lacks ⟨entries, none⟩ := by
  rintro ⟨entry, size, hopened, -⟩
  cases hopened

theorem written_closed (entries : List TarArchiveEntry) : written ⟨entries, none⟩ = entries :=
  List.append_nil entries

end TarArchiveOutputStream

open TarArchiveOutputStream

section

variable {fs : FileSystem} {faults : ReadFaults} {rootfsDir path : Path} {removeLen : Nat}
  {tOut : TarArchiveOutputStream}

/-! ## The callback -/

/-- The read of a file ends before its size. -/
def CutShort (fs : FileSystem) (faults : ReadFaults) (path : Path) : Prop :=
  ∃ content mode, lstat fs path = some (.file content mode) ∧
    (readFile faults path content mode).1.length < content.length

instance : DecidablePred (CutShort fs faults) := fun path =>
  match h : lstat fs path with
  | some (.file content mode) =>
    decidable_of_iff ((readFile faults path content mode).1.length < content.length)
      ⟨fun hless => ⟨content, mode, h, hless⟩, fun ⟨content', mode', h', hless⟩ => by
        obtain ⟨rfl, rfl⟩ := Node.file.inj (Option.some.inj (h.symm.trans h'))
        exact hless⟩
  | some (.dir _) => isFalse fun ⟨_, _, h', _⟩ => by cases h.symm.trans h'
  | some (.link _) => isFalse fun ⟨_, _, h', _⟩ => by cases h.symm.trans h'
  | none => isFalse fun ⟨_, _, h', _⟩ => by cases h.symm.trans h'

/-- What is read of a file is a beginning of its content. -/
theorem readFile_prefixed (faults : ReadFaults) (path : Path) (content : List UInt8) (mode : Mode) :
    (readFile faults path content mode).1 <+: content := by
  unfold readFile
  split
  · split
    · exact List.prefix_refl content
    · exact List.take_prefix _ content
  · exact List.nil_prefix

theorem walkEntry_of_lstat {node : Node} (removeLen : Nat) (h : lstat fs path = some node) :
    walkEntry fs removeLen path =
      some (Rootfs.tarEntry (path.drop removeLen) (modeOf node) node) := by
  rw [walkEntry, h, Option.bind_some, lstat_getTarEntry removeLen h, Option.map_some,
    modeOf_tarEntry]

theorem walkEntry_of_lstat_none (removeLen : Nat) (h : lstat fs path = none) :
    walkEntry fs removeLen path = none := by
  rw [walkEntry, h, Option.bind_none]

/-- A file is put, and as much of it is written as can be read. -/
theorem addPath_file {content : List UInt8} {mode : Mode}
    (h : lstat fs path = some (.file content mode))
    (hlacks : ¬tOut.Lacks) :
    addPath fs faults removeLen tOut path =
      let bytes := (readFile faults path content mode).1
      let tarEntry :=
        Rootfs.tarEntry (path.drop removeLen) (modeOf (.file content mode)) (.file content mode)
      let received : TarArchiveOutputStream :=
        ⟨tOut.written, some ({ tarEntry with content := bytes }, content.length)⟩
      if (readFile faults path content mode).2 then received.closeArchiveEntry.getD received
      else received := by
  have hroom : ¬content.length < (readFile faults path content mode).1.length :=
    Nat.not_lt.mpr (readFile_prefixed faults path content mode).length_le
  simp only [addPath, walkEntry_of_lstat removeLen h, putArchiveEntry_of_not_lacks hlacks, h, write,
    Rootfs.tarEntry,
    List.length_nil, Nat.zero_add, if_neg hroom, List.nil_append]

/-- Anything else is put and closed. -/
theorem addPath_other {node : Node} (h : lstat fs path = some node)
    (hnode : ∀ content mode, node ≠ .file content mode)
    (hlacks : ¬tOut.Lacks) :
    addPath fs faults removeLen tOut path =
      ⟨tOut.written ++ [Rootfs.tarEntry (path.drop removeLen) (modeOf node) node], none⟩ := by
  cases node with
  | file content mode => exact absurd rfl (hnode content mode)
  | dir mode =>
    simp [addPath, walkEntry_of_lstat removeLen h, putArchiveEntry_of_not_lacks hlacks, h,
      Rootfs.tarEntry,
      closeArchiveEntry]
  | link target =>
    simp [addPath, walkEntry_of_lstat removeLen h, putArchiveEntry_of_not_lacks hlacks, h,
      Rootfs.tarEntry,
      closeArchiveEntry]

/-- After an entry that lacks some of its bytes nothing changes any more. -/
theorem addPath_of_lacks (h : tOut.Lacks) : addPath fs faults removeLen tOut path = tOut := by
  unfold addPath
  split
  · rfl
  · rw [putArchiveEntry_of_lacks h]

/-- A file that is cut short leaves its entry lacking. -/
theorem lacks_addPath_of_cutShort (hlacks : ¬tOut.Lacks) (hcut : CutShort fs faults path) :
    (addPath fs faults removeLen tOut path).Lacks := by
  obtain ⟨content, mode, hfile, hless⟩ := hcut
  rw [addPath_file hfile hlacks]
  simp only [closeArchiveEntry, if_pos hless, Option.getD_none, ite_self]
  exact ⟨_, _, rfl, hless⟩

/-- Whatever is not cut short is in the archive. -/
theorem addPath_of_not_cutShort (removeLen : Nat) (hlacks : ¬tOut.Lacks)
    (hcut : ¬CutShort fs faults path) :
    ¬(addPath fs faults removeLen tOut path).Lacks ∧
      (addPath fs faults removeLen tOut path).written = tOut.written ++
        (walkEntry fs removeLen path).toList := by
  cases hnode : lstat fs path with
  | none =>
    have hadd : addPath fs faults removeLen tOut path = tOut := by
      rw [addPath, walkEntry_of_lstat_none removeLen hnode]
    rw [hadd, walkEntry_of_lstat_none removeLen hnode, Option.toList_none, List.append_nil]
    exact ⟨hlacks, rfl⟩
  | some node =>
    rw [walkEntry_of_lstat removeLen hnode]
    cases node with
    | file content mode =>
      have hwhole : (readFile faults path content mode).1 = content :=
        (readFile_prefixed faults path content mode).eq_of_length_le
          (Nat.not_lt.mp fun hless => hcut ⟨content, mode, hnode, hless⟩)
      rw [addPath_file hnode hlacks]
      simp only [hwhole, Rootfs.tarEntry, closeArchiveEntry, lt_self_iff_false, if_false,
        Option.getD_some]
      split
      · exact ⟨not_lacks_of_closed _, written_closed _⟩
      · refine ⟨?_, rfl⟩
        rintro ⟨entry, size, hopened, hless⟩
        obtain ⟨rfl, rfl⟩ := Prod.mk.inj (Option.some.inj hopened)
        exact Nat.lt_irrefl _ hless
    | dir mode =>
      rw [addPath_other hnode nofun hlacks]
      exact ⟨not_lacks_of_closed _, written_closed _⟩
    | link target =>
      rw [addPath_other hnode nofun hlacks]
      exact ⟨not_lacks_of_closed _, written_closed _⟩

/-! ## The second walk -/

/-- A stream that lacks bytes takes no further path. -/
theorem foldl_addPath_of_lacks {paths : List Path} (h : tOut.Lacks) :
    paths.foldl (addPath fs faults removeLen) tOut = tOut := by
  induction paths with
  | nil => rfl
  | cons path paths ih => rw [List.foldl_cons, addPath_of_lacks h, ih]

/-- One file cut short leaves the whole stream lacking. -/
theorem lacks_foldl_of_cutShort {paths : List Path} (hcut : ∃ path ∈ paths, CutShort fs faults path)
    (tOut : TarArchiveOutputStream) : (paths.foldl (addPath fs faults removeLen) tOut).Lacks := by
  induction paths generalizing tOut with
  | nil =>
    obtain ⟨path, hpath, -⟩ := hcut
    cases hpath
  | cons path paths ih =>
    rw [List.foldl_cons]
    by_cases hlacks : tOut.Lacks
    · rw [addPath_of_lacks hlacks, foldl_addPath_of_lacks hlacks]
      exact hlacks
    · by_cases hfirst : CutShort fs faults path
      · have hleft : (addPath fs faults removeLen tOut path).Lacks :=
          lacks_addPath_of_cutShort hlacks hfirst
        rw [foldl_addPath_of_lacks hleft]
        exact hleft
      · obtain ⟨other, hother, hcut⟩ := hcut
        rcases List.mem_cons.mp hother with rfl | hother
        · exact absurd hcut hfirst
        · exact ih ⟨other, hother, hcut⟩ _

/-- With no file cut short, every path is written. -/
theorem foldl_addPath_of_not_cutShort {paths : List Path} (removeLen : Nat) (hlacks : ¬tOut.Lacks)
    (hcut : ∀ path ∈ paths, ¬CutShort fs faults path) :
    ¬(paths.foldl (addPath fs faults removeLen) tOut).Lacks ∧
      (paths.foldl (addPath fs faults removeLen) tOut).written =
        tOut.written ++ paths.filterMap (walkEntry fs removeLen) := by
  induction paths generalizing tOut with
  | nil => exact ⟨hlacks, (List.append_nil _).symm⟩
  | cons path paths ih =>
    obtain ⟨hnot, hwritten⟩ :=
      addPath_of_not_cutShort removeLen hlacks (hcut path List.mem_cons_self)
    obtain ⟨hrest, heq⟩ := ih hnot fun path hpath => hcut path (List.mem_cons_of_mem _ hpath)
    refine ⟨hrest, ?_⟩
    rw [List.foldl_cons, heq, hwritten, List.append_assoc]
    cases hentry : walkEntry fs removeLen path with
    | none => rw [List.filterMap_cons_none hentry, Option.toList_none, List.nil_append]
    | some entry => rw [List.filterMap_cons_some hentry, Option.toList_some, List.singleton_append]

/-! ## The bound directories -/

theorem addBound_of_lacks {dir : Name} (h : tOut.Lacks) :
    addBound fs rootfsDir removeLen tOut dir = none := by
  unfold addBound
  cases getTarEntry fs (rootfsDir ++ [dir]) removeLen with
  | none => rfl
  | some entry => rw [Option.bind_some, putArchiveEntry_of_lacks h, Option.bind_none]

theorem addBound_of_not_lacks {dir : Name} (h : ¬tOut.Lacks) :
    addBound fs rootfsDir removeLen tOut dir =
      (boundEntry fs rootfsDir removeLen dir).map fun entry => ⟨tOut.written ++ [entry], none⟩ := by
  unfold addBound boundEntry
  cases getTarEntry fs (rootfsDir ++ [dir]) removeLen with
  | none => rfl
  | some entry =>
    rw [Option.bind_some, Option.bind_some, putArchiveEntry_bind_close h]
    by_cases htmp : dir = "tmp".toList
    · rw [if_pos htmp, apply_ite (Option.map _)]
      rfl
    · rw [if_neg htmp, apply_ite (Option.map _)]
      rfl

/-- On a complete stream, all the bound directories are written or the export throws. -/
theorem foldlM_addBound_closed (entries : List TarArchiveEntry) (dirs : List Name) :
    dirs.foldlM (addBound fs rootfsDir removeLen) ⟨entries, none⟩ =
      (dirs.mapM (boundEntry fs rootfsDir removeLen)).map fun bound =>
        ⟨entries ++ bound, none⟩ := by
  induction dirs generalizing entries with
  | nil => simp
  | cons dir dirs ih =>
    rw [List.foldlM_cons, List.mapM_cons, addBound_of_not_lacks (not_lacks_of_closed entries),
      written_closed]
    cases boundEntry fs rootfsDir removeLen dir with
    | none => rfl
    | some entry =>
      show dirs.foldlM (addBound fs rootfsDir removeLen) ⟨entries ++ [entry], none⟩ = _
      rw [ih]
      cases dirs.mapM (boundEntry fs rootfsDir removeLen) with
      | none => rfl
      | some bound => simp

/-- What becomes of the stream after the second walk. -/
theorem finish_foldlM_addBound (fs : FileSystem) (rootfsDir : Path) (removeLen : Nat)
    (tOut : TarArchiveOutputStream)
    {dirs : List Name} (hdirs : dirs ≠ []) :
    (tOut.Lacks → dirs.foldlM (addBound fs rootfsDir removeLen) tOut = none) ∧
      (¬tOut.Lacks → (dirs.foldlM (addBound fs rootfsDir removeLen) tOut).bind finish =
        (dirs.mapM (boundEntry fs rootfsDir removeLen)).map (tOut.written ++ ·)) := by
  obtain ⟨dir, dirs, rfl⟩ := List.exists_cons_of_ne_nil hdirs
  constructor
  · intro hlacks
    rw [List.foldlM_cons, addBound_of_lacks hlacks]
    rfl
  · intro hlacks
    have hclosed : (dir :: dirs).foldlM (addBound fs rootfsDir removeLen) tOut =
        (dir :: dirs).foldlM (addBound fs rootfsDir removeLen) ⟨tOut.written, none⟩ := by
      rw [List.foldlM_cons, List.foldlM_cons, addBound_of_not_lacks hlacks,
        addBound_of_not_lacks (not_lacks_of_closed tOut.written), written_closed]
    rw [hclosed, foldlM_addBound_closed, Option.bind_map]
    cases (dir :: dirs).mapM (boundEntry fs rootfsDir removeLen) with
    | none => rfl
    | some bound => rfl

/-! ## The whole export -/

/-- **An export** is none if a directory cannot be listed or a file is cut short, and an entry for
each path else. -/
theorem exportRootfsArchive_eq {m : Mode} (hroot : lstat fs rootfsDir = some (.dir m)) :
    exportRootfsArchive fs faults rootfsDir =
      (listDirectoryEntries fs faults rootfsDir).bind fun contents =>
        (walk fs faults
          (contents.filter fun path => !ignoreRootfsSubDirs.contains (getName path))).bind
          fun paths =>
          if ∃ path ∈ paths, CutShort fs faults path then none
          else
            (boundDirs.mapM (boundEntry fs rootfsDir rootfsDir.dropLast.length)).map fun bound =>
              Rootfs.tarEntry (rootfsDir.drop rootfsDir.dropLast.length) DEFAULT_DIR_MODE
                (.dir m) ::
                paths.filterMap (walkEntry fs rootfsDir.dropLast.length) ++ bound := by
  unfold exportRootfsArchive
  cases listDirectoryEntries fs faults rootfsDir with
  | none => rfl
  | some contents =>
    simp only [Option.bind_some]
    cases walk fs faults
      (contents.filter fun path => !ignoreRootfsSubDirs.contains (getName path)) with
    | none => rfl
    | some paths =>
      simp only [Option.bind_some, lstat_getTarEntry _ hroot,
        putArchiveEntry_of_not_lacks (not_lacks_of_closed [])]
      obtain ⟨hlacks, hfull⟩ := finish_foldlM_addBound fs rootfsDir rootfsDir.dropLast.length
        (paths.foldl (addPath fs faults rootfsDir.dropLast.length)
          ⟨written ⟨[], none⟩,
            some (Rootfs.tarEntry (rootfsDir.drop rootfsDir.dropLast.length) DEFAULT_DIR_MODE
            (.dir m), 0)⟩)
        (show boundDirs ≠ [] by decide)
      split
      case isTrue hcut =>
        exact congrArg (Option.bind · finish) (hlacks (lacks_foldl_of_cutShort hcut _))
      case isFalse hcut =>
        have hopen :
            ¬(⟨written ⟨[], none⟩, some (Rootfs.tarEntry (rootfsDir.drop rootfsDir.dropLast.length)
            DEFAULT_DIR_MODE (.dir m), 0)⟩ : TarArchiveOutputStream).Lacks := by
          rintro ⟨entry, size, hopened, hless⟩
          obtain ⟨rfl, rfl⟩ := Prod.mk.inj (Option.some.inj hopened)
          exact Nat.not_lt_zero _ hless
        have hwhole : ∀ path ∈ paths, ¬CutShort fs faults path :=
          fun path hpath hshort => hcut ⟨path, hpath, hshort⟩
        obtain ⟨hnot, hwritten⟩ :=
          foldl_addPath_of_not_cutShort rootfsDir.dropLast.length hopen hwhole
        refine (hfull hnot).trans ?_
        rw [hwritten]
        rfl

/-! ## Nothing else fails -/

/-- Without faults the walk is the one of the plain export. -/
theorem walk_none (fs : FileSystem) (n : Nat) (paths : List Path) :
    BreadthFirst.walk (entriesBelow fs .none) n paths = Rootfs.walk fs n paths := by
  induction n generalizing paths with
  | zero =>
    cases paths with
    | nil => rfl
    | cons path rest => rfl
  | succ n ih =>
    cases paths with
    | nil => rfl
    | cons path rest =>
      rw [BreadthFirst.walk, Rootfs.walk, entriesBelow]
      split
      · show (Rootfs.listDirectoryEntries fs path).bind _ = _
        simp only [ih]
      · rw [Option.bind_some, List.append_nil, ih]

/-- Without faults, the files cut short are those that cannot be read. -/
theorem cutShort_none_iff : CutShort fs .none path ↔ leavesOpen fs path = true := by
  unfold leavesOpen
  constructor
  · rintro ⟨content, mode, hfile, hless⟩
    have hgrants : grants mode .read = false := by
      by_contra hgrants
      simp only [readFile, ReadFaults.none, if_pos ((Bool.not_eq_false _).mp hgrants),
        lt_self_iff_false] at hless
    rw [hfile]
    cases content with
    | nil => exact absurd hless (Nat.not_lt_zero _)
    | cons byte content => simp [hgrants]
  · intro hopen
    split at hopen
    case h_1 content mode hfile =>
      obtain ⟨hgrants, hcontent⟩ := Bool.and_eq_true_iff.mp hopen
      refine ⟨content, mode, hfile, ?_⟩
      rw [Bool.not_eq_true'] at hgrants hcontent
      simp only [readFile, hgrants, Bool.false_eq_true, if_false, List.length_nil]
      exact List.length_pos_of_ne_nil (List.isEmpty_eq_false_iff.mp hcontent)
    case h_2 => cases hopen

/-- Where nothing fails but what the permissions forbid, the export is the one without the errors of
its streams. -/
theorem exportRootfsArchive_none {m : Mode} (hroot : lstat fs rootfsDir = some (.dir m)) :
    exportRootfsArchive fs .none rootfsDir = Rootfs.exportRootfsArchive fs rootfsDir := by
  rw [exportRootfsArchive_eq hroot, Rootfs.exportRootfsArchive]
  show (Rootfs.listDirectoryEntries fs rootfsDir).bind _ = _
  cases Rootfs.listDirectoryEntries fs rootfsDir with
  | none => rfl
  | some contents =>
    rw [Option.bind_some, Option.bind_some, lstat_getTarEntry _ hroot, Option.bind_some, walk,
      walk_none]
    refine congrArg _ (funext fun paths => ?_)
    have hany : (∃ path ∈ paths, CutShort fs .none path) ↔ paths.any (leavesOpen fs) = true := by
      rw [List.any_eq_true]
      exact exists_congr fun path => and_congr_right fun _ => cutShort_none_iff
    by_cases hcut : ∃ path ∈ paths, CutShort fs .none path
    · rw [if_pos hcut, if_pos (hany.mp hcut)]
    · rw [if_neg hcut, if_neg fun hopen => hcut (hany.mpr hopen)]
      rfl

end

/-! ## The tree -/

/-- A directory with a tree of files, of which nothing else is known. -/
structure Tree (fs : FileSystem) (root : Loc) (rootfsDir : Path) : Prop where
  closed : Closed fs
  place : place fs rootfsDir = some root
  dir : ∃ m, fs.get root = some (.dir m)

namespace Tree

variable {fs : FileSystem} {faults : ReadFaults} {root : Loc} {rootfsDir : Path} {rel : List Name}
  {node : Node}

theorem ne_nil (h : Tree fs root rootfsDir) : root ≠ [] := ne_nil_of_place_some h.place

theorem lstat_root (h : Tree fs root rootfsDir) : ∃ m, lstat fs rootfsDir = some (.dir m) := by
  obtain ⟨m, hm⟩ := h.dir
  exact ⟨m, by rw [lstat, h.place, Option.bind_some, hm]⟩

theorem path (h : Tree fs root rootfsDir) : resolve fs false rootfsDir = some root := by
  obtain ⟨m, hm⟩ := h.dir
  exact resolve_of_place_dir h.place hm

theorem clear_root (h : Tree fs root rootfsDir) : Clear fs root := walk_clear clear_nil h.path

/-- Above a node there are directories only. -/
theorem dirs_above (h : Tree fs root rootfsDir) (hget : fs.get (root ++ rel) ≠ none) {q : List Name}
    (hle : q <+: rel)
    (hne : q ≠ rel) : ∃ m, fs.get (root ++ q) = some (.dir m) := by
  obtain ⟨m, hm⟩ := h.closed.dir_above ((List.prefix_append_right_inj root).mpr hle)
    (fun heq => hne (List.append_cancel_left heq)) hget
  rw [node_of_ne_nil (List.append_ne_nil_of_left_ne_nil h.ne_nil _)] at hm
  exact ⟨m, hm⟩

/-- A node that is found has directories above it that can be searched. -/
theorem clear_of_lstat (h : Tree fs root rootfsDir) (hget : fs.get (root ++ rel) ≠ none)
    (hlstat : lstat fs (rootfsDir ++ rel) ≠ none) : Clear fs (root ++ rel) := by
  cases rel using List.reverseRecOn with
  | nil =>
    rw [List.append_nil]
    exact h.clear_root
  | append_singleton rel c =>
    obtain ⟨l, hl⟩ : ∃ l, Fs.place fs (rootfsDir ++ (rel ++ [c])) = some l := by
      apply Option.ne_none_iff_exists'.mp
      intro hnone
      rw [lstat, hnone] at hlstat
      exact hlstat rfl
    rw [← List.append_assoc] at hl
    obtain ⟨hc, parent, hresolve, hgrants, -⟩ := place_concat_iff.mp hl
    obtain ⟨n, hn⟩ := walk_append_same (fun _ _ => rfl) false rel h.path
    obtain ⟨follow, heq⟩ := walk_eq fs false n
    have hwalk : walkWith fs false follow root rel = some parent := by
      rw [← heq, ← hn]
      exact hresolve
    have hproper := h.closed.names_below h.ne_nil hget
    obtain ⟨rfl, hclear⟩ :=
        walkWith_dirs (fun d hd => (hproper d (List.mem_append_left _ hd)).1) (fun q hq _ =>
      h.dirs_above hget (hq.trans (List.prefix_append rel [c])) fun heq => by
        have hlength := hq.length_le
        rw [heq, List.length_append, List.length_singleton] at hlength
        omega) h.clear_root hwalk
    rw [← List.append_assoc]
    exact hclear.concat hc hgrants

theorem lstat_of_clear (h : Tree fs root rootfsDir) (hclear : Clear fs (root ++ rel)) :
    lstat fs (rootfsDir ++ rel) = fs.get (root ++ rel) := by
  cases rel using List.reverseRecOn with
  | nil => rw [List.append_nil, List.append_nil, lstat, h.place, Option.bind_some]
  | append_singleton rel c => rw [lstat, place_below h.path hclear, Option.bind_some]

/-- What is found is the node. -/
theorem lstat_eq (h : Tree fs root rootfsDir) (hget : fs.get (root ++ rel) ≠ none)
    (hlstat : lstat fs (rootfsDir ++ rel) ≠ none) :
    lstat fs (rootfsDir ++ rel) = fs.get (root ++ rel) :=
  h.lstat_of_clear (h.clear_of_lstat hget hlstat)

/-- The directories above a file that is seen are seen too. -/
theorem lstat_upto (h : Tree fs root rootfsDir) (hget : fs.get (root ++ rel) ≠ none)
    (hlstat : lstat fs (rootfsDir ++ rel) ≠ none) {q : List Name} (hle : q <+: rel)
    (hne : q ≠ rel) :
    ∃ m, lstat fs (rootfsDir ++ q) = some (.dir m) ∧ fs.get (root ++ q) = some (.dir m) := by
  obtain ⟨m, hm⟩ := h.dirs_above hget hle hne
  have hclear := (h.clear_of_lstat hget hlstat).upto ((List.prefix_append_right_inj root).mpr hle)
  exact ⟨m, by rw [h.lstat_of_clear hclear, hm], hm⟩

/-- The listing of a directory that is found. -/
theorem of_listDirectoryEntries (h : Tree fs root rootfsDir) {m : Mode} {entries : List Path}
    (hdir : fs.get (root ++ rel) = some (.dir m)) (hlstat : lstat fs (rootfsDir ++ rel) ≠ none)
    (hentries : listDirectoryEntries fs faults (rootfsDir ++ rel) = some entries) :
    entries = (children fs (root ++ rel)).map fun c => rootfsDir ++ (rel ++ [c]) := by
  have hget : fs.get (root ++ rel) ≠ none := Option.ne_none_iff_exists'.mpr ⟨_, hdir⟩
  have hresolve : resolve fs false (rootfsDir ++ rel) = some (root ++ rel) :=
    resolve_node_below h.path (h.clear_of_lstat hget hlstat) false hdir fun t h => by cases h
  unfold listDirectoryEntries at hentries
  split at hentries
  case isTrue => cases hentries
  case isFalse =>
    rw [Rootfs.listDirectoryEntries, list, hresolve, Option.bind_some] at hentries
    split at hentries
    · rw [← Option.some.inj hentries]
      simp only [List.append_assoc]
    · cases hentries

/-! ## What the walk gets to -/

/-- Where the walk starts. -/
def tops (fs : FileSystem) (root : Loc) (rootfsDir : Path) : List Path :=
  (topNames fs root).map fun c => rootfsDir ++ [c]

/-- Outside of the ignored directories. -/
def Walked (rel : List Name) : Prop := ∃ c rest, rel = c :: rest ∧ c ∉ ignoreRootfsSubDirs

theorem Walked.concat (h : Walked rel) (c : Name) : Walked (rel ++ [c]) := by
  obtain ⟨d, rest, rfl, hd⟩ := h
  exact ⟨d, rest ++ [c], rfl, hd⟩

/-- A listing has all the children of its directory, or none. -/
theorem of_entriesBelow (h : Tree fs root rootfsDir) (hget : fs.get (root ++ rel) ≠ none)
    {entries : List Path}
    (hentries : entriesBelow fs faults (rootfsDir ++ rel) = some entries) :
    entries = [] ∨ entries = (children fs (root ++ rel)).map fun c =>
      rootfsDir ++ (rel ++ [c]) := by
  unfold entriesBelow at hentries
  split at hentries
  case isTrue hisDir =>
    cases hnode : lstat fs (rootfsDir ++ rel) with
    | none =>
      rw [hnode] at hisDir
      cases hisDir
    | some node =>
      rw [hnode] at hisDir
      have hlstat : lstat fs (rootfsDir ++ rel) ≠ none := by
        rw [hnode]
        exact nofun
      cases node with
      | dir m =>
        exact .inr (h.of_listDirectoryEntries ((h.lstat_eq hget hlstat).symm.trans hnode) hlstat
          hentries)
      | file content m => cases hisDir
      | link target => cases hisDir
  case isFalse => exact .inl (Option.some.inj hentries).symm

/-- The walk gets to nodes outside of the ignored directories. -/
theorem of_reach (h : Tree fs root rootfsDir) {path : Path}
    (hreach : BreadthFirst.Reach (entriesBelow fs faults) (tops fs root rootfsDir) path) :
    ∃ rel, path = rootfsDir ++ rel ∧ Walked rel ∧ fs.get (root ++ rel) ≠ none := by
  induction hreach with
  | queue hmem =>
    obtain ⟨c, hc, rfl⟩ := List.mem_map.mp hmem
    obtain ⟨hget, hignored⟩ := mem_topNames.mp hc
    exact ⟨[c], rfl, ⟨c, [], rfl, hignored⟩, hget⟩
  | child _ hentries hmem ih =>
    obtain ⟨rel, rfl, hwalked, hget⟩ := ih
    rcases h.of_entriesBelow hget hentries with rfl | rfl
    · cases hmem
    · obtain ⟨c, hc, rfl⟩ := List.mem_map.mp hmem
      refine ⟨rel ++ [c], rfl, hwalked.concat c, ?_⟩
      rw [← List.append_assoc]
      exact mem_children.mp hc

/-- And to each of these that is found, unless a listing fails before. -/
theorem reach (h : Tree fs root rootfsDir) (hwalked : Walked rel)
    (hget : fs.get (root ++ rel) ≠ none)
    (hlstat : lstat fs (rootfsDir ++ rel) ≠ none)
    (hlisted : ∀ path, BreadthFirst.Reach (entriesBelow fs faults) (tops fs root rootfsDir) path →
      entriesBelow fs faults path ≠ none) :
    BreadthFirst.Reach (entriesBelow fs faults) (tops fs root rootfsDir) (rootfsDir ++ rel) := by
  induction rel using List.reverseRecOn with
  | nil =>
    obtain ⟨c, rest, hnil, -⟩ := hwalked
    cases hnil
  | append_singleton rel c ih =>
    by_cases hrel : rel = []
    · subst hrel
      obtain ⟨d, rest, heq, hignored⟩ := hwalked
      obtain ⟨rfl, -⟩ := List.cons.inj heq
      exact .queue (List.mem_map_of_mem (mem_topNames.mpr ⟨hget, hignored⟩))
    · have hwalked' : Walked rel := by
        obtain ⟨d, rest, rfl⟩ := List.exists_cons_of_ne_nil hrel
        obtain ⟨d', rest', heq, hignored⟩ := hwalked
        obtain ⟨rfl, -⟩ := List.cons.inj heq
        exact ⟨d, rest, rfl, hignored⟩
      obtain ⟨m, hm, hdir⟩ := h.lstat_upto hget hlstat (List.prefix_append rel [c]) (by simp)
      have hlstat' : lstat fs (rootfsDir ++ rel) ≠ none := by
        rw [hm]
        exact nofun
      have hparent := ih hwalked' (by rw [hdir]; exact nofun) hlstat'
      obtain ⟨entries, hentries⟩ := Option.ne_none_iff_exists'.mp (hlisted _ hparent)
      have hlisting : listDirectoryEntries fs faults (rootfsDir ++ rel) = some entries := by
        rw [entriesBelow, hm] at hentries
        exact hentries
      refine .child hparent hentries ?_
      rw [h.of_listDirectoryEntries hdir hlstat' hlisting]
      refine List.mem_map_of_mem (mem_children.mpr ?_)
      rwa [List.append_assoc]

/-! ## How much there is to walk -/

theorem sum_prefix_le_one (l x : Loc) {cs : List Name} (hcs : cs.Nodup) :
    (cs.map fun c => if (l ++ [c]).isPrefixOf x = true then 1 else 0).sum ≤
      if decide (l <+: x ∧ x ≠ l) = true then 1 else 0 := by
  induction cs with
  | nil => exact Nat.zero_le _
  | cons c cs ih =>
    obtain ⟨hc, hcs⟩ := List.nodup_cons.mp hcs
    rw [List.map_cons, List.sum_cons]
    by_cases hle : l ++ [c] <+: x
    · have hothers : ∀ d ∈ cs, (if (l ++ [d]).isPrefixOf x = true then 1 else 0) = 0 := by
        intro d hd
        have hne : d ≠ c := fun heq => hc (heq ▸ hd)
        exact if_neg fun hother => not_prefix_sibling hne hle (List.isPrefixOf_iff_prefix.mp hother)
      have hself : l <+: x ∧ x ≠ l := by
        refine ⟨(List.prefix_append l [c]).trans hle, ?_⟩
        rintro rfl
        exact not_prefix_parent _ c hle
      rw [if_pos (List.isPrefixOf_iff_prefix.mpr hle), List.map_congr_left hothers,
        if_pos (decide_eq_true hself)]
      simp
    · rw [if_neg fun hle' => hle (List.isPrefixOf_iff_prefix.mp hle'), Nat.zero_add]
      exact ih hcs

/-- What is below the names in a directory is below the directory. -/
theorem sum_below_le (l : Loc) {cs : List Name} (hcs : cs.Nodup) (locs : List Loc) :
    (cs.map fun c => locs.countP fun x => (l ++ [c]).isPrefixOf x).sum ≤
      locs.countP fun x => decide (l <+: x ∧ x ≠ l) := by
  induction locs with
  | nil => simp
  | cons x locs ih =>
    simp only [List.countP_cons, List.sum_map_add]
    exact Nat.add_le_add ih (sum_prefix_le_one l x hcs)

theorem below_lt (l : Loc) {locs : List Loc} (hl : l ∈ locs) :
    (locs.countP fun x => decide (l <+: x ∧ x ≠ l)) < locs.countP fun x => l.isPrefixOf x := by
  obtain ⟨before, after, rfl⟩ := List.append_of_mem hl
  have hle :
      ∀ locs : List Loc, (locs.countP fun x => decide (l <+: x ∧ x ≠ l)) ≤ locs.countP fun x =>
        l.isPrefixOf x :=
    fun locs => List.countP_mono_left fun x _ hx =>
      List.isPrefixOf_iff_prefix.mpr (of_decide_eq_true hx).1
  rw [List.countP_append, List.countP_append, List.countP_cons, List.countP_cons]
  have hbefore := hle before
  have hafter := hle after
  have hself : decide (l <+: l ∧ l ≠ l) = false := decide_eq_false fun h => h.2 rfl
  have hprefix : l.isPrefixOf l = true := List.isPrefixOf_iff_prefix.mpr (List.prefix_refl l)
  rw [hself, hprefix, if_neg Bool.false_ne_true, if_pos rfl]
  omega

/-- How many nodes there are at a path and below it. -/
def size (fs : FileSystem) (root : Loc) (rootfsDir path : Path) : Nat :=
  (fs.entries.map Prod.fst).countP fun x => (root ++ path.drop rootfsDir.length).isPrefixOf x

theorem size_path (fs : FileSystem) (root : Loc) (rootfsDir : Path) (rel : List Name) :
    size fs root rootfsDir (rootfsDir ++ rel) = (fs.entries.map Prod.fst).countP fun x =>
      (root ++ rel).isPrefixOf x := by
  rw [size, List.drop_left]

/-- The children of a directory hold no more than what is below it. -/
theorem sum_size_le (fs : FileSystem) (root : Loc) (rootfsDir : Path) (rel : List Name)
    {cs : List Name} (hcs : cs.Nodup) :
    ((cs.map fun c => rootfsDir ++ (rel ++ [c])).map (size fs root rootfsDir)).sum ≤
      (fs.entries.map Prod.fst).countP fun x => decide (root ++ rel <+: x ∧ x ≠ root ++ rel) := by
  rw [List.map_map]
  refine le_trans (le_of_eq (congrArg List.sum (List.map_congr_left fun c _ => ?_)))
    (sum_below_le (root ++ rel) hcs (fs.entries.map Prod.fst))
  rw [Function.comp_apply, size_path, List.append_assoc]

/-- The walk ends if no listing fails. -/
theorem exists_walk (h : Tree fs root rootfsDir)
    (hlisted : ∀ path, BreadthFirst.Reach (entriesBelow fs faults) (tops fs root rootfsDir) path →
      entriesBelow fs faults path ≠ none) :
    ∃ paths, walk fs faults (tops fs root rootfsDir) = some paths := by
  refine BreadthFirst.exists_walk (size fs root rootfsDir) (fun path entries hreach hentries => ?_)
    hlisted ?_
  · obtain ⟨rel, rfl, -, hget⟩ := h.of_reach hreach
    obtain ⟨node, hnode⟩ := Option.ne_none_iff_exists'.mp hget
    have hless := below_lt (root ++ rel) (List.mem_map_of_mem (f := Prod.fst) (fs.mem_of_get hnode))
    rw [size_path]
    rcases h.of_entriesBelow hget hentries with rfl | rfl
    · exact Nat.lt_of_le_of_lt (Nat.zero_le _) hless
    · exact Nat.lt_of_le_of_lt (sum_size_le fs root rootfsDir rel (nodup_children fs _)) hless
  · refine (sum_size_le fs root rootfsDir [] ((nodup_children fs root).filter _)).trans ?_
    exact List.countP_le_length.trans (Nat.le_of_eq (List.length_map _))

/-! ## The archive -/

theorem rootfsContents_eq (h : Tree fs root rootfsDir) {contents : List Path}
    (hcontents : listDirectoryEntries fs faults rootfsDir = some contents) :
    (contents.filter fun path => !ignoreRootfsSubDirs.contains (getName path)) =
      tops fs root rootfsDir := by
  obtain ⟨m, hm⟩ := h.dir
  obtain ⟨m', hm'⟩ := h.lstat_root
  have hget : fs.get (root ++ []) = some (.dir m) := by rwa [List.append_nil]
  have hnode : lstat fs (rootfsDir ++ []) ≠ none := by
    rw [List.append_nil, hm']
    exact nofun
  have hlisted : listDirectoryEntries fs faults (rootfsDir ++ []) = some contents := by
    rwa [List.append_nil]
  have hlisting := h.of_listDirectoryEntries hget hnode hlisted
  rw [hlisting, List.filter_map, List.append_nil, tops, topNames]
  congr 1
  refine List.filter_congr fun c _ => ?_
  simp [getName]

theorem boundEntry_of_lstat {dir name : Name} {q : Path} {node : Node}
    (hdir : dir ∈ ignoreRootfsSubDirs)
    (hlstat : lstat fs (q ++ [name] ++ [dir]) = some node)
    (hempty : ∀ content m, node = .file content m → content = []) :
    boundEntry fs (q ++ [name]) (q ++ [name]).dropLast.length dir =
      some (entryAt name [dir] node) := by
  have hcontent : (Rootfs.tarEntry (name :: [dir]) (defaultMode node) node).content = [] := by
    cases node with
    | dir m => rfl
    | link target => rfl
    | file content m => exact hempty content m rfl
  rw [boundEntry, lstat_getTarEntry _ hlstat, Option.bind_some, drop_rootfsDir,
    if_neg (not_not_intro hcontent), entryAt,
    entryMode, if_pos hdir, modeOf_tarEntry]
  split <;> rfl

theorem exists_boundEntry_iff {dir : Name} {removeLen : Nat} :
    boundEntry fs rootfsDir removeLen dir ≠ none ↔
      ∃ node, lstat fs (rootfsDir ++ [dir]) = some node ∧ ∀ content m, node = .file content m →
        content = [] := by
  unfold boundEntry
  cases hlstat : lstat fs (rootfsDir ++ [dir]) with
  | none =>
    rw [getTarEntry, hlstat]
    constructor
    · exact fun h => absurd rfl h
    · rintro ⟨_, h, _⟩
      cases h
  | some node =>
    rw [lstat_getTarEntry _ hlstat, Option.bind_some]
    cases node with
    | dir m =>
      exact ⟨fun _ => ⟨_, rfl, fun _ _ h => by cases h⟩, fun _ => by simp [Rootfs.tarEntry]⟩
    | link target =>
      exact ⟨fun _ => ⟨_, rfl, fun _ _ h => by cases h⟩, fun _ => by simp [Rootfs.tarEntry]⟩
    | file content m =>
      constructor
      · intro h
        refine ⟨_, rfl, fun content' m' heq => ?_⟩
        obtain ⟨rfl, -⟩ := Node.file.inj heq
        by_contra hcontent
        exact h (if_pos hcontent)
      · rintro ⟨node, heq, hempty⟩
        obtain rfl := Option.some.inj heq
        simp [Rootfs.tarEntry, hempty content m rfl]

end Tree

section

variable {fs : FileSystem} {faults : ReadFaults} {root : Loc} {rootfsDir : Path}

/-- A file can be read to its end, a directory can be listed, and a link is a link. -/
def CanRead (fs : FileSystem) (faults : ReadFaults) (path : Path) : Prop :=
  match lstat fs path with
  | some (.dir _) => listDirectoryEntries fs faults path ≠ none
  | some (.file content mode) => readFile faults path content mode = (content, true)
  | some (.link _) => True
  | none => False

/-- What belongs in the archive: the rootfs itself, what is outside of the ignored directories, and
the bound ones. -/
def Exported (rel : List Name) : Prop := rel = [] ∨ Tree.Walked rel ∨ ∃ dir ∈ boundDirs, rel = [dir]

/-- The export comes to its end, and the archive has everything that can be read and is not below a
directory that cannot. -/
def Complete (fs : FileSystem) (faults : ReadFaults) (root : Loc) (rootfsDir : Path) : Prop :=
  ∃ archive, exportRootfsArchive fs faults rootfsDir = some archive ∧
    ∀ rel node, Exported rel → fs.get (root ++ rel) = some node →
      CanRead fs faults (rootfsDir ++ rel) →
      (∀ q, q <+: rel → q ≠ rel → CanRead fs faults (rootfsDir ++ q)) →
      entryAt (getName rootfsDir) rel node ∈ archive

/-- Everything the walk gets to can be listed or read up to its size, and the bound directories are
there, with nothing to read. -/
structure AllRead (fs : FileSystem) (faults : ReadFaults) (root : Loc) (rootfsDir : Path) :
    Prop where
  top : listDirectoryEntries fs faults rootfsDir ≠ none
  dirs : ∀ rel m, Tree.Walked rel → fs.get (root ++ rel) = some (.dir m) →
    lstat fs (rootfsDir ++ rel) ≠ none →
    listDirectoryEntries fs faults (rootfsDir ++ rel) ≠ none
  files : ∀ rel, Tree.Walked rel → fs.get (root ++ rel) ≠ none →
    ¬CutShort fs faults (rootfsDir ++ rel)
  bound : ∀ dir ∈ boundDirs, ∃ node, lstat fs (rootfsDir ++ [dir]) = some node ∧
    ∀ content m, node = .file content m → content = []

theorem CanRead.lstat {path : Path} (h : CanRead fs faults path) : Rootfs.lstat fs path ≠ none := by
  intro hnone
  rw [CanRead, hnone] at h
  exact h

theorem AllRead.listed (h : AllRead fs faults root rootfsDir) (htree : Tree fs root rootfsDir) :
    ∀ path, BreadthFirst.Reach (entriesBelow fs faults) (Tree.tops fs root rootfsDir) path →
      entriesBelow fs faults path ≠ none := by
  intro path hreach
  obtain ⟨rel, rfl, hwalked, hget⟩ := htree.of_reach hreach
  unfold entriesBelow
  split
  case isTrue hisDir =>
    cases hnode : lstat fs (rootfsDir ++ rel) with
    | none =>
      rw [hnode] at hisDir
      cases hisDir
    | some node =>
      rw [hnode] at hisDir
      have hlstat : lstat fs (rootfsDir ++ rel) ≠ none := by
        rw [hnode]
        exact nofun
      cases node with
      | dir m => exact h.dirs rel m hwalked ((htree.lstat_eq hget hlstat).symm.trans hnode) hlstat
      | file content m => cases hisDir
      | link target => cases hisDir
  case isFalse => exact nofun

/-- **An export is complete** if and only if everything the walk gets to can be read. -/
theorem complete_iff_allRead (htree : Tree fs root rootfsDir) :
    Complete fs faults root rootfsDir ↔ AllRead fs faults root rootfsDir := by
  obtain ⟨m, hroot⟩ := htree.lstat_root
  obtain ⟨q, name, rfl⟩ := ne_nil_of_place htree.place
  constructor
  · rintro ⟨archive, hexport, -⟩
    rw [exportRootfsArchive_eq hroot] at hexport
    obtain ⟨contents, hcontents, hexport⟩ := Option.bind_eq_some_iff.mp hexport
    rw [htree.rootfsContents_eq hcontents] at hexport
    obtain ⟨paths, hwalk, hexport⟩ := Option.bind_eq_some_iff.mp hexport
    have hlisted :
        ∀ path, BreadthFirst.Reach (entriesBelow fs faults) (Tree.tops fs root (q ++ [name])) path →
        entriesBelow fs faults path ≠ none := fun path hreach =>
      BreadthFirst.children_of_walk hwalk path ((BreadthFirst.mem_walk hwalk).mpr hreach)
    split at hexport
    case isTrue => cases hexport
    case isFalse hcut =>
      obtain ⟨bound, hbound, -⟩ := Option.map_eq_some_iff.mp hexport
      refine ⟨?_, ?_, ?_, ?_⟩
      · exact Option.ne_none_iff_exists'.mpr ⟨_, hcontents⟩
      · intro rel mode hwalked hdir hlstat
        have hget : fs.get (root ++ rel) ≠ none := Option.ne_none_iff_exists'.mpr ⟨_, hdir⟩
        have hchildren := hlisted _ (htree.reach hwalked hget hlstat hlisted)
        rwa [entriesBelow, htree.lstat_eq hget hlstat, hdir] at hchildren
      · intro rel hwalked hget hshort
        refine hcut ⟨_, (BreadthFirst.mem_walk hwalk).mpr (htree.reach hwalked hget ?_ hlisted),
          hshort⟩
        obtain ⟨content, mode, hfile, -⟩ := hshort
        rw [hfile]
        exact Option.some_ne_none _
      · exact fun dir hdir => Tree.exists_boundEntry_iff.mp (ne_none_of_mapM hbound dir hdir)
  · intro hread
    obtain ⟨contents, hcontents⟩ := Option.ne_none_iff_exists'.mp hread.top
    have hlisted := hread.listed htree
    obtain ⟨paths, hwalk⟩ := htree.exists_walk hlisted
    have hcut : ¬∃ path ∈ paths, CutShort fs faults path := by
      rintro ⟨path, hpath, hshort⟩
      obtain ⟨rel, rfl, hwalked, hget⟩ := htree.of_reach ((BreadthFirst.mem_walk hwalk).mp hpath)
      exact hread.files rel hwalked hget hshort
    have hbound : boundDirs.mapM (boundEntry fs (q ++ [name]) (q ++ [name]).dropLast.length) =
        some (boundDirs.filterMap (boundEntry fs (q ++ [name]) (q ++ [name]).dropLast.length)) :=
      mapM_eq_filterMap fun dir hdir => Tree.exists_boundEntry_iff.mpr (hread.bound dir hdir)
    have hdrop := drop_rootfsDir q name []
    rw [List.append_nil] at hdrop
    have hexport : exportRootfsArchive fs faults (q ++ [name]) = some (entryAt name [] (.dir m) ::
        paths.filterMap (walkEntry fs (q ++ [name]).dropLast.length) ++
          boundDirs.filterMap (boundEntry fs (q ++ [name]) (q ++ [name]).dropLast.length)) := by
      rw [exportRootfsArchive_eq hroot, hcontents, Option.bind_some,
        htree.rootfsContents_eq hcontents, hwalk,
        Option.bind_some, if_neg hcut, hbound, Option.map_some, hdrop]
      rfl
    refine ⟨_, hexport, fun rel node hexported hnode hcan _ => ?_⟩
    have hget : fs.get (root ++ rel) ≠ none := Option.ne_none_iff_exists'.mpr ⟨node, hnode⟩
    have hlstat := (htree.lstat_eq hget hcan.lstat).trans hnode
    rw [getName_concat]
    rcases hexported with rfl | hwalked | ⟨dir, hdir, rfl⟩
    · -- the rootfs itself
      rw [List.append_nil, hroot] at hlstat
      obtain rfl := Option.some.inj hlstat
      exact List.mem_append_left _ List.mem_cons_self
    · refine List.mem_append_left _ (List.mem_cons_of_mem _ (List.mem_filterMap.mpr ⟨_,
        (BreadthFirst.mem_walk hwalk).mpr (htree.reach hwalked hget hcan.lstat hlisted), ?_⟩))
      obtain ⟨c, rest, rfl, hc⟩ := hwalked
      rw [walkEntry_of_lstat _ hlstat, drop_rootfsDir, entryAt, entryMode, if_neg hc]
    · obtain ⟨node', hnode', hempty⟩ := hread.bound dir hdir
      obtain rfl := Option.some.inj (hnode'.symm.trans hlstat)
      exact List.mem_append_right _ (List.mem_filterMap.mpr
        ⟨dir, hdir, Tree.boundEntry_of_lstat (mem_ignored_of_mem_boundDirs hdir) hlstat hempty⟩)

end

/-! ## Two files -/

/-- A rootfs with a secret in it and a file after that. -/
def disk (secret : Mode) : FileSystem where
  entries := [(["debian".toList], .dir 0o755), (["debian".toList, "dev".toList], .dir 0o755),
    (["debian".toList, "proc".toList], .dir 0o755), (["debian".toList, "tmp".toList], .dir 0o777),
    (["debian".toList, "sys".toList], .dir 0o755),
      (["debian".toList, "shadow".toList], .file [120, 10] secret),
    (["debian".toList, "passwd".toList], .file [121, 10] 0o644)]
  nodup := of_decide_eq_true rfl

def debianDir : Loc := ["debian".toList]

/-- The read of the secret fails after its last byte. -/
def lateFault : ReadFaults :=
  ⟨fun _ => false, fun path => if path = debianDir ++ ["shadow".toList] then some 2 else none⟩

theorem tree_disk (secret : Mode) : Tree (disk secret) debianDir debianDir where
  closed := closed_of_wellPlaced (of_decide_eq_true rfl)
  place := by rfl
  dir := ⟨0o755, rfl⟩

/-- An exception after the last byte does no harm. -/
theorem complete_lateFault : Complete (disk 0o600) lateFault debianDir debianDir := by
  refine (complete_iff_allRead (tree_disk 0o600)).mpr ⟨by decide +kernel, ?_, ?_, ?_⟩
  · intro rel m _ hdir _
    have hall :
        ∀ e ∈ (disk 0o600).entries, e.2.isDir = true →
          listDirectoryEntries (disk 0o600) lateFault e.1 ≠ none := by
      decide +kernel
    exact hall _ ((disk 0o600).mem_of_get hdir) rfl
  · intro rel _ hget
    obtain ⟨node, hnode⟩ := Option.ne_none_iff_exists'.mp hget
    have hall : ∀ e ∈ (disk 0o600).entries, ¬CutShort (disk 0o600) lateFault e.1 := by
      decide +kernel
    exact hall _ ((disk 0o600).mem_of_get hnode)
  · have hall : ∀ dir ∈ boundDirs, lstat (disk 0o600) (debianDir ++ [dir]) = some (.dir 0o755) ∨
        lstat (disk 0o600) (debianDir ++ [dir]) = some (.dir 0o777) := by
      decide +kernel
    intro dir hdir
    rcases hall dir hdir with h | h
    · exact ⟨_, h, nofun⟩
    · exact ⟨_, h, nofun⟩

/-- The secret cannot be opened, and the file after it is not in the archive, because there is
none. -/
theorem not_complete_secret :
    Tree (disk 0o000) debianDir debianDir ∧
      lstat (disk 0o000) (debianDir ++ ["passwd".toList]) = some (.file [121, 10] 0o644) ∧
      readFile .none (debianDir ++ ["passwd".toList]) [121, 10] 0o644 = ([121, 10], true) ∧
      exportRootfsArchive (disk 0o000) .none debianDir = none ∧
        ¬Complete (disk 0o000) .none debianDir debianDir := by
  have hnone : exportRootfsArchive (disk 0o000) .none debianDir = none := by
    decide +kernel
  refine ⟨tree_disk 0o000, by decide +kernel, by decide, hnone, ?_⟩
  rintro ⟨archive, hexport, -⟩
  rw [hnone] at hexport
  cases hexport

end WinEmulator.App.ExportArchive
