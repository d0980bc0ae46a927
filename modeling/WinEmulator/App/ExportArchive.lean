import WinEmulator.App.RootfsArchive
import WinEmulator.Lib.BreadthFirst

/-!
# `Utils.kt`: an export that meets files it cannot read

`exportRootfsArchive` at a finer grain: every call on the `TarArchiveOutputStream` is a step that
may throw, and so is every listing of a directory and every read of a file. Beside the permissions
`ReadFaults` says which of them do. What the callback of the second walk throws is caught and
reported, and the stream is left as it is; anything else ends the export. The numbers of an entry
are taken to fit in its header.
-/

set_option autoImplicit false

namespace WinEmulator.App.ExportArchive

open WinEmulator.Lib WinEmulator.Lib.Fs WinEmulator.Lib.JavaFile
open WinEmulator.App.Rootfs (lstat getTarEntry walkEntry ignoreRootfsSubDirs)

/-! ## `TarArchiveOutputStream` -/

structure TarArchiveOutputStream where
  /-- The entries that were closed. -/
  entries : List TarArchiveEntry
  /-- The open entry with what it has received, and the size its header declares. -/
  opened : Option (TarArchiveEntry × Nat)

namespace TarArchiveOutputStream

variable (tOut : TarArchiveOutputStream)

/-- None is an exception: there is no entry, or it lacks some of its bytes. -/
def closeArchiveEntry : Option TarArchiveOutputStream :=
  match tOut.opened with
  | none => none
  | some (entry, size) =>
    if entry.content.length < size then none else some ⟨tOut.entries ++ [entry], none⟩

/-- An open entry is closed first. -/
def putArchiveEntry (entry : TarArchiveEntry) : Option TarArchiveOutputStream :=
  (if tOut.opened.isSome then tOut.closeArchiveEntry else some tOut).map fun tOut =>
    { tOut with opened := some ({ entry with content := [] }, entry.content.length) }

/-- No entry takes more than its size. -/
def write (bytes : List UInt8) : Option TarArchiveOutputStream :=
  match tOut.opened with
  | none => none
  | some (entry, size) =>
    if size < entry.content.length + bytes.length then none
    else some { tOut with opened := some ({ entry with content := entry.content ++ bytes }, size) }

/-- What is in the archive at the end. -/
def finish : Option (List TarArchiveEntry) := if tOut.opened.isSome then none else some tOut.entries

end TarArchiveOutputStream

/-! ## Reading -/

/-- What fails beside what the permissions forbid: the listings, and the reads of files with the
bytes that come before the exception. -/
structure ReadFaults where
  listing : Path → Bool
  reading : Path → Option Nat

/-- Nothing else fails. -/
def ReadFaults.none : ReadFaults := ⟨fun _ => false, fun _ => Option.none⟩

variable (fs : FileSystem) (faults : ReadFaults)

/-- `Path.listDirectoryEntries`. -/
def listDirectoryEntries (path : Path) : Option (List Path) :=
  if faults.listing path then none else Rootfs.listDirectoryEntries fs path

/-- What the walk puts in its queue for a path. -/
def entriesBelow (path : Path) : Option (List Path) :=
  if (lstat fs path).any Node.isDir then listDirectoryEntries fs faults path else some []

/-- `MutableList<Path>.walk`: the paths in the order of the callbacks. -/
def walk (paths : List Path) : Option (List Path) :=
  BreadthFirst.walk (entriesBelow fs faults) fs.entries.length paths

/-- The bytes of a file that come before an exception, or all of them, and whether there is none. -/
def readFile (path : Path) (content : List UInt8) (mode : Mode) : List UInt8 × Bool :=
  if grants mode .read then
    match faults.reading path with
    | none => (content, true)
    | some n => (content.take n, false)
  else ([], false)

/-! ## Export -/

/-- The callback of the second walk. -/
def addPath (removeLen : Nat) (tOut : TarArchiveOutputStream) (path : Path) :
    TarArchiveOutputStream :=
  match walkEntry fs removeLen path with
  | none => tOut
  | some tarEntry =>
    match tOut.putArchiveEntry tarEntry with
    | none => tOut
    | some tOut =>
      match lstat fs path with
      | some (.file content mode) =>
        let (bytes, whole) := readFile faults path content mode
        match tOut.write bytes with
        | none => tOut
        | some tOut => if whole then tOut.closeArchiveEntry.getD tOut else tOut
      | _ => tOut.closeArchiveEntry.getD tOut

/-- A directory that is bound, with nothing in it; nothing is caught. -/
def addBound (rootfsDir : Path) (removeLen : Nat) (tOut : TarArchiveOutputStream) (dir : Name) :
    Option TarArchiveOutputStream :=
  (getTarEntry fs (rootfsDir ++ [dir]) removeLen).bind fun entry =>
    (tOut.putArchiveEntry (if dir = "tmp".toList then { entry with mode := 0o777 } else entry)).bind
      TarArchiveOutputStream.closeArchiveEntry

/-- The archive, or none if an exception ends the export. The second walk lists the directories
while it calls back; each was listed by the first one before. -/
def exportRootfsArchive (rootfsDir : Path) : Option (List TarArchiveEntry) :=
  let removeLen := rootfsDir.dropLast.length
  (listDirectoryEntries fs faults rootfsDir).bind fun contents =>
    let rootfsContents := contents.filter fun path => !ignoreRootfsSubDirs.contains (getName path)
    (walk fs faults rootfsContents).bind fun _ =>
      (getTarEntry fs rootfsDir removeLen).bind fun root =>
        (TarArchiveOutputStream.putArchiveEntry ⟨[], none⟩ root).bind fun tOut =>
          (walk fs faults rootfsContents).bind fun paths =>
            ((ignoreRootfsSubDirs.filter (· ≠ "storage".toList)).foldlM
              (addBound fs rootfsDir removeLen)
              (paths.foldl (addPath fs faults removeLen) tOut)).bind TarArchiveOutputStream.finish

end WinEmulator.App.ExportArchive
