import WinEmulator.App.ProotRootfs
import WinEmulator.Lib.JavaFile

/-!
# `Utils.kt`: extract an archive

`decompressCompressedTarStream` makes the directories and files of a tar stream as it reads it, and
afterwards the symbolic links, the removal of what a foreign proot left behind (`fixL2sFiles` with
`skipProcess`), and the modes of the directories. An exception at one entry is reported and the next
one is tried. The branch of `fixL2sFiles` without `skipProcess` is never taken.

The decompressor and the tar reader are not modelled: a stream is the list of its entries.
-/

set_option autoImplicit false

namespace WinEmulator.App

open WinEmulator.Lib WinEmulator.Lib.Fs WinEmulator.Lib.JavaFile

/-- The type flag of an entry. -/
inductive LinkFlag
  | normal
  | link
  | symlink
  | directory
  | other
deriving DecidableEq

structure TarArchiveEntry where
  name : Text
  linkFlag : LinkFlag
  linkName : Text
  mode : Nat
  content : List UInt8
deriving DecidableEq

def TarArchiveEntry.isDirectory (entry : TarArchiveEntry) : Bool :=
  entry.linkFlag = .directory || entry.name.getLast? = some '/'

def TarArchiveEntry.isSymbolicLink (entry : TarArchiveEntry) : Bool := entry.linkFlag = .symlink

/-- The bits of a mode that `chmod` takes. -/
def modeBits (mode : Nat) : Mode := BitVec.ofNat 12 mode

/-- `SymLink`: where the link is to be and where it points. -/
structure SymLink where
  symlink : Path
  pointTo : Text
deriving DecidableEq

namespace Archive

/-- What the loop over the entries has done and what it has put off. -/
structure Extraction where
  disk : Disk
  symLinkList : List SymLink
  dirModeList : List (Path × Nat)

variable (entryNameMapper : Text → Text) (outDir : Path)

/-- `File(outDir, entryNameMapper(entry.name))`. -/
def outFile (entry : TarArchiveEntry) : Path := outDir ++ components (entryNameMapper entry.name)

/-- One turn of the loop. -/
def extractEntry (x : Extraction) (entry : TarArchiveEntry) : Extraction :=
  if entryNameMapper entry.name = [] then x
  else
    let outFile := outFile entryNameMapper outDir entry
    let disk := (mkdirs x.disk outFile.dropLast).1
    if entry.isDirectory then
      { x with
        disk := (mkdirs disk outFile).1
        dirModeList := x.dirModeList ++ [(outFile, entry.mode)] }
    else if entry.isSymbolicLink then
      { x with
        disk := disk
        symLinkList := x.symLinkList ++ [⟨outFile, entry.linkName⟩] }
    else
      match writeEffect disk.fs outFile entry.content with
      | some e =>
        let written := disk.apply e
        { x with disk := written.perform (chmodEffect written.fs outFile (modeBits entry.mode)) }
      | none => { x with disk := disk }

/-- The first pass. -/
def extractEntries (d : Disk) (entries : List TarArchiveEntry) : Extraction :=
  entries.foldl (extractEntry entryNameMapper outDir) ⟨d, [], []⟩

/-- The second pass. -/
def createSymLinks (d : Disk) (symLinkList : List SymLink) : Disk :=
  symLinkList.foldl (fun d item => d.perform (symlinkEffect d.fs item.pointTo item.symlink)) d

def l2sDir : Path := outDir ++ [".l2s".toList]

/-- The link, or what it points to, has a name that proot gives to a file in place of a hard
link. -/
def isL2s (item : SymLink) : Bool :=
  ".l2s.".toList.isPrefixOf (getName item.symlink)
    || ".l2s.".toList.isPrefixOf (getName (components item.pointTo))

/-- The files `delL2s` deletes for a link. -/
def l2sFiles (item : SymLink) : List Path :=
  [item.symlink,
    child item.symlink.dropLast (getName (components item.pointTo)),
    child (l2sDir outDir) (getName (components item.pointTo))]

/-- `fixL2sFiles(outDir, symLinkList, reporter, skipProcess = true)`. -/
def fixL2sFiles (d : Disk) (symLinkList : List SymLink) : Disk :=
  deleteDirectory
    ((symLinkList.filter isL2s).foldl (fun d item => (l2sFiles outDir item).foldl delete d) d)
    (l2sDir outDir)

/-- The last pass. -/
def restoreDirModes (d : Disk) (dirModeList : List (Path × Nat)) : Disk :=
  dirModeList.foldl (fun d item => d.perform (chmodEffect d.fs item.1 (modeBits item.2))) d

/-- `decompressCompressedTarStream`. -/
def decompressCompressedTarStream (d : Disk) (entries : List TarArchiveEntry) : Disk :=
  let d := if exists_ d.fs outDir then d else (mkdirs d outDir).1
  let x := extractEntries entryNameMapper outDir d entries
  let d := createSymLinks x.disk x.symLinkList
  let d := fixL2sFiles outDir d x.symLinkList
  restoreDirModes d x.dirModeList

end Archive

end WinEmulator.App
