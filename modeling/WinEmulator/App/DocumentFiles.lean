import WinEmulator.App.DocumentsProvider
import WinEmulator.App.Proot
import WinEmulator.Lib.RelativePath

/-!
# `MTDataFilesProvider.java`: what is done with documents

Documents are made, moved, renamed, listed and deleted. The file of an id is that of
`b_getFileForDocId`; from there on it is a `java.io.File` over the file system. An operation tells
the disk after it, the new file if it got so far, and the id that it returns or its exception.
-/

set_option autoImplicit false

namespace WinEmulator.App

open WinEmulator.Lib WinEmulator.Lib.Fs WinEmulator.Lib.JavaFile

/-- Where a path leads, a link at its end not followed. -/
def fileAt (fs : FileSystem) (path : Path) : Option Loc :=
  if getName path = [] ∨ getName path = dot ∨ getName path = dotdot then resolve fs false path
  else place fs path

/-- Whether `Os.lstat` succeeds. -/
def lstatSucceeds (fs : FileSystem) (path : Path) : Bool :=
  (fileAt fs path).any fun l => (node fs l).isSome

/-- `File.isDirectory`. -/
def isDirectory (fs : FileSystem) (path : Path) : Bool :=
  (resolve fs false path).any fun l => (node fs l).any Node.isDir

namespace MTDataFilesProvider

/-! ## Deleting -/

/-- The disk after a deletion, what was returned, and what each call of `file.delete()` returned. -/
structure Deletion where
  disk : Disk
  returned : Bool
  deletes : List Bool

/-- `file.delete()`. The system may refuse to delete a file that could be deleted. -/
def deleteFile (refuses : Disk → Path → Bool) (d : Disk) (file : Path) : Disk × Bool :=
  match if refuses d file then none else removeEffect d.fs file with
  | some e => (d.apply e, true)
  | none => (d, false)

/-- The loop over `subFiles`. -/
def deleteSubFiles (delete : Disk → Path → Deletion) : Disk → List Path → Deletion
  | d, [] => ⟨d, true, []⟩
  | d, sub :: subFiles =>
    let first := delete d sub
    if first.returned then
      let rest := deleteSubFiles delete first.disk subFiles
      { rest with deletes := first.deletes ++ rest.deletes }
    else first

/-- `a_deleteFileOrDirectory`. The number bounds how deep it goes. -/
def a_deleteFileOrDirectory (refuses : Disk → Path → Bool) : Nat → Disk → Path → Deletion
  | 0, d, _ => ⟨d, false, []⟩
  | n + 1, d, file =>
    let isSymlink := isSymbolicLink d.fs file
    let subFiles := (list d.fs file).map fun names => names.map fun name => file ++ [name]
    let below :=
      match subFiles with
      | some subFiles =>
        if isDirectory d.fs file && !isSymlink then
          deleteSubFiles (a_deleteFileOrDirectory refuses n) d subFiles
        else ⟨d, true, []⟩
      | none => ⟨d, true, []⟩
    if below.returned then
      let (disk, deleted) := deleteFile refuses below.disk file
      ⟨disk, deleted, below.deletes ++ [deleted]⟩
    else below

def deleteDocument (p : MTDataFilesProvider) (refuses : Disk → Path → Bool) (n : Nat) (d : Disk)
    (documentId : Text) :
    Disk × Except FileNotFound Unit :=
  let failed : FileNotFound := ⟨"Failed to delete document ".toList ++ documentId⟩
  match p.b_getFileForDocId (lstatSucceeds d.fs) documentId true with
  | .error e => (d, .error e)
  | .ok none => (d, .error failed)
  | .ok (some file) =>
    let deletion := a_deleteFileOrDirectory refuses n d file
    (deletion.disk, if deletion.returned then .ok () else .error failed)

/-! ## Making, moving and renaming -/

def MIME_TYPE_DIR : Text := "vnd.android.document/directory".toList

/-- What an operation throws. -/
inductive Failure
  | fileNotFound (e : FileNotFound)
  | stringIndexOutOfBounds
deriving DecidableEq

/-- The disk after an operation, the new file if it got so far, and the id or the exception. -/
structure Outcome where
  disk : Disk
  newFile : Option Path
  result : Except Failure Text

/-- Nothing is done. -/
def Outcome.fileNotFound (d : Disk) (message : Text) : Outcome :=
  ⟨d, none, .error (.fileNotFound ⟨message⟩)⟩

/-- `new File(parent, child)`. -/
def childFile (parent : Path) (child : Text) : Path := parent ++ components child

/-- The id of a name below another id. -/
def childId (parentDocumentId : Text) (name : Name) : Text :=
  parentDocumentId ++ (if parentDocumentId.getLast? = some '/' then [] else ['/']) ++ name

def conflictName (displayName : Text) (noConflictId : Nat) : Text :=
  displayName ++ " (".toList ++ Nat.toDigits 10 noConflictId ++ ")".toList

/-- The loop over `newFile.exists()`. -/
def freeFile (fs : FileSystem) (parentFile : Path) (displayName : Text) :
    Nat → Path → Nat → Option Path
  | 0, _, _ => none
  | n + 1, newFile, noConflictId =>
    if exists_ fs newFile then
      freeFile fs parentFile displayName n
        (childFile parentFile (conflictName displayName noConflictId)) (noConflictId + 1)
    else some newFile

/-- `mkdir` and `createNewFile`. -/
def newFileEffect (fs : FileSystem) (mimeType : Text) (newFile : Path) : Option Effect :=
  if mimeType = MIME_TYPE_DIR then mkdirEffect fs newFile
  else createEffect fs newFile (.file [] newFileMode)

/-- No more names are taken than there are files. -/
def createDocument (p : MTDataFilesProvider) (refuses : Disk → Path → Bool) (d : Disk)
    (parentDocumentId mimeType displayName : Text) : Outcome :=
  let failed :=
    Outcome.fileNotFound d
      ("Failed to create document in ".toList ++ parentDocumentId ++ " with name ".toList ++
        displayName)
  match p.b_getFileForDocId (lstatSucceeds d.fs) parentDocumentId true with
  | .error e => .fileNotFound d e.message
  | .ok none => failed
  | .ok (some parentFile) =>
    match freeFile d.fs parentFile displayName (d.fs.entries.length + 2)
      (childFile parentFile displayName) 2 with
    | none => failed
    | some newFile =>
      match if refuses d newFile then none else newFileEffect d.fs mimeType newFile with
      | some e => ⟨d.apply e, some newFile, .ok (childId parentDocumentId (getName newFile))⟩
      | none => failed

/-- `file.renameTo(target)`. -/
def renameTo (refuses : Disk → Path → Bool) (d : Disk) (file target : Path) : Option Disk :=
  if refuses d file then none else rename d file target

def moveDocument (p : MTDataFilesProvider) (refuses : Disk → Path → Bool) (d : Disk)
    (sourceDocumentId targetParentDocumentId : Text) : Outcome :=
  let failed :=
    Outcome.fileNotFound d
      ("Failed to move document ".toList ++ sourceDocumentId ++ " to ".toList ++
        targetParentDocumentId)
  match p.b_getFileForDocId (lstatSucceeds d.fs) sourceDocumentId true,
    p.b_getFileForDocId (lstatSucceeds d.fs) targetParentDocumentId true with
  | .error e, _ => .fileNotFound d e.message
  | .ok _, .error e => .fileNotFound d e.message
  | .ok (some sourceFile), .ok (some targetParentFile) =>
    let targetFile := childFile targetParentFile (getName sourceFile)
    if exists_ d.fs targetFile then failed
    else
      match renameTo refuses d sourceFile targetFile with
      | some disk =>
        ⟨disk, some targetFile, .ok (childId targetParentDocumentId (getName targetFile))⟩
      | none => failed
  | .ok _, .ok _ => failed

/-- The slash at the end may be a separator, so it is not the one before the name. -/
def renameDocument (p : MTDataFilesProvider) (refuses : Disk → Path → Bool) (d : Disk)
    (documentId displayName : Text) :
    Outcome :=
  let failed :=
    Outcome.fileNotFound d
      ("Failed to rename document ".toList ++ documentId ++ " to ".toList ++ displayName)
  match p.b_getFileForDocId (lstatSucceeds d.fs) documentId true with
  | .error e => .fileNotFound d e.message
  | .ok none => failed
  | .ok (some b) =>
    let newFile := childFile b.dropLast displayName
    match renameTo refuses d b newFile with
    | some disk =>
      if '/' ∈ documentId.dropLast then
        ⟨disk, some newFile,
          .ok ((upToLastSlash documentId.dropLast).dropLast ++ '/' :: displayName)⟩
      else ⟨disk, some newFile, .error .stringIndexOutOfBounds⟩
    | none => failed

/-! ## Listing -/

/-- One slash at the end is left out. -/
def withoutSlash (documentId : Text) : Text :=
  if documentId.getLast? = some '/' then documentId.dropLast else documentId

/-- The row of one of the directories, if it is there. -/
def directoryRow (fs : FileSystem) (documentId : Text) : Option Path → List (Text × Path)
  | some dir => if exists_ fs dir then [(documentId, dir)] else []
  | none => []

/-- The rows of the cursor: an id and its file. -/
def queryChildDocuments (p : MTDataFilesProvider) (fs : FileSystem) (parentDocumentId : Text) :
    Except FileNotFound (List (Text × Path)) :=
  let parentDocumentId := withoutSlash parentDocumentId
  match p.b_getFileForDocId (lstatSucceeds fs) parentDocumentId true with
  | .error e => .error e
  | .ok none =>
    .ok
      ((parentDocumentId ++ "/data".toList, p.c_dataDir) ::
        (directoryRow fs (parentDocumentId ++ "/android_data".toList) p.e_androidDataDir ++
          directoryRow fs (parentDocumentId ++ "/android_obb".toList) p.f_androidObbDir ++
          directoryRow fs (parentDocumentId ++ "/user_de_data".toList) p.d_user_deDataDir))
  | .ok (some parent) =>
    let children := (list fs parent).getD []
    .ok (children.map fun name => (parentDocumentId ++ '/' :: name, parent ++ [name]))

end MTDataFilesProvider

end WinEmulator.App
