import WinEmulator.App.ProotRootfs
import WinEmulator.Lib.JavaFile

/-!
# `MTDataFilesProvider.java`: the files of the app as documents

The provider shows the directories of the app to other apps. The id of a document is the name of the
package, the name of one of four directories, and a path in it; the package alone is a root above
the four. `b_getFileForDocId` finds the file of an id, and `isChildDocument` says whether a
permission for a tree covers a document.

A `File` is the components of its path. Whether `lstat` of a path succeeds is left open.
-/

set_option autoImplicit false

namespace WinEmulator.App

open WinEmulator.Lib WinEmulator.Lib.Fs WinEmulator.Lib.JavaFile

/-- What two characters that differ in their case only have in common, if one of them is of ASCII:
there are four others that are a letter of ASCII in another case. -/
def foldCase (c : Char) : Char :=
  if c = '\u0130' ∨ c = '\u0131' then 'i'
  else if c = '\u017F' then 's'
  else if c = '\u212A' then 'k'
  else c.toLower

/-- `String.equalsIgnoreCase` with a text of ASCII. -/
def equalsIgnoreCase (s : Text) (ascii : String) : Bool :=
  s.map foldCase = ascii.toList.map foldCase

/-- What `attachInfo` finds in the context. -/
structure Context where
  packageName : Text
  filesDir : Path
  externalFilesDir : Option Path
  obbDir : Option Path

structure MTDataFilesProvider where
  b_pkgName : Text
  c_dataDir : Path
  d_user_deDataDir : Option Path
  e_androidDataDir : Option Path
  f_androidObbDir : Option Path

/-- `/data/user_de/` in place of `/data/user/`. -/
def userDeDataDir : Path → Option Path
  | data :: user :: c :: rest =>
    if data = "data".toList ∧ user = "user".toList then some (data :: "user_de".toList :: c :: rest)
    else none
  | _ => none

def Context.attachInfo (context : Context) : MTDataFilesProvider where
  b_pkgName := context.packageName
  c_dataDir := context.filesDir.dropLast
  d_user_deDataDir := userDeDataDir context.filesDir.dropLast
  e_androidDataDir := context.externalFilesDir.map List.dropLast
  f_androidObbDir := context.obbDir

/-- `FileNotFoundException`, with its message. -/
structure FileNotFound where
  message : Text
deriving DecidableEq

namespace MTDataFilesProvider

variable (p : MTDataFilesProvider)

/-- What follows the package name and the slash that may stand there. -/
def virtualPath (documentId : Text) : Text :=
  let virtualName := documentId.drop p.b_pkgName.length
  if virtualName.head? = some '/' then virtualName.tail else virtualName

/-- The first part of `split("/", 2)`. -/
def virtualName (documentId : Text) : Text := (p.virtualPath documentId).takeWhile (· ≠ '/')

/-- The second part, empty if there is none. -/
def realPath (documentId : Text) : Text := ((p.virtualPath documentId).dropWhile (· ≠ '/')).tail

/-- The directory of a name below the root. -/
def directory (virtualName : Text) : Option Path :=
  if equalsIgnoreCase virtualName "data" then some p.c_dataDir
  else if equalsIgnoreCase virtualName "android_data" ∧ p.e_androidDataDir ≠ none then
    p.e_androidDataDir
  else if equalsIgnoreCase virtualName "android_obb" ∧ p.f_androidObbDir ≠ none then
    p.f_androidObbDir
  else if equalsIgnoreCase virtualName "user_de_data" ∧ p.d_user_deDataDir ≠ none then
    p.d_user_deDataDir
  else none

/-- The file of an id, none for the root. With `z` it has to be there. -/
def b_getFileForDocId (lstat : Path → Bool) (documentId : Text) (z : Bool) :
    Except FileNotFound (Option Path) :=
  let notFound : FileNotFound := ⟨documentId ++ " not found".toList⟩
  if ¬p.b_pkgName.isPrefixOf documentId then .error notFound
  else if p.virtualPath documentId = [] then .ok none
  else
    match p.directory (p.virtualName documentId) with
    | none => .error notFound
    | some dir =>
      let targetFile := dir ++ components (p.realPath documentId)
      if z ∧ ¬lstat targetFile then .error notFound else .ok (some targetFile)

def isChildDocument (parentDocumentId documentId : Text) : Bool :=
  parentDocumentId.isPrefixOf documentId

end MTDataFilesProvider

end WinEmulator.App
