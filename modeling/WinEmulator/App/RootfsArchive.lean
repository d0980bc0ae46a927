import Mathlib.Data.List.DropRight
import WinEmulator.App.Archive
import WinEmulator.App.Proot

/-!
# `Utils.kt`: export a rootfs and install one

`exportRootfsArchive` writes a rootfs to an archive, and `installRootfsArchive` makes a rootfs of
one: it extracts the archive to a temporary directory, looks there for a directory with `etc` and
`usr` in it, moves that to a new name in `rootfsAllDir`, and writes two files of the network
configuration.

The archive is the list of its entries. `none` is an exception that is not caught. What is reported
on the way is left out, and so is the copy that `FileUtils.moveDirectory` falls back to when it
cannot rename.
-/

set_option autoImplicit false

namespace WinEmulator.App.Rootfs

open WinEmulator.Lib WinEmulator.Lib.Fs WinEmulator.Lib.JavaFile

/-! ## Files -/

/-- What stands at a path, links not followed. -/
def lstat (fs : FileSystem) (path : Path) : Option Node := (place fs path).bind fs.get

/-- `Path.listDirectoryEntries`. -/
def listDirectoryEntries (fs : FileSystem) (path : Path) : Option (List Path) :=
  (list fs path).map fun names => names.map fun name => path ++ [name]

/-- `MutableList<Path>.walk`: the paths in the order of the callbacks. The number bounds how many
there are. -/
def walk (fs : FileSystem) : Nat → List Path → Option (List Path)
  | _, [] => some []
  | 0, _ :: _ => none
  | n + 1, path :: rest =>
    if (lstat fs path).any Node.isDir then
      (listDirectoryEntries fs path).bind fun entries =>
        (walk fs n (rest ++ entries)).map (path :: ·)
    else (walk fs n rest).map (path :: ·)

/-- The ordinals of the permissions a mode has, from `OWNER_READ` to `OTHERS_EXECUTE`. -/
def getPosixFilePermissions (mode : Mode) : List Nat :=
  (List.range 9).filter fun ordinal => mode.getLsbD (8 - ordinal)

/-- `Path.getMode`. -/
def getMode (mode : Mode) : Nat :=
  (getPosixFilePermissions mode).foldl (fun result ordinal => result ||| 2 ^ (8 - ordinal)) 0

/-- All permissions, which a link has. -/
def linkMode : Mode := 0o777

/-! ## Export -/

/-- The names of a path with a slash between each and the next. -/
def joinNames (names : List Name) : Text := List.intercalate ['/'] names

/-- `Path.pathString`: a path has no empty names. -/
def pathString (target : Text) : Text :=
  if target.head? = some '/' then '/' :: joinNames (components target)
  else joinNames (components target)

def DEFAULT_DIR_MODE : Nat := 0o40755

def DEFAULT_FILE_MODE : Nat := 0o100644

/-- `getTarEntry`; the first `removeLen` names of the path are those of the parent of the rootfs. -/
def getTarEntry (fs : FileSystem) (path : Path) (removeLen : Nat) : Option TarArchiveEntry :=
  let entryName := joinNames (path.drop removeLen)
  match lstat fs path with
  | some (.dir _) => some ⟨entryName ++ ['/'], .directory, [], DEFAULT_DIR_MODE, []⟩
  | some (.link target) => some ⟨entryName, .symlink, pathString target, DEFAULT_FILE_MODE, []⟩
  | some (.file content _) => some ⟨entryName, .normal, [], DEFAULT_FILE_MODE, content⟩
  | none => none

/-- `ignoreRootfsSubDirs`. -/
def ignoreRootfsSubDirs : List Name := ["dev", "proc", "tmp", "storage", "sys"].map String.toList

/-- The mode that an entry of the walk gets. -/
def modeOf : Node → Nat
  | .dir mode => getMode mode
  | .file _ mode => getMode mode
  | .link _ => getMode linkMode

/-- The entry of a path of the walk; an exception leaves it out. -/
def walkEntry (fs : FileSystem) (removeLen : Nat) (path : Path) : Option TarArchiveEntry :=
  (lstat fs path).bind fun node =>
    (getTarEntry fs path removeLen).map fun entry => { entry with mode := modeOf node }

/-- A file that cannot be read leaves an entry open that lacks its content, and nothing can be put
after that. -/
def leavesOpen (fs : FileSystem) (path : Path) : Bool :=
  match lstat fs path with
  | some (.file content mode) => !grants mode .read && !content.isEmpty
  | _ => false

/-- The entry of a directory that is bound; it is closed without a content. -/
def boundEntry (fs : FileSystem) (rootfsDir : Path) (removeLen : Nat) (dir : Name) :
    Option TarArchiveEntry :=
  (getTarEntry fs (rootfsDir ++ [dir]) removeLen).bind fun entry =>
    if entry.content ≠ [] then none
    else some (if dir = "tmp".toList then { entry with mode := 0o777 } else entry)

def exportRootfsArchive (fs : FileSystem) (rootfsDir : Path) : Option (List TarArchiveEntry) :=
  let removeLen := rootfsDir.dropLast.length
  (listDirectoryEntries fs rootfsDir).bind fun contents =>
    let rootfsContents := contents.filter fun path => !ignoreRootfsSubDirs.contains (getName path)
    (getTarEntry fs rootfsDir removeLen).bind fun root =>
      (walk fs fs.entries.length rootfsContents).bind fun paths =>
        if paths.any (leavesOpen fs) then none
        else
          ((ignoreRootfsSubDirs.filter (· ≠ "storage".toList)).mapM
            (boundEntry fs rootfsDir removeLen)).map
            fun bound => root :: paths.filterMap (walkEntry fs removeLen) ++ bound

/-! ## Install -/

attribute [local instance] lawfulBEq_name

/-- The search for the directory with `etc` and `usr`. `list` and `listFiles` go through links. The
number bounds how many files are looked at: `none` is a search that goes on after that many,
`some none` one that has come to its end. -/
def findRootfsDir (fs : FileSystem) : Nat → List Path → Option (Option Path)
  | _, [] => some none
  | 0, _ :: _ => none
  | n + 1, nowDir :: searchDirs =>
    match list fs nowDir with
    | some names =>
      if "etc".toList ∈ names ∧ "usr".toList ∈ names then some (some nowDir)
      else findRootfsDir fs n (searchDirs ++ names.map fun name => nowDir ++ [name])
    | none => findRootfsDir fs n searchDirs

/-- What a dot of a regular expression does not match. -/
def isLineTerminator (c : Char) : Bool :=
  c = '\n' || c = '\r' || c.toNat = 0x85 || c.toNat = 0x2028 || c.toNat = 0x2029

variable (digit : Char → Option Nat)

/-- The match of `^(.+)-(\d+)$`. -/
def matchNumber (name : Text) : Option (Text × Text) :=
  let digits := name.rtakeWhile (· ≠ '-')
  match (name.rdropWhile (· ≠ '-')).getLast? with
  | none => none
  | some _ =>
    let baseName := (name.rdropWhile (· ≠ '-')).dropLast
    if baseName ≠ [] ∧
      baseName.all (!isLineTerminator ·) ∧ digits ≠ [] ∧ digits.all (digit · |>.isSome) then
      some (baseName, digits)
    else none

/-- `String.toInt`; `none` is the `NumberFormatException`. -/
def toInt (digits : Text) : Option Int :=
  (ProotRootfs.digits digit digits).bind fun n => if n < 2 ^ 31 then some n else none

/-- The base name and the number it starts from. -/
def baseNameAndNum (name : Text) : Option (Text × Int) :=
  match matchNumber digit name with
  | some (baseName, digits) => (toInt digit digits).map fun num => (baseName, num)
  | none => some (name, 1)

def numbered (baseName : Text) (num : Int) : Name := baseName ++ '-' :: decimal num

/-- `while (it.contains("$baseName-$num")) num++`. -/
def freeNum (names : List Name) (baseName : Text) : Nat → Int → Option Int
  | 0, _ => none
  | n + 1, num =>
    if numbered baseName num ∈ names then freeNum names baseName n ((num + 1).bmod (2 ^ 32))
    else some num

/-- The characters of a text of ASCII. -/
def ascii (s : String) : List UInt8 := s.toList.map fun c => UInt8.ofNat c.toNat

def resolvConf : List UInt8 := ascii "nameserver 8.8.8.8\nnameserver 8.8.4.4\n"

def hosts : List UInt8 :=
  ascii ("# IPv4.\n127.0.0.1   localhost.localdomain localhost\n\n# IPv6.\n" ++
    "::1         localhost.localdomain localhost ip6-localhost ip6-loopback\n" ++
    "fe00::0     ip6-localnet\nff00::0     ip6-mcastprefix\nff02::1     ip6-allnodes\n" ++
    "ff02::2     ip6-allrouters\nff02::3     ip6-allhosts\n")

/-- `File.delete` and `File.writeText`. -/
def rewrite (d : Disk) (path : Path) (content : List UInt8) : Option Disk :=
  let deleted := delete d path
  (writeEffect deleted.fs path content).map deleted.apply

def etc : Name := "etc".toList

def postExtractRootfs (d : Disk) (rootfsDir : Path) : Option Disk :=
  (rewrite d (rootfsDir ++ [etc, "resolv.conf".toList]) resolvConf).bind fun d =>
    rewrite d (rootfsDir ++ [etc, "hosts".toList]) hosts

variable (tmpDir rootfsAllDir : Path)

def tmpArchiveFile : Path := tmpDir ++ ["archive-rootfs-tmp".toList]

def tmpOutDir : Path := tmpDir ++ ["extracted-rootfs".toList]

/-- `tmpArchiveFile` and `tmpOutDir` are deleted. -/
def cleared (d : Disk) : Disk :=
  deleteDirectory (delete d (tmpArchiveFile tmpDir)) (tmpOutDir tmpDir)

/-- `FileUtils.deleteDirectory` throws if `tmpOutDir` is still there. -/
def isLeft (d : Disk) : Bool := exists_ d.fs (tmpOutDir tmpDir)

/-- From the extracted archive on; the number bounds the search for the rootfs. -/
def installExtracted (searches : Nat) (d : Disk) : Option (Disk × Path) :=
  (findRootfsDir d.fs searches [tmpOutDir tmpDir]).join.bind fun foundRootfsDir =>
    (baseNameAndNum digit (getName foundRootfsDir)).bind fun (baseName, num) =>
      let names := (list d.fs rootfsAllDir).getD []
      (freeNum names baseName (names.length + 1) num).bind fun num =>
        let targetOutDir := rootfsAllDir ++ [numbered baseName num]
        if exists_ d.fs targetOutDir then none
        else
          (rename d foundRootfsDir targetOutDir).bind fun moved =>
            let d := cleared tmpDir moved
            if isLeft tmpDir d then none
            else (postExtractRootfs d targetOutDir).map fun d => (d, targetOutDir)

/-- `installRootfsArchive`: the disk after it and the directory of the rootfs. -/
def installRootfsArchive (searches : Nat) (d : Disk) (archive : List TarArchiveEntry) :
    Option (Disk × Path) :=
  let d := cleared tmpDir d
  if isLeft tmpDir d then none
  else
    let d := (mkdirs d (tmpOutDir tmpDir)).1
    let d := Archive.decompressCompressedTarStream id (tmpOutDir tmpDir) d archive
    installExtracted digit tmpDir rootfsAllDir searches d

end WinEmulator.App.Rootfs
