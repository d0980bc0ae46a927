import WinEmulator.App.LoginUsers
import WinEmulator.App.RootfsName

/-!
# The text field for the name of a rootfs

The field of `GeneralRootfsSelect_RootfsName` calls `onChangeRootfsName` with `EDIT`, and for the
running rootfs `onChangeRootfsSelect` after it. Between them they change the directory, the link
`current`, the preference `curr_rootfs_name` and the saved login users, one after another. `lines`
is what `FileUtils.readLines` makes of the content of a file.
-/

set_option autoImplicit false

namespace WinEmulator.App

open WinEmulator.Lib WinEmulator.Lib.Fs WinEmulator.Lib.JavaFile

/-- `rootfsCurrDir`. -/
def AppDirs.currDir (dirs : AppDirs) : Path := components dirs.rootfsCurrDir

/-- `Files.symlink` of `Utils.kt`; the exceptions of the calls are caught. -/
def Files.symlink (d : Disk) (realFile linkFile : Path) : Disk :=
  if exists_ d.fs linkFile &&
    !isSymbolicLink d.fs linkFile && !((list d.fs linkFile).getD []).isEmpty then d
  else
    let deleted := delete d linkFile
    let made := (mkdirs deleted linkFile.dropLast).1
    made.perform (symlinkEffect made.fs (absolutePath realFile) linkFile)

structure RootfsSettings where
  disk : Disk
  curr_rootfs_name : Text
  loginUsers : LoginUsers

/-- The name of the rootfs that `current` leads to. -/
def AppDirs.currRootfs (dirs : AppDirs) (fs : FileSystem) : Text :=
  getName (canonical fs dirs.currDir)

/-- What `getUserInfos` and `getRootfsList` read. -/
def AppDirs.rootfsDirs (dirs : AppDirs) (lines : List UInt8 → List Text) (fs : FileSystem) :
    RootfsDirs where
  names := (list fs (components dirs.rootfsAllDir)).getD []
  passwd name := (read fs (dirs.rootfsFile name ++ ["etc".toList, "passwd".toList])).map lines

namespace RootfsSettings

variable (digit : Char → Option Nat) (lines : List UInt8 → List Text) (dirs : AppDirs)
  (s : RootfsSettings)

/-- `Utils.Rootfs.makeCurrent`. -/
def makeCurrent (rootfsDir : Path) : RootfsSettings :=
  { s with
    disk := Files.symlink s.disk rootfsDir dirs.currDir
    curr_rootfs_name := getName rootfsDir }

/-- `onChangeRootfsSelect`. -/
def onChangeRootfsSelect (rootfsName : Text) : RootfsSettings :=
  s.makeCurrent dirs (dirs.rootfsFile rootfsName)

/-- `onChangeRootfsLoginUser(newName, getPreferredUser(newName).name)`. -/
def onChangeRootfsLoginUser (newName : Text) : RootfsSettings :=
  let rootfsDirs := dirs.rootfsDirs lines s.disk.fs
  let user := ProotRootfs.getPreferredUser (s.loginUsers.stored newName)
    (ProotRootfs.getUserInfos digit (rootfsDirs.passwd newName))
  { s with loginUsers := s.loginUsers.onChangeRootfsLoginUser digit rootfsDirs newName user.name }

/-- `onChangeRootfsName(oldName, newName, EDIT)`, and what it throws. -/
def onChangeRootfsName (oldName newName : Text) : RootfsSettings × Option RootfsNameError :=
  let edited := editRootfsName dirs s.disk oldName newName
  match edited.thrown with
  | some e => ({ s with disk := edited.disk }, some e)
  | none => (onChangeRootfsLoginUser digit lines dirs { s with disk := edited.disk } newName, none)

/-- The callback of the text field. -/
def onRootfsNameChange (oldName newName : Text) : RootfsSettings × Option RootfsNameError :=
  let isCurr := oldName = dirs.currRootfs s.disk.fs
  match s.onChangeRootfsName digit lines dirs oldName newName with
  | (edited, some e) => (edited, some e)
  | (edited, none) => (if isCurr then edited.onChangeRootfsSelect dirs newName else edited, none)

end RootfsSettings

end WinEmulator.App
