import Mathlib.Data.List.DropRight
import WinEmulator.App.Preferences
import WinEmulator.App.Proot
import WinEmulator.Lib.FileTree
import WinEmulator.Lib.JavaFile
import WinEmulator.Lib.Sh

/-!
# `SettingViewModel.kt`: rename and delete a rootfs

`onChangeRootfsName` renames a directory in `rootfsAllDir`, or deletes it with `rm -r` through
`sh -c`, the path unquoted after the command. The change of the saved login users that follows is in
`LoginUsers`.

`rm` is the POSIX utility. The app's shell has no terminal, so nothing is asked; every failure is
reported, and a report is what `onChangeRootfsName` throws.
-/

set_option autoImplicit false

namespace WinEmulator.App

open WinEmulator.Lib WinEmulator.Lib.Fs WinEmulator.Lib.JavaFile

/-- The components of a path as the system sees it; the working directory of an app is the root. -/
def pathOf (s : Text) : Path := s.splitOn '/'

/-! ## `rm -r` -/

/-- Remove one operand; also whether nothing was reported. Slashes at its end require a
directory. -/
def rmOperand (d : Disk) (operand : Text) : Disk × Bool :=
  let p := (pathOf operand).rdropWhile (· = [])
  match place d.fs p with
  | none => (d, false)
  | some l =>
    if (pathOf operand).getLast? = some [] ∧ (d.fs.get l).any (!·.isDir) then (d, false)
    else removeTree false (height d.fs + 1) d l

def rmOperands (d : Disk) : List Text → Disk × Bool
  | [] => (d, true)
  | o :: os =>
    let r := rmOperand d o
    let rest := rmOperands r.1 os
    (rest.1, r.2 && rest.2)

/-- `rm -r operands`; without an operand it reports how it is used. -/
def rm (d : Disk) (operands : List Text) : Disk × Bool :=
  if operands = [] then (d, false) else rmOperands d operands

/-- The files as the shell sees them; its working directory is the root. -/
def shFiles (fs : FileSystem) : Sh.Files where
  names p := ((list fs (pathOf p.dropLast)).getD []).filter fun n => Sh.IsName n
  exists_ p := (place fs (pathOf p)).any (fun l => fs.get l ≠ none) ||
    JavaFile.exists_ fs (pathOf p)
  isName := by
    intro p n hn
    simpa using (List.mem_filter.mp hn).2
  nodup := by
    intro p
    refine List.Nodup.filter _ ?_
    unfold list
    cases resolve fs false (pathOf p.dropLast) with
    | none => exact List.nodup_nil
    | some l =>
      rw [Option.bind_some]
      split
      · exact nodup_children fs l
      · exact List.nodup_nil

/-- `sh -c`; `none` where the string is anything but one `rm -r`. -/
def sh (env : Sh.Env) (d : Disk) (command : Text) : Option (Disk × Bool) :=
  match Sh.simpleCommand env (shFiles d.fs) command with
  | some (name :: option :: operands) =>
    if name = "rm".toList ∧ option = "-r".toList then some (rm d operands) else none
  | _ => none

/-! ## The view model -/

/-- What `onChangeRootfsName` throws. -/
inductive RootfsNameError
  | fileExists
  | rootfsRunning
  | output
deriving DecidableEq

structure RootfsNameResult where
  disk : Disk
  thrown : Option RootfsNameError

/-- `File(rootfsAllDir, name).absolutePath`. -/
def AppDirs.rootfs (dirs : AppDirs) (name : Text) : Text := dirs.rootfsAllDir ++ '/' :: name

/-- `File(rootfsAllDir, name)`. -/
def AppDirs.rootfsFile (dirs : AppDirs) (name : Text) : Path := components (dirs.rootfs name)

/-- What `EDIT` does to the directories. Whether `renameTo` succeeds is not asked. -/
def editRootfsName (dirs : AppDirs) (d : Disk) (oldName newName : Text) : RootfsNameResult :=
  if newName = "current".toList ∨ exists_ d.fs (dirs.rootfsFile newName) then ⟨d, some .fileExists⟩
  else ⟨(rename d (dirs.rootfsFile oldName) (dirs.rootfsFile newName)).getD d, none⟩

/-- `onChangeRootfsName(oldName, newName, action)`. -/
def onChangeRootfsName (env : Sh.Env) (dirs : AppDirs) (d : Disk) (oldName newName : Text) :
    Preferences.FuncOnChangeAction → Option RootfsNameResult
  | .edit => some (editRootfsName dirs d oldName newName)
  | .add => some ⟨d, none⟩
  | .del =>
    if newName = "current".toList ∨
      newName = getName (canonical d.fs (pathOf dirs.rootfsCurrDir)) then
      some ⟨d, some .rootfsRunning⟩
    else
      (sh env d ("rm -r ".toList ++ dirs.rootfs oldName)).map fun r =>
        ⟨r.1, if r.2 then none else some .output⟩

end WinEmulator.App
