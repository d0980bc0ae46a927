import Mathlib.Data.List.Perm.Basic
import WinEmulator.App.RootfsArchive
import WinEmulator.Lib.Machine
import WinEmulator.Lib.Resolve

/-!
# Which rootfs is started

`Utils.Rootfs` keeps the choice of a rootfs twice, in the link `rootfsCurrDir` and in the preference
`curr_rootfs_name`. `SettingViewModel` and the screens `PrepareScreen` and `GeneralSettings` change
it, and `startEmu` reads it when the app is started again.

The directory `rootfsAllDir` is what its entries are: each is a rootfs, a rootfs keeps its identity
under a new name, and the link stands beside them. A name with slashes can lead past the entries;
where it leads to and whether something is there, whether a system call fails, in which order `list`
gives the entries and what the shell makes of the unquoted name of a rootfs to delete are left open.
So is whether Back leaves the prepare screen, which `MainActivity` overrides with nothing; an
installation that it leaves behind goes on.
-/

set_option autoImplicit false

namespace WinEmulator.App.RootfsChoice

open WinEmulator.Lib WinEmulator.Lib.Fs

attribute [local instance] lawfulBEq_name

/-- `rootfsCurrDir.name`. -/
def current : Text := "current".toList

/-- Each rootfs has the number of its installation. -/
abbrev RootfsId := Nat

/-- What `File(rootfsAllDir, name)` is: the entry of a name, or something else whose name is the
same. -/
inductive Place
  | entry (name : Text)
  | elsewhere (name : Text) (taken : Bool)
deriving DecidableEq

/-- What stands at `rootfsCurrDir`. -/
inductive CurrDir
  | absent
  | link (target : Place)
  | rootfs (id : RootfsId)
deriving DecidableEq

/-- The state of the composable `RootfsSelect`. -/
structure RootfsSelect where
  /-- Empty as long as nothing was installed here. -/
  rootfsName : Text
  isSetCurrent : Bool
  /-- The rootfs that was installed here. -/
  installed : Option RootfsId
  /-- Whether the settings led here. -/
  overSettings : Bool
deriving DecidableEq

inductive Screen
  | closed
  | prepare (ui : RootfsSelect)
  | settings
deriving DecidableEq

structure State where
  /-- The entries of `rootfsAllDir` beside `rootfsCurrDir`. -/
  rootfsAllDir : List (Text × RootfsId)
  rootfsCurrDir : CurrDir
  curr_rootfs_name : Text
  screen : Screen
  /-- How many were installed. -/
  installs : RootfsId
  /-- The rootfs of the last selection. -/
  selected : Option RootfsId
deriving DecidableEq

namespace State

variable (s : State)

def names : List Text := s.rootfsAllDir.map Prod.fst

/-- `rootfsAllDir.list()`, in some order. -/
def list : List Text := if s.rootfsCurrDir = .absent then s.names else current :: s.names

/-- The rootfs under a name. -/
def find (name : Text) : Option RootfsId :=
  (s.rootfsAllDir.find? fun entry => entry.1 = name).map Prod.snd

/-- Whether a link leads somewhere. -/
def leads : Place → Bool
  | .entry name => name ∈ s.names
  | .elsewhere _ taken => taken

/-- `File.exists`. -/
def existsAt : Place → Bool
  | .elsewhere _ taken => taken
  | .entry name =>
    if name = current then
      match s.rootfsCurrDir with
      | .absent => false
      | .link target => s.leads target
      | .rootfs _ => true
    else name ∈ s.names

/-- `rootfsCurrDir.canonicalFile.name`. -/
def canonicalName : Text :=
  match s.rootfsCurrDir with
  | .link (.entry name) => if name ∈ s.names then name else current
  | .link (.elsewhere name taken) => if taken then name else current
  | .absent | .rootfs _ => current

/-! ## `Utils.kt` -/

/-- `Files.symlink` to `rootfsCurrDir`; it leaves a directory with something in it alone. -/
def symlink (realFile : Place) : CurrDir :=
  match s.rootfsCurrDir with
  | .rootfs id => .rootfs id
  | .absent | .link _ => .link realFile

/-- `File.getName`. -/
def nameOf : Place → Text
  | .entry name => name
  | .elsewhere name _ => name

def makeCurrent (rootfsDir : Place) : State :=
  { s with rootfsCurrDir := s.symlink rootfsDir, curr_rootfs_name := nameOf rootfsDir }

def haveNoRootfs : Bool := !s.rootfsAllDir.any fun _ => true

/-- The name of the directory it returns. -/
def getSelectedRootfs (allAvailable : List Text) : Option Text :=
  let selectedRootfs :=
    if s.curr_rootfs_name = [] ∨ s.curr_rootfs_name ∉ allAvailable then
      allAvailable.find? (· ≠ current)
    else some s.curr_rootfs_name
  selectedRootfs.filter fun name => name ≠ [] ∧ s.existsAt (.entry name)

/-! ## `SettingViewModel.kt` -/

/-- Whether `File.renameTo` of an entry to a place where nothing is succeeds, unless it fails for a
reason of its own. -/
def moves (oldName : Text) (newFile : Place) (fails : Bool) : Bool :=
  !fails && (s.find oldName).isSome && (newFile != .entry current || s.rootfsCurrDir == .absent)

/-- `File.renameTo`. -/
def renameTo (oldName : Text) (newFile : Place) (fails : Bool) : State :=
  match s.find oldName with
  | none => s
  | some id =>
    if s.moves oldName newFile fails then
      let rest := s.rootfsAllDir.filter fun entry => entry.1 ≠ oldName
      match newFile with
      | .entry name =>
        if name = current then { s with rootfsAllDir := rest, rootfsCurrDir := .rootfs id }
        else { s with rootfsAllDir := (name, id) :: rest }
      | .elsewhere _ _ => { s with rootfsAllDir := rest }
    else s

/-- Whether `onChangeRootfsName(oldName, newName, EDIT)` throws. -/
def alreadyExists (newName : Text) (newFile : Place) : Bool :=
  newName = current || s.existsAt newFile

/-- `onChangeRootfsName(rootfsName, rootfsName, DEL)`: what the shell leaves of the entries and of
the link. -/
def delete (rootfsName : Text) (gone : List Text) : State :=
  if rootfsName = current ∨ rootfsName = s.canonicalName then s
  else
    { s with
      rootfsAllDir := s.rootfsAllDir.filter fun entry => entry.1 ∉ gone
      rootfsCurrDir := if current ∈ gone then .absent else s.rootfsCurrDir }

/-- `onChangeRootfsSelect`, for the sake of a rootfs. -/
def onChangeRootfsSelect (id : Option RootfsId) (rootfsDir : Place) : State :=
  { s.makeCurrent rootfsDir with screen := .closed, selected := id }

end State

/-! ## Runs -/

/-- The name that a rootfs gets which is found in the archive under another one. -/
def targetName (digit : Char → Option Nat) (names : List Text) (found : Text) : Option Text :=
  (Rootfs.baseNameAndNum digit found).bind fun (baseName, num) =>
    (Rootfs.freeNum names baseName (names.length + 1) num).map (Rootfs.numbered baseName)

/-- A name without slashes leads to an entry, and no other one leads to an entry that is not called
so. -/
def Leads (newName : Text) : Place → Prop
  | .entry name => name = JavaFile.getName (JavaFile.components newName) ∧ Proper name
  | .elsewhere name _ =>
    name = JavaFile.getName (JavaFile.components newName) ∧ ('/' ∈ newName ∨ ¬Proper newName)

instance (newName : Text) : ∀ place, Decidable (Leads newName place)
  | .entry name =>
    inferInstanceAs (Decidable (name = JavaFile.getName (JavaFile.components newName) ∧
      (name ≠ [] ∧ name ≠ dot ∧ name ≠ dotdot)))
  | .elsewhere name _ =>
    inferInstanceAs (Decidable (name = JavaFile.getName (JavaFile.components newName) ∧
      ('/' ∈ newName ∨ ¬(newName ≠ [] ∧ newName ≠ dot ∧ newName ≠ dotdot))))

inductive Action
  /-- The app is started; `rootfsAllDir.list()` gives this. -/
  | launch (allAvailable : List Text)
  /-- The system or the user ends the app. -/
  | close
  /-- The settings lead to the prepare screen. -/
  | navigateToNewRootfs
  /-- An archive is installed; its rootfs was called so. -/
  | install (found : Text)
  /-- `installRootfsArchive` throws after it has moved the rootfs, or the screen that awaits it was
  left. -/
  | installThrows (found : Text)
  | setCurrent (isSetCurrent : Bool)
  /-- The installed rootfs is renamed in the prepare screen. -/
  | renameInstalled (newName : Text) (newFile : Place) (fails : Bool)
  /-- The button of the prepare screen. -/
  | finish
  /-- The prepare screen is left without the button. -/
  | back
  | rename (oldName newName : Text) (newFile : Place) (fails : Bool)
  | select (rootfsName : Text)
  | delete (rootfsName : Text) (gone : List Text)
deriving DecidableEq

/-- `startEmu` of the activity, which ends where no rootfs is to be had. -/
def State.startEmu (s : State) (allAvailable : List Text) : State :=
  match s.getSelectedRootfs allAvailable with
  | none => s
  | some name => { s.makeCurrent (.entry name) with screen := .settings }

/-- Where the link is to lead when the rename before it has taken place or not. -/
def Place.after (place : Place) (moved : Bool) : Place :=
  match place with
  | .entry name => .entry name
  | .elsewhere name taken => .elsewhere name (taken || moved)

variable (digit : Char → Option Nat)

/-- The new entry of a rootfs that is installed. -/
def State.extract (s : State) (found : Text) : Option (State × Text) :=
  (targetName digit s.list found).map fun name =>
    ({ s with rootfsAllDir := s.rootfsAllDir ++ [(name, s.installs)], installs := s.installs + 1 },
      name)

def step (s : State) : Action → Option State
  | .launch allAvailable =>
    if s.screen = .closed ∧ allAvailable.Perm s.list then
      if s.haveNoRootfs then some { s with screen := .prepare ⟨[], true, none, false⟩ }
      else some (s.startEmu allAvailable)
    else none
  | .close => some { s with screen := .closed }
  | .navigateToNewRootfs =>
    if s.screen = .settings then some { s with screen := .prepare ⟨[], true, none, true⟩ } else none
  | .install found =>
    match s.screen with
    | .prepare ui =>
      if ui.rootfsName = [] then
        (s.extract digit found).map fun (after, name) =>
          { after with
            screen := .prepare { ui with rootfsName := name, installed := some s.installs } }
      else none
    | _ => none
  | .installThrows found =>
    match s.screen with
    | .prepare ui => if ui.rootfsName = [] then (s.extract digit found).map Prod.fst else none
    | .settings => (s.extract digit found).map Prod.fst
    | .closed => none
  | .setCurrent isSetCurrent =>
    match s.screen with
    | .prepare ui =>
      if ui.rootfsName ≠ [] then
        some { s with screen := .prepare { ui with isSetCurrent := isSetCurrent } }
      else none
    | _ => none
  | .renameInstalled newName newFile fails =>
    match s.screen with
    | .prepare ui =>
      if ui.rootfsName ≠ [] ∧ newName ≠ [] ∧ newName ≠ ui.rootfsName ∧ Leads newName newFile then
        if s.alreadyExists newName newFile then some s
        else some (s.renameTo ui.rootfsName newFile fails)
      else none
    | _ => none
  | .finish =>
    match s.screen with
    | .prepare ui =>
      if ui.rootfsName ≠ [] then
        if ui.isSetCurrent then some (s.onChangeRootfsSelect ui.installed (.entry ui.rootfsName))
        else some { s with screen := .closed }
      else none
    | _ => none
  | .back =>
    match s.screen with
    | .prepare ui => some { s with screen := if ui.overSettings then .settings else .closed }
    | _ => none
  | .rename oldName newName newFile fails =>
    if s.screen = .settings ∧ oldName ∈ s.names ∧ newName ≠ [] ∧ newName ≠ oldName ∧
      Leads newName newFile then
      if s.alreadyExists newName newFile then some s
      else
        let after := s.renameTo oldName newFile fails
        if oldName = s.canonicalName then
          some (after.onChangeRootfsSelect (s.find oldName)
            (newFile.after (s.moves oldName newFile fails)))
        else some after
    else none
  | .select rootfsName =>
    if s.screen = .settings ∧ rootfsName ∈ s.names ∧ rootfsName ≠ s.canonicalName then
      some (s.onChangeRootfsSelect (s.find rootfsName) (.entry rootfsName))
    else none
  | .delete rootfsName gone =>
    if s.screen = .settings ∧ rootfsName ∈ s.names then some (s.delete rootfsName gone) else none

/-- The app was never started. -/
def start : State := ⟨[], .absent, [], .closed, 0, none⟩

end WinEmulator.App.RootfsChoice
