import Mathlib.Data.Finset.Basic
import WinEmulator.Lib.Machine

/-!
# `SettingViewModel.kt`: edits of the two preference sets

`onChangeProotBoolOptions` and `onChangeShareExtPath` each read a set, compute a new one and store
it with `editDateStore`. The read is outside the transaction, and it is not the same read: one looks
at `prootState`, a `StateFlow` that starts at the defaults and follows the store when it gets around
to it, the other at the store itself.

The machine runs any number of such calls at once. A call is waiting, then has computed its new set,
then has stored it; the flow collects a value from the store and publishes it later, if anybody is
subscribed at all.
-/

set_option autoImplicit false

namespace WinEmulator.App.Preferences

open WinEmulator.Lib

/-- The two preferences that hold a set. -/
inductive Key
  | proot_bool_options
  | general_shared_ext_path
deriving DecidableEq

/-- What the store holds for them; `none` before the first edit. -/
structure Prefs where
  proot_bool_options : Option (Finset String)
  general_shared_ext_path : Option (Finset String)
deriving DecidableEq

/-- The defaults of the two items. -/
abbrev Defaults := Key → Finset String

/-- `pref[key] ?: default`. -/
def Prefs.get (default : Defaults) (p : Prefs) : Key → Finset String
  | .proot_bool_options => p.proot_bool_options.getD (default .proot_bool_options)
  | .general_shared_ext_path => p.general_shared_ext_path.getD (default .general_shared_ext_path)

/-- `dataStore.edit { it[key] = value }`. -/
def Prefs.set (p : Prefs) (key : Key) (value : Finset String) : Prefs :=
  match key with
  | .proot_bool_options => { p with proot_bool_options := some value }
  | .general_shared_ext_path => { p with general_shared_ext_path := some value }

inductive FuncOnChangeAction
  | edit
  | add
  | del
deriving DecidableEq

inductive Call
  | onChangeProotBoolOptions (option : String) (checked : Bool)
  | onChangeShareExtPath (oldPath newPath : String) (action : FuncOnChangeAction)
deriving DecidableEq

def Call.key : Call → Key
  | .onChangeProotBoolOptions _ _ => .proot_bool_options
  | .onChangeShareExtPath _ _ _ => .general_shared_ext_path

/-- The set a call computes from the one it read. -/
def Call.newValue (current : Finset String) : Call → Finset String
  | .onChangeProotBoolOptions option true => insert option current
  | .onChangeProotBoolOptions option false => current.erase option
  | .onChangeShareExtPath oldPath newPath .edit => insert newPath (current.erase oldPath)
  | .onChangeShareExtPath _ newPath .add => insert newPath current
  | .onChangeShareExtPath _ newPath .del => current.erase newPath

structure State where
  store : Prefs
  /-- `prootState.value.boolOptions`. -/
  prootState : Finset String
  /-- A value `prootFlow` has produced and `prootState` does not show yet. -/
  emitting : Option (Finset String)
  waiting : List Call
  computed : List (Call × Finset String)
  /-- The calls that have stored their set, in that order. -/
  finished : List Call
deriving DecidableEq

inductive Action
  | collect
  | emit
  | read (c : Call)
  | write (c : Call) (newValue : Finset String)
deriving DecidableEq

/-- The set a call reads. -/
def seen (default : Defaults) (s : State) (c : Call) : Finset String :=
  match c.key with
  | .proot_bool_options => s.prootState
  | .general_shared_ext_path => s.store.get default .general_shared_ext_path

def step (default : Defaults) (s : State) : Action → Option State
  | .collect => some { s with emitting := some (s.store.get default .proot_bool_options) }
  | .emit => s.emitting.map fun value => { s with prootState := value, emitting := none }
  | .read c =>
    if c ∈ s.waiting then
      some { s with
        waiting := s.waiting.erase c
        computed := (c, c.newValue (seen default s c)) :: s.computed }
    else none
  | .write c value =>
    if (c, value) ∈ s.computed then
      some { s with
        computed := s.computed.erase (c, value)
        finished := s.finished ++ [c]
        store := s.store.set c.key value }
    else none

/-- The calls are about to be made; nothing was emitted yet. -/
def start (default : Defaults) (store : Prefs) (calls : List Call) : State where
  store := store
  prootState := default .proot_bool_options
  emitting := none
  waiting := calls
  computed := []
  finished := []

/-- One call on its own: read the store, compute, store. -/
def Call.apply (default : Defaults) (p : Prefs) (c : Call) : Prefs :=
  p.set c.key (c.newValue (p.get default c.key))

end WinEmulator.App.Preferences
