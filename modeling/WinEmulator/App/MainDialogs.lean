import WinEmulator.App.ProotRootfs
import WinEmulator.Lib.Machine

/-!
# The dialogs of `MainViewModel.kt`

`showConfirmDialog` and `showBlockDialog` share one state of the screen, and all calls of
`showConfirmDialog` share one `dialogDeferred`. A call goes on to its next suspension in one step,
and calls interleave there; the action of a block dialog takes any number of steps of others.
`MainDialog` of `MainCompose.kt` has the buttons that call `closeConfirmDialog` only while it shows
a dialog to confirm.
-/

set_option autoImplicit false

namespace WinEmulator.App.MainDialogs

open WinEmulator.Lib

inductive DialogType
  | block
  | confirm
  | none
deriving DecidableEq

structure MainUiState where
  dialogType : DialogType
  msg : Text
deriving DecidableEq

/-- A `CompletableDeferred` is its place among those that were made, and so is the call that made
it. -/
abbrev Deferred := Nat

structure State where
  uiState : MainUiState
  /-- The call of `showConfirmDialog` whose message that is. -/
  shownBy : Option Deferred
  /-- What each was completed with. -/
  deferreds : List (Option Bool)
  dialogDeferred : Option Deferred
  /-- The calls of `showConfirmDialog` that have not returned. -/
  confirming : List Deferred
  /-- How many calls of `showBlockDialog` are in their action. -/
  blocking : Nat
deriving DecidableEq

inductive Action
  | showConfirmDialog (msg : Text)
  | closeConfirmDialog (confirm : Bool)
  /-- `await` returns, and the call. -/
  | confirmed (call : Deferred)
  | showBlockDialog (msg : Text)
  /-- An action ends, and its call. -/
  | actionDone
deriving DecidableEq

namespace State

variable (s : State)

def showConfirmDialog (msg : Text) : State :=
  { s with
    uiState := ⟨.confirm, msg⟩
    shownBy := some s.deferreds.length
    deferreds := s.deferreds ++ [none]
    dialogDeferred := some s.deferreds.length
    confirming := s.confirming ++ [s.deferreds.length] }

/-- Only the first completion counts. -/
def complete (deferred : Deferred) (confirm : Bool) : State :=
  { s with deferreds := s.deferreds.modify deferred fun result => some (result.getD confirm) }

def closeConfirmDialog (confirm : Bool) : State :=
  match s.dialogDeferred with
  | none => s
  | some deferred => s.complete deferred confirm

/-- `copy(dialogType = NONE)`. -/
def hide : State := { s with uiState := { s.uiState with dialogType := .none } }

def showBlockDialog (msg : Text) : State :=
  { s with uiState := ⟨.block, msg⟩, shownBy := none, blocking := s.blocking + 1 }

/-- What a call was completed with. -/
def result (call : Deferred) : Option Bool := s.deferreds[call]?.join

end State

def step (s : State) : Action → Option State
  | .showConfirmDialog msg => some (s.showConfirmDialog msg)
  | .closeConfirmDialog confirm =>
    if s.uiState.dialogType = .confirm then some (s.closeConfirmDialog confirm) else none
  | .confirmed call =>
    if call ∈ s.confirming ∧ (s.result call).isSome then
      some { s.hide with confirming := s.confirming.erase call }
    else none
  | .showBlockDialog msg => some (s.showBlockDialog msg)
  | .actionDone => if 0 < s.blocking then some { s.hide with blocking := s.blocking - 1 } else none

def start : State where
  uiState := ⟨.none, []⟩
  shownBy := none
  deferreds := []
  dialogDeferred := none
  confirming := []
  blocking := 0

end WinEmulator.App.MainDialogs
