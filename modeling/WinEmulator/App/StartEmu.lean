import Mathlib.Data.Bool.Basic
import Mathlib.Data.List.Basic
import WinEmulator.Lib.Machine

/-!
# The start of the emulator

`startEmu` of `MainEmuActivity.kt` and `startTerminal` of `TerminalViewModel.kt` look at a field,
suspend, and set the field after that. A call goes on from one suspension to the next in one step,
and all calls, the coroutines that read the output of a process, `runCommand` and `stopTerminal`
interleave there. What `getSelectedRootfs` finds, whether the rootfs has a directory `xkb`, whether
a process can be started and when it exits are left open.
-/

set_option autoImplicit false

namespace WinEmulator.App.StartEmu

open WinEmulator.Lib

/-- Each process that was started has its number. -/
abbrev Process := Nat

/-- Where a call of `startEmu`, or of `startTerminal` by it (`emu`) or by others, is suspended. -/
inductive Call
  /-- `startEmu` has seen that `emuStarted` is not set, and is in `getSelectedRootfs`. -/
  | getSelectedRootfs
  | makeCurrent
  /-- `emuStarted` is set, and the X server or the user is waited for. -/
  | waitForX
  /-- `startTerminal` has seen that `process` is null, and starts one. -/
  | start (emu : Bool)
  /-- The process runs, and `process` is not set to it. -/
  | started (process : Process) (emu : Bool)
  /-- `startTerminal` has returned to `startEmu`. -/
  | addObserver
  | returned
deriving DecidableEq

/-- The coroutine that reads the output of a process. -/
inductive Reader
  | opening
  | reading
  /-- In `process?.waitFor()`. -/
  | waitFor (process : Process)
  | returned
deriving DecidableEq

structure State where
  calls : List Call
  readers : List Reader
  emuStarted : Bool
  /-- How many calls set `emuStarted`. -/
  passed : Nat
  /-- How often `startX11Intent` was started. -/
  services : Nat
  /-- How many an observer of the lifecycle. -/
  emuManagers : Nat
  process : Option Process
  /-- The process whose input it writes. -/
  processWriter : Option Process
  /-- How many were started. -/
  processes : Process
  alive : List Process
  /-- The processes that were told to end. -/
  destroyed : List Process
deriving DecidableEq

namespace State

variable (s : State)

/-! ## `MainEmuActivity.kt` -/

def startEmu : State :=
  if s.emuStarted then s else { s with calls := s.calls ++ [.getSelectedRootfs] }

/-- Where the call goes on. -/
def goTo (i : Nat) (call : Call) : State := { s with calls := s.calls.set i call }

/-! ## `TerminalViewModel.kt` -/

/-- `startTerminal` returns. -/
def endTerminal (emu : Bool) : Call := if emu then .addObserver else .returned

/-- The check of `startTerminal`, and where the call is after that. -/
def startTerminal (emu : Bool) : Call := if s.process.isSome then endTerminal emu else .start emu

def closeResources : State :=
  { s with process := none, processWriter := none, destroyed := s.destroyed ++ s.process.toList }

/-- `process?.isAlive`. -/
def isAlive : Bool := s.process.any fun process => process ∈ s.alive

def runCommand : State := if s.processWriter = none ∨ s.isAlive = false then s.closeResources else s

def setReader (i : Nat) (reader : Reader) : State := { s with readers := s.readers.set i reader }

/-- A reader goes on. Its own process may have ended, or its streams were closed. -/
def read (i : Nat) : Reader → Option State
  | .opening =>
    some (if s.process.isSome then s.setReader i .reading else s.closeResources.setReader i
      .returned)
  | .reading =>
    match s.process with
    | none => some (s.closeResources.setReader i .returned)
    | some process => some (s.setReader i (.waitFor process))
  | .waitFor process =>
    if process ∈ s.alive then none else some (s.closeResources.setReader i .returned)
  | .returned => none

/-- A call goes on. The outcome is whether a rootfs was found, the directory `xkb` exists, a process
could be started. -/
def resume (i : Nat) (outcome : Bool) : Call → Option State
  | .getSelectedRootfs => some (s.goTo i (if outcome then .makeCurrent else .returned))
  | .makeCurrent =>
    some { s.goTo i .waitForX with
      emuStarted := true
      passed := s.passed + 1
      services := s.services + outcome.toNat }
  | .waitForX => some (s.goTo i (s.startTerminal true))
  | .start emu =>
    if outcome then
      some { s.goTo i (.started s.processes emu) with
        processes := s.processes + 1
        alive := s.alive ++ [s.processes] }
    else some (s.goTo i .returned)
  | .started process emu =>
    some { s.goTo i (endTerminal emu) with
      process := some process
      processWriter := some process
      readers := s.readers ++ [.opening] }
  | .addObserver => some { s.goTo i .returned with emuManagers := s.emuManagers + 1 }
  | .returned => none

end State

inductive Action
  | startEmu
  | startTerminal
  | resume (i : Nat) (outcome : Bool)
  | read (i : Nat)
  | runCommand
  /-- A rootfs was selected, the activity or the view model is destroyed. -/
  | stopTerminal
  | exit (process : Process)
deriving DecidableEq

def step (s : State) : Action → Option State
  | .startEmu => some s.startEmu
  | .startTerminal => some { s with calls := s.calls ++ [s.startTerminal false] }
  | .resume i outcome => s.calls[i]?.bind fun call => s.resume i outcome call
  | .read i => s.readers[i]?.bind fun reader => s.read i reader
  | .runCommand => some s.runCommand
  | .stopTerminal => some s.closeResources
  | .exit process =>
    if process ∈ s.alive then some { s with alive := s.alive.erase process } else none

def start : State where
  calls := []
  readers := []
  emuStarted := false
  passed := 0
  services := 0
  emuManagers := 0
  process := none
  processWriter := none
  processes := 0
  alive := []
  destroyed := []

end WinEmulator.App.StartEmu
