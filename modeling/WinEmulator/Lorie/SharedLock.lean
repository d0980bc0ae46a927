import WinEmulator.Lib.Machine
import Mathlib.Logic.Function.Basic

/-!
# `lorie.h`: the lock on the root window

The X server and the activity share a page with a recursive mutex and the pid of the process that
locked it. Each has one thread that takes the mutex: the server in `loriePrepareAccess`, until
`lorieFinishAccess`, and the activity in `rendererRedrawLocked`. Every access of theirs to the
shared page and every return of a call is a step, and between any two steps of one process the other
may take any of its own, the connection may be lost or made again, and either may die.

A run starts when the activity has mapped the page, over a connection that stands.
-/

set_option autoImplicit false

namespace WinEmulator.Lorie.SharedLock

open WinEmulator.Lib

inductive Party
  | server
  | activity
deriving DecidableEq

def Party.other : Party → Party
  | .server => .activity
  | .activity => .server

/-- Where a process is in `lorie_mutex_lock` and `lorie_mutex_unlock`. -/
inductive At
  /-- In neither. -/
  | running
  /-- In `pthread_mutex_timedlock`. -/
  | waiting
  /-- It returned `ETIMEDOUT`. -/
  | timedOut
  /-- The mutex is to be initialised again. -/
  | reinitialising
  /-- It returned with the mutex locked, and `lockingPid` is to be written. -/
  | locked
  /-- `lockingPid` was cleared, and the mutex is to be unlocked. -/
  | unlocking
deriving DecidableEq

structure Process where
  living : Bool
  /-- What `lorieConnectionAlive` returns. -/
  connectionAlive : Bool
  /-- The calls of `lorie_mutex_lock` that no `lorie_mutex_unlock` matches yet. -/
  depth : Nat
  pc : At
deriving DecidableEq

structure State where
  /-- The owner of the mutex, and how often it locked it. -/
  mutex : Option (Party × Nat)
  lockingPid : Option Party
  process : Party → Process

def start : State := ⟨none, none, fun _ => ⟨true, true, 0, .running⟩⟩

inductive Action
  /-- A call of `lorie_mutex_lock`. -/
  | lock (p : Party)
  | acquire (p : Party)
  | timeOut (p : Party)
  /-- `*lockingPid == getpid() || lorieConnectionAlive()`. -/
  | check (p : Party)
  | reinit (p : Party)
  | writePid (p : Party)
  /-- A call of `lorie_mutex_unlock`. -/
  | unlock (p : Party)
  | release (p : Party)
  | disconnect (p : Party)
  | connect (p : Party)
  | die (p : Party)
deriving DecidableEq

def setProcess (p : Party) (proc : Process) (s : State) : State :=
  { s with process := Function.update s.process p proc }

/-- A process that lives goes on from one place to another. -/
def goOn (p : Party) (place place' : At) (s : State) : Option State :=
  if (s.process p).living ∧ (s.process p).pc = place then
    some (setProcess p { s.process p with pc := place' } s)
  else none

/-- `pthread_mutex_timedlock` returns with the mutex locked when it was free or the caller's own. -/
def acquire (p : Party) (s : State) : Option State :=
  let entered : State := setProcess p { s.process p with depth := (s.process p).depth + 1 } s
  match s.mutex with
  | none => goOn p .waiting .locked { entered with mutex := some (p, 1) }
  | some (q, n) =>
    if q = p then goOn p .waiting .locked { entered with mutex := some (p, n + 1) } else none

def timeOut (p : Party) (s : State) : Option State :=
  match s.mutex with
  | none => none
  | some (q, _) => if q = p then none else goOn p .waiting .timedOut s

def check (p : Party) (s : State) : Option State :=
  if s.lockingPid = some p ∨ (s.process p).connectionAlive then goOn p .timedOut .waiting s
  else goOn p .timedOut .reinitialising s

/-- `pthread_mutex_unlock`, which fails on a mutex that another process owns. -/
def pthread_mutex_unlock (p : Party) : Option (Party × Nat) → Option (Party × Nat)
  | none => none
  | some (q, n) => if q = p then (if n ≤ 1 then none else some (q, n - 1)) else some (q, n)

def step (s : State) : Action → Option State
  | .lock p => goOn p .running .waiting s
  | .acquire p => acquire p s
  | .timeOut p => timeOut p s
  | .check p => check p s
  | .reinit p => goOn p .reinitialising .waiting { s with mutex := none }
  | .writePid p => goOn p .locked .running { s with lockingPid := some p }
  | .unlock p =>
    if 0 < (s.process p).depth then goOn p .running .unlocking { s with lockingPid := none }
    else none
  | .release p =>
    goOn p .unlocking .running
      (setProcess p { s.process p with depth := (s.process p).depth - 1 }
        { s with mutex := pthread_mutex_unlock p s.mutex })
  | .disconnect p => some (setProcess p { s.process p with connectionAlive := false } s)
  | .connect p => some (setProcess p { s.process p with connectionAlive := true } s)
  | .die p => some (setProcess p { s.process p with living := false } s)

end WinEmulator.Lorie.SharedLock
