import Mathlib.Algebra.Group.Nat.Defs
import WinEmulator.Lib.Machine

/-!
# `InitOutput.c`: the vblanks of the Present extension

The server counts the frames of the screen in `current_msc` and keeps the vblanks Present waits for
in a list. `present_event_notify` is Present's own; it executes the request a vblank was queued for,
and that may be a flip, which comes back as a call of `loriePresentAfterFlip` before the
notification returns, or one that is queued again for the next frame. So a notification is a list of
such calls here, whatever they are; it does not abort vblanks.
-/

set_option autoImplicit false

namespace WinEmulator.Lorie.Present

open WinEmulator.Lib

abbrev EventId := UInt64

/-- A media stream counter. -/
abbrev Msc := UInt64

/-- `struct vblank`. -/
structure Vblank where
  id : EventId
  msc : Msc
deriving DecidableEq

/-- What Present is told: the answer of `loriePresentGetUstMsc`, and the arguments of
`present_event_notify` for a vblank and for a flip. -/
inductive Report
  | ustMsc (msc : Msc)
  | vblank (id : EventId) (msc : Msc)
  | flip (id : EventId) (msc : Msc)
deriving DecidableEq

def Report.msc : Report → Msc
  | .ustMsc msc => msc
  | .vblank _ msc => msc
  | .flip _ msc => msc

/-- The fields of `pvfb` that Present uses, and everything Present was told. -/
structure State where
  current_msc : Msc
  vblank_queue : List Vblank
  reports : List Report
deriving DecidableEq

inductive Call
  | getUstMsc
  | afterFlip (event_id : EventId) (target_msc : Msc)
deriving DecidableEq

/-- What comes from within `present_event_notify`. -/
inductive Notice
  | call (c : Call)
  /-- As `present_execute_wait` and `present_execute_copy` do for a request that has to wait on. -/
  | queueVblank (allocated : Bool) (id : EventId) (msc : Msc)
deriving DecidableEq

inductive Action
  | call (c : Call)
  /-- `allocated` is false when `calloc` fails. -/
  | queueVblank (allocated : Bool) (id : EventId) (msc : Msc)
  | abortVblank (id : EventId)
  /-- `lorieRedraw`, with what comes of each notification. -/
  | redraw (notify : EventId → List Notice)
  /-- `lorieRRScreenSetSize`. -/
  | resize (notify : EventId → List Notice)

def loriePresentGetUstMsc (s : State) : State :=
  { s with reports := s.reports ++ [.ustMsc s.current_msc] }

def loriePresentAfterFlip (event_id : EventId) (target_msc : Msc) (s : State) : State :=
  let msc := min (s.current_msc + 1) target_msc
  { s with current_msc := msc, reports := s.reports ++ [.flip event_id msc] }

def call (s : State) : Call → State
  | .getUstMsc => loriePresentGetUstMsc s
  | .afterFlip event_id target_msc => loriePresentAfterFlip event_id target_msc s

def loriePresentQueueVblank (allocated : Bool) (id : EventId) (msc : Msc) (s : State) : State :=
  if allocated then { s with vblank_queue := ⟨id, msc⟩ :: s.vblank_queue } else s

def loriePresentAbortVblank (id : EventId) (s : State) : State :=
  { s with vblank_queue := s.vblank_queue.eraseP (·.id = id) }

def notice (s : State) : Notice → State
  | .call c => call s c
  | .queueVblank allocated id msc => loriePresentQueueVblank allocated id msc s

/-- The rest of the loop of `loriePerformVblanks`, which has read the next entry before it deletes
one. What is queued meanwhile stands before both. -/
def performVblanks (notify : EventId → List Notice) : List Vblank → State → State
  | [], s => s
  | v :: vs, s =>
    if v.msc ≤ s.current_msc then
      let told := { s with reports := s.reports ++ [.vblank v.id s.current_msc] }
      let done := (notify v.id).foldl notice told
      performVblanks notify vs { done with vblank_queue := done.vblank_queue.erase v }
    else performVblanks notify vs s

def loriePerformVblanks (notify : EventId → List Notice) (s : State) : State :=
  performVblanks notify s.vblank_queue s

def lorieRedraw (notify : EventId → List Notice) (s : State) : State :=
  loriePerformVblanks notify { s with current_msc := s.current_msc + 1 }

def act (s : State) : Action → State
  | .call c => call s c
  | .queueVblank allocated id msc => loriePresentQueueVblank allocated id msc s
  | .abortVblank id => loriePresentAbortVblank id s
  | .redraw notify => lorieRedraw notify s
  | .resize notify => loriePerformVblanks notify s

def step (s : State) (a : Action) : Option State := some (act s a)

def start : State := ⟨0, [], []⟩

/-- The state after some actions. -/
def after (as : List Action) : State := as.foldl act start

/-- The ids of the vblanks Present was told about, in order. -/
def notified (s : State) : List EventId :=
  s.reports.filterMap fun
    | .vblank id _ => some id
    | _ => none

end WinEmulator.Lorie.Present
