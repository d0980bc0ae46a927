import Mathlib.Algebra.Group.Int.Defs
import Mathlib.Algebra.Group.Nat.Defs

/-!
# `mieq.c`: the queue of input events

The thread that reads the activity's events puts them in the queue, and `ProcessInputEvents`, on the
server's thread, takes them out and hands each one to its device. The lock is held except while an
event is handed on. A motion that follows a motion of the same device takes its place. The array
grows to twice its size when it is full.

What is left out of an event is what the queue does not look at; a device is its id, and the screen
that its sprite is on when the event comes.
-/

set_option autoImplicit false

namespace WinEmulator.Lorie.EventQueue

variable {Body Screen : Type}

/-- `InternalEvent`: whether `any.type` is `ET_Motion`, `any.time` and the rest of it. -/
structure InternalEvent (Body : Type) where
  motion : Bool
  time : Nat
  body : Body
deriving DecidableEq

/-- `DeviceIntPtr`: `id`, and `EnqueueScreen` of it. -/
structure Device (Screen : Type) where
  id : Nat
  enqueueScreen : Screen
deriving DecidableEq

/-- `EventRec`. -/
structure EventRec (Body Screen : Type) where
  event : InternalEvent Body
  pScreen : Option Screen
  pDev : Option (Device Screen)
deriving DecidableEq

/-- `EventQueueRec`. A bucket that has never been written to holds no event. -/
structure EventQueueRec (Body Screen : Type) where
  head : Nat
  tail : Nat
  lastEventTime : Nat
  /-- The device's id if the last event was a motion, or 0. -/
  lastMotion : Nat
  events : List (Option (EventRec Body Screen))
  dropped : Nat

namespace EventQueueRec

def nevents (q : EventQueueRec Body Screen) : Nat := q.events.length

end EventQueueRec

def QUEUE_INITIAL_SIZE : Nat := 512

/-- The values of `unsigned int`. -/
def unsigned (n : Nat) : Nat := n % 2 ^ 32

/-- `tail - head` is an `int` and becomes a `size_t`. -/
def mieqNumEnqueued (q : EventQueueRec Body Screen) : Nat :=
  if q.nevents = 0 then 0
  else
    let n := (((q.tail : Int) - q.head) % 2 ^ 64).toNat + q.nevents
    let nEnqueued := n % 2 ^ 64
    if nEnqueued ≥ q.nevents then nEnqueued - q.nevents else nEnqueued

/-- What memory there is when the array is to grow. -/
inductive Memory
  | enough
  | noArray
  | noEventList
deriving DecidableEq

/-- What `mieqGrowQueue` has done. -/
inductive Growth (Body Screen : Type)
  | grown (q : EventQueueRec Body Screen)
  | failed
  /-- The new array is given up with the events of the old buckets, which it shares. -/
  | eventsFreed

def mieqGrowQueue (q : EventQueueRec Body Screen) (newNevents : Nat) (memory : Memory) :
    Growth Body Screen :=
  if newNevents ≤ q.nevents then .failed
  else
    match memory with
    | .noArray => .failed
    | .noEventList => .eventsFreed
    | .enough =>
      .grown { q with
        events := q.events.drop q.head ++ q.events.take q.head ++ List.replicate
          (newNevents - q.nevents) none
        tail := mieqNumEnqueued q
        head := 0 }

/-- `mieqInit` at a time; without memory the server ends. -/
def mieqInit (now : Nat) : EventQueueRec Body Screen where
  head := 0
  tail := 0
  lastEventTime := now
  lastMotion := 0
  events := List.replicate QUEUE_INITIAL_SIZE none
  dropped := 0

/-- What `mieqEnqueue` has done. -/
inductive Outcome (Body Screen : Type)
  | enqueued (q : EventQueueRec Body Screen)
  | dropped (q : EventQueueRec Body Screen)
  /-- A bucket that the array does not have, or events that are freed. -/
  | fault

/-- The end of `mieqEnqueue`: the event is in bucket `oldtail`. The time that goes back is corrected
in the caller's copy alone, which the bucket no longer shares. -/
def store (q : EventQueueRec Body Screen) (oldtail isMotion : Nat) (pDev : Option (Device Screen))
    (e : InternalEvent Body) :
    Outcome Body Screen :=
  if oldtail < q.nevents then
    .enqueued { q with
      events := q.events.set oldtail (some ⟨e, pDev.map Device.enqueueScreen, pDev⟩)
      lastEventTime := e.time
      lastMotion := isMotion
      tail := unsigned (oldtail + 1) % q.nevents }
  else .fault

/-- `isMotion` of `mieqEnqueue`. -/
def isMotion (pDev : Option (Device Screen)) (e : InternalEvent Body) : Nat :=
  if e.motion then pDev.elim 0 Device.id else 0

def mieqEnqueue (q : EventQueueRec Body Screen) (pDev : Option (Device Screen))
    (e : InternalEvent Body) (memory : Memory) :
    Outcome Body Screen :=
  let oldtail := unsigned q.tail
  let isMotion := isMotion pDev e
  if isMotion ≠ 0 ∧ isMotion = q.lastMotion ∧ oldtail ≠ q.head then
    store q (unsigned (oldtail + (2 ^ 32 - 1)) % q.nevents) isMotion pDev e
  else if mieqNumEnqueued q + 1 = q.nevents then
    match mieqGrowQueue q (q.nevents * 2) memory with
    | .grown q => store q (unsigned q.tail) isMotion pDev e
    | .failed => .dropped { q with dropped := q.dropped + 1 }
    | .eventsFreed => .fault
  else store q oldtail isMotion pDev e

/-! ## The two threads -/

/-- The queue and what has been done with the events. -/
structure State (Body Screen : Type) where
  queue : EventQueueRec Body Screen
  /-- All that `mieqEnqueue` was called with. -/
  arrived : List (EventRec Body Screen)
  /-- Those of them that it put in the queue. -/
  accepted : List (EventRec Body Screen)
  /-- All that `mieqProcessDeviceEvent` was called with. -/
  processed : List (EventRec Body Screen)
  /-- How many calls of `mieqProcessInputEvents` have not returned. -/
  processing : Nat
  faulted : Bool

def initial (now : Nat) : State Body Screen where
  queue := mieqInit now
  arrived := []
  accepted := []
  processed := []
  processing := 0
  faulted := false

inductive Action (Body Screen : Type)
  | mieqEnqueue (pDev : Option (Device Screen)) (e : InternalEvent Body) (memory : Memory)
  | mieqProcessInputEvents
  /-- `mieqProcessDeviceEvent` has returned to the pass that was begun last. -/
  | eventProcessed

namespace State

/-- What becomes of the call, for an event that has come. -/
def enqueue (s : State Body Screen) (pDev : Option (Device Screen)) (e : InternalEvent Body)
    (memory : Memory) :
    State Body Screen :=
  let entry : EventRec Body Screen := ⟨e, pDev.map Device.enqueueScreen, pDev⟩
  let s := { s with arrived := s.arrived ++ [entry] }
  match mieqEnqueue s.queue pDev e memory with
  | .enqueued queue => { s with queue, accepted := s.accepted ++ [entry] }
  | .dropped queue => { s with queue }
  | .fault => { s with faulted := true }

/-- `while (miEventQueue.head != miEventQueue.tail)`, up to the next event that is handed on or the
end of the pass. -/
def whileNext (s : State Body Screen) : State Body Screen :=
  if s.queue.head = s.queue.tail then { s with processing := s.processing - 1 }
  else
    match s.queue.events[s.queue.head]? with
    | some (some e) =>
      { s with
        queue := { s.queue with head := (s.queue.head + 1) % s.queue.nevents }
        processed := s.processed ++ [e] }
    | _ => { s with faulted := true }

end State

/-- A motion comes from a device. The indices are of type `int`, and there is no memory for as many
buckets as that type has values. -/
def step (s : State Body Screen) : Action Body Screen → Option (State Body Screen)
  | .mieqEnqueue pDev e memory =>
    if e.motion = true ∧ pDev = none then none
    else if memory = .noArray ∨ s.queue.nevents * 2 < 2 ^ 31 then some (s.enqueue pDev e memory)
    else none
  | .mieqProcessInputEvents =>
    some { s with queue := { s.queue with dropped := 0 }, processing := s.processing + 1 }.whileNext
  | .eventProcessed => if s.processing = 0 then none else some s.whileNext

end WinEmulator.Lorie.EventQueue
