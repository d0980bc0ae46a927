import WinEmulator.Lib.LinkedNodes

/-!
# `dixutils.c`, patched: the work queue

Any thread and any work function may put work at the end of the queue. One thread calls the
functions, one after the other, and takes out those that return `TRUE`. The lock is held around
everything but the calls, so a step is a call that returns and all that follows up to the next call.

The clients of the items are NULL. A trace says what has been queued and called; the number of an
item, which is its place in that order, tells apart items that are the same otherwise.
-/

set_option autoImplicit false

namespace WinEmulator.Lorie.WorkQueue

open WinEmulator.Lib LinkedNodes

variable {Work : Type}

/-- A function and its closure. -/
structure Item (Work : Type) where
  number : Nat
  work : Work
deriving DecidableEq

inductive Event (Work : Type)
  | queued (item : Item Work)
  | passBegins
  | called (item : Item Work)
  | returned (item : Item Work) (result : Bool)
  | removed (item : Item Work)
  | passEnds
deriving DecidableEq

def Event.queued? : Event Work → Option (Item Work)
  | .queued item => some item
  | _ => none

/-- What has been queued, in this order. -/
def queuedItems (trace : List (Event Work)) : List (Item Work) := trace.filterMap Event.queued?

/-- `workQueue` is where the memory's list begins. While a function runs, `p` and `q` are kept. -/
structure State (Work : Type) where
  memory : Memory (Item Work)
  workQueueLast : Link
  calling : Option (Link × Address)
  faulted : Bool
  trace : List (Event Work)

def initial : State Work where
  memory := ⟨none, LinkedMap.empty⟩
  workQueueLast := .head
  calling := none
  faulted := false
  trace := []

namespace State

def record (s : State Work) (e : Event Work) : State Work := { s with trace := s.trace ++ [e] }

/-- `while ((q = *p))`: the lock is released for the call, or else after `workQueueLast` is set. -/
def whileNext (s : State Work) (p : Link) : Option (State Work) :=
  (s.memory.read p).bind fun q =>
    match q with
    | some q =>
      (s.memory.value q).map fun item => { s.record (.called item) with calling := some (p, q) }
    | none => some { s.record .passEnds with calling := none, workQueueLast := p }

/-- `ProcessWorkQueue` up to the first call. -/
def processWorkQueue (s : State Work) : Option (State Work) :=
  (s.record .passBegins).whileNext .head

/-- The function has returned. The next node is not fetched until then. -/
def functionReturns (s : State Work) (p : Link) (q : Address) (result : Bool) :
    Option (State Work) :=
  (s.memory.nodes.get q).bind fun node =>
    let s := s.record (.returned node.value result)
    if result then
      (s.memory.write node.next p).bind fun memory =>
        ({ s with memory := memory.free q }.record (.removed node.value)).whileNext p
    else s.whileNext (.next q)

/-- `QueueWorkProc`, with the address that `malloc` has given. -/
def queueWorkProc (s : State Work) (q : Address) (work : Work) : Option (State Work) :=
  let item : Item Work := ⟨(queuedItems s.trace).length, work⟩
  ((s.memory.alloc q item).write (some q) s.workQueueLast).map fun memory =>
    { s.record (.queued item) with memory, workQueueLast := .next q }

end State

/-- What a thread does. -/
inductive Action (Work : Type)
  | queueWorkProc (malloc : Option Address) (work : Work)
  | processWorkQueue
  | functionReturns (result : Bool)

/-- What memory that is not allocated makes of the program. -/
def orFault (s : State Work) (next : Option (State Work)) : State Work :=
  next.getD { s with faulted := true }

/-- `malloc` gives no address that is in use; without memory nothing is queued. Passes do not
overlap. -/
def step (s : State Work) : Action Work → Option (State Work)
  | .queueWorkProc none _ => some s
  | .queueWorkProc (some q) work =>
    if (s.memory.nodes.get q).isNone then some (orFault s (s.queueWorkProc q work)) else none
  | .processWorkQueue =>
    match s.calling with
    | none => some (orFault s s.processWorkQueue)
    | some _ => none
  | .functionReturns result =>
    match s.calling with
    | none => none
    | some (p, q) => some (orFault s (s.functionReturns p q result))

end WinEmulator.Lorie.WorkQueue
