import WinEmulator.Lib.AtomicCalls

/-!
# `xshmfence.c`: fences in shared memory

A fence that an X client passes is one of two kinds, by the size of its memory: a word that is
waited on with the `futex` system call, or a value with a mutex and a condition variable. Any number
of threads, of any processes that have mapped the memory, call the functions of the fence at any
time.

A step of the first kind is one instruction on the word or one system call; of the second it is what
a thread does from locking the mutex until it gives it up. A thread that sleeps may be woken for no
reason, or, in a `futex` call, by a signal.
-/

set_option autoImplicit false

namespace WinEmulator.Lorie.Fence

open WinEmulator.Lib

/-- The functions of a fence. -/
inductive Call
  | trigger
  | await
  | query
  | reset
deriving DecidableEq

/-- What threads do, whatever the kind. -/
inductive Action (Thread : Type)
  | call (t : Thread) (c : Call)
  /-- The next step of the call that the thread is in. -/
  | go (t : Thread)
  /-- A thread that sleeps is disturbed. -/
  | disturb (t : Thread)
  /-- The call returns; `xshmfence_reset`, which returns nothing, has the result 0. -/
  | ret (t : Thread) (result : Int)

variable {Thread : Type} [DecidableEq Thread]

/-! ## `xshmfence_futex.c` -/

namespace Futex

/-- Where a thread is. -/
inductive At
  | outside
  /-- At the first instruction of a function; in `xshmfence_await`, at its `while`. -/
  | first (c : Call)
  /-- `xshmfence_trigger` has seen `-1`. -/
  | atomic_store
  /-- It has written 1. -/
  | futex_wake
  /-- `xshmfence_await` has not seen 1. -/
  | futex_wait
  | asleep
  | returning (result : Int)
deriving DecidableEq

structure State (Thread : Type) where
  v : Int
  place : Thread → At

/-- New memory is zero. -/
def start : State Thread := ⟨0, fun _ => .outside⟩

def State.set (s : State Thread) (t : Thread) (v : Int) (place : At) : State Thread :=
  ⟨v, Function.update s.place t place⟩

/-- `__sync_val_compare_and_swap`: what is then in memory. -/
def compare_and_swap (v expected new : Int) : Int := if v = expected then new else v

def wake : At → At
  | .asleep => .first .await
  | place => place

/-- The next step of a thread in a call. -/
def go (s : State Thread) (t : Thread) : Option (State Thread) :=
  match s.place t with
  | .first .trigger =>
    some (s.set t (compare_and_swap s.v 0 1) (if s.v = -1 then .atomic_store else .returning 0))
  | .atomic_store => some (s.set t 1 .futex_wake)
  | .futex_wake =>
    some { s with place := Function.update (fun u => wake (s.place u)) t (.returning 0) }
  | .first .await =>
    some (s.set t (compare_and_swap s.v 0 (-1)) (if s.v = 1 then .returning 0 else .futex_wait))
  -- `EWOULDBLOCK` if the word is not the one given
  | .futex_wait => some (s.set t s.v (if s.v = -1 then .asleep else .first .await))
  | .first .query => some (s.set t s.v (.returning (if s.v = 1 then 1 else 0)))
  | .first .reset => some (s.set t (compare_and_swap s.v 1 0) (.returning 0))
  | .outside | .asleep | .returning _ => none

def step (s : State Thread) : Action Thread → Option (State Thread)
  | .call t c => if s.place t = .outside then some (s.set t s.v (.first c)) else none
  | .go t => go s t
  -- `EINTR`, with which `xshmfence_await` returns
  | .disturb t => if s.place t = .asleep then some (s.set t s.v (.returning (-1))) else none
  | .ret t result => if s.place t = .returning result then some (s.set t s.v .outside) else none

end Futex

/-! ## `xshmfence_pthread.c` -/

namespace Pthread

inductive At
  | outside
  /-- At `pthread_mutex_lock`; in `xshmfence_await` also when `pthread_cond_wait` ends. -/
  | first (c : Call)
  /-- In `pthread_cond_wait`. -/
  | asleep
  | returning (result : Int)
deriving DecidableEq

structure State (Thread : Type) where
  value : Int
  waiting : Int
  place : Thread → At

/-- After `xshmfence_init`. -/
def start : State Thread := ⟨0, 0, fun _ => .outside⟩

/-- `pthread_cond_broadcast`. -/
def wake : At → At
  | .asleep => .first .await
  | place => place

def State.move (s : State Thread) (t : Thread) (place : At) : State Thread :=
  { s with place := Function.update s.place t place }

/-- `xshmfence_trigger`, while the mutex is locked. -/
def trigger (s : State Thread) : State Thread :=
  if s.value = 0 then
    if s.waiting ≠ 0 then ⟨1, 0, fun u => wake (s.place u)⟩ else { s with value := 1 }
  else s

def go (s : State Thread) (t : Thread) : Option (State Thread) :=
  match s.place t with
  | .first .trigger => some ((trigger s).move t (.returning 0))
  | .first .await =>
    if s.value = 0 then some ({ s with waiting := 1 }.move t .asleep)
    else some (s.move t (.returning 0))
  | .first .query => some (s.move t (.returning s.value))
  | .first .reset => some ({ s with value := 0 }.move t (.returning 0))
  | .outside | .asleep | .returning _ => none

def step (s : State Thread) : Action Thread → Option (State Thread)
  | .call t c => if s.place t = .outside then some (s.move t (.first c)) else none
  | .go t => go s t
  | .disturb t => if s.place t = .asleep then some (s.move t (.first .await)) else none
  | .ret t result => if s.place t = .returning result then some (s.move t .outside) else none

end Pthread

/-! ## `xshmfence.c` -/

/-- `struct xshmfence`: `is_futex` is the constructor. -/
inductive xshmfence (Thread : Type)
  | futex (real : Futex.State Thread)
  | pthread (real : Pthread.State Thread)

/-- `xshmfence_map_shm` of new memory. -/
def xshmfence_map_shm (st_size : Nat) : xshmfence Thread :=
  if st_size = 4 then .futex Futex.start else .pthread Pthread.start

def step : xshmfence Thread → Action Thread → Option (xshmfence Thread)
  | .futex real, a => (Futex.step real a).map .futex
  | .pthread real, a => (Pthread.step real a).map .pthread

end WinEmulator.Lorie.Fence
