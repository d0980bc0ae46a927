import Mathlib.Data.List.Basic

/-!
# `cmdentrypoint.c`: the connection and the buffers registered on it

`conn_fd` and `registeredBuffers` are two globals of the server that belong together, and
`lorieRegisterBuffer`, `lorieUnregisterBuffer`, `addFd` and the error branch of `handleLorieEvents`
are the functions that change them. What they write about buffers is kept in `sent`, each event with
the connection it was written on.

A descriptor stands for its connection. Connections are numbered in the order `getXConnection`
opened them; a number the kernel gives out again belongs to a new connection.
-/

set_option autoImplicit false

namespace WinEmulator.Lorie

abbrev Connection := Nat

/-- `desc.id`. -/
abbrev BufferId := Nat

/-- `EVENT_ADD_BUFFER` and `EVENT_REMOVE_BUFFER`. -/
inductive BufferEvent
  | add (id : BufferId)
  | remove (id : BufferId)
deriving DecidableEq, Repr

structure Registry where
  /-- `conn_fd`; `none` is -1. -/
  conn_fd : Option Connection
  registeredBuffers : List BufferId
  sent : List (Connection × BufferEvent)
deriving DecidableEq, Repr

namespace Registry

def lorieRegisterBuffer (r : Registry) (id : BufferId) : Registry :=
  match r.conn_fd with
  | none => r
  | some fd =>
    if id ∈ r.registeredBuffers then r
    else { r with
      registeredBuffers := id :: r.registeredBuffers, sent := r.sent ++ [(fd, .add id)] }

def lorieUnregisterBuffer (r : Registry) (id : BufferId) : Registry :=
  if id ∉ r.registeredBuffers then r
  else
    match r.conn_fd with
    | none => r
    | some fd =>
      { r with
        registeredBuffers := r.registeredBuffers.erase id
        sent := r.sent ++ [(fd, .remove id)] }

/-- The error branch of `handleLorieEvents`: whichever descriptor failed, both globals are reset. -/
def hangUp (r : Registry) : Registry := { r with conn_fd := none, registeredBuffers := [] }

/-- `conn_fd = fd` in `addFd`. -/
def setConnFd (r : Registry) (fd : Connection) : Registry := { r with conn_fd := some fd }

end Registry

end WinEmulator.Lorie
