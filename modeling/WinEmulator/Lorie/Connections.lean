import WinEmulator.Lib.Machine
import WinEmulator.Lorie.CmdEntryPoint
import WinEmulator.Lorie.Registry

/-!
# `cmdentrypoint.c`: connections that come and go

Two threads work on the globals of the server. The server thread runs the work items that
`getXConnection` queues, one `addFd` for each connection, and everything that registers buffers. The
input thread calls `handleLorieEvents` for a registered descriptor that is readable or has an error.
No lock covers the globals, so the machine interleaves the two threads: `addFd` statement by
statement where it touches a global, and `handleLorieEvents` in two steps where it reads a payload.
The error branch, a notification, is one step.
-/

set_option autoImplicit false

namespace WinEmulator.Lorie.Connections

open WinEmulator.Lib

/-- Where the server thread is in `addFd`. -/
inductive AddFd
  | idle
  /-- After `InputThreadRegisterDev`. -/
  | registered (fd : Connection)
  /-- After `conn_fd = fd`. -/
  | connected (fd : Connection)
deriving DecidableEq

/-- The two payloads `handleLorieEvents` reads. -/
inductive Payload
  | name
  | clipboard
deriving DecidableEq

/-- A payload that was read: the descriptor its header came from, and the one it came from (`none`:
`conn_fd` was -1). -/
structure PayloadRead where
  header : Connection
  source : Option Connection
deriving DecidableEq

structure State where
  /-- How many connections were opened. -/
  opened : Nat
  /-- The queued `addFd` items. -/
  work : List Connection
  addFd : AddFd
  /-- The connections for which `addFd` has run. -/
  added : List Connection
  /-- The descriptors registered with the input thread. -/
  devs : List Connection
  registry : Registry
  clipboardEnabled : UInt8
  /-- The payload the input thread is about to read, and the descriptor it was called for. -/
  reading : Option (Connection × Payload)
  reads : List PayloadRead
  /-- The buffer of the screen pixmap. -/
  screen : BufferId
deriving DecidableEq

inductive Action
  | getXConnection
  /-- The server thread takes the next work item: `InputThreadRegisterDev`. -/
  | registerDev
  | setConnFd
  | activityConnected
  /-- A buffer is registered or unregistered by the server thread outside `addFd`. -/
  | registerBuffer (id : BufferId)
  | unregisterBuffer (id : BufferId)
  /-- `handleLorieEvents(fd)` reads the event `e`. -/
  | header (fd : Connection) (e : LorieEvent)
  | payload
  /-- `handleLorieEvents(fd)` is called with `X_NOTIFY_ERROR`. -/
  | error (fd : Connection)

/-- The descriptor each payload is read from: the name from `fd`, the clipboard text from
`conn_fd`. -/
def source (s : State) (fd : Connection) : Payload → Option Connection
  | .name => some fd
  | .clipboard => s.registry.conn_fd

/-- What the event read does to the state this machine keeps. -/
def State.enter (s : State) (fd : Connection) : Route → State
  | .now (.clipboardEnable enable) => { s with clipboardEnabled := enable }
  | .name _ => { s with reading := some (fd, .name) }
  | .clipboard _ => { s with reading := some (fd, .clipboard) }
  | _ => s

def step (s : State) : Action → Option State
  | .getXConnection => some { s with opened := s.opened + 1, work := s.work ++ [s.opened] }
  | .registerDev =>
    match s.addFd, s.work with
    | .idle, fd :: work =>
      some { s with addFd := .registered fd, work := work, devs := fd :: s.devs }
    | _, _ => none
  | .setConnFd =>
    match s.addFd with
    | .registered fd => some { s with addFd := .connected fd, registry := s.registry.setConnFd fd }
    | _ => none
  | .activityConnected =>
    match s.addFd with
    | .connected fd =>
      some { s with
        addFd := .idle
        added := fd :: s.added
        registry := s.registry.lorieRegisterBuffer s.screen }
    | _ => none
  | .registerBuffer id =>
    if s.addFd = .idle then some { s with registry := s.registry.lorieRegisterBuffer id } else none
  | .unregisterBuffer id =>
    if s.addFd = .idle then some { s with registry := s.registry.lorieUnregisterBuffer id }
    else none
  | .header fd e => if s.reading = none ∧ fd ∈ s.devs then some (s.enter fd (route e)) else none
  | .payload =>
    match s.reading with
    | some (fd, p) => some { s with reading := none, reads := s.reads ++ [⟨fd, source s fd p⟩] }
    | none => none
  | .error fd =>
    if s.reading = none ∧ fd ∈ s.devs then
      some { s with
        devs := s.devs.erase fd
        registry := s.registry.hangUp
        clipboardEnabled := 0 }
    else none

/-- The server before anybody connected. -/
def start (screen : BufferId) : State where
  opened := 0
  work := []
  addFd := .idle
  added := []
  devs := []
  registry := ⟨none, [], []⟩
  clipboardEnabled := 0
  reading := none
  reads := []
  screen := screen

end WinEmulator.Lorie.Connections
