import WinEmulator.Lib.Machine
import WinEmulator.Lorie.Event

/-!
# `cmdentrypoint.c`: the server's receiving side

The input thread waits until a connection is readable and calls `handleLorieEvents`, which reads an
event, dispatches on its type, reads a payload where the type has one, and goes back to `again`
while more than one event's worth of bytes is waiting.

The peer writes while the server reads, so this is a machine with two parties: `push` moves bytes
the activity has written into the socket, `serve` is the input thread's next system call. A `read`
waits only while the socket is empty and then takes what is there, up to what was asked for. That is
all a stream socket promises, and it is all the machine assumes.
-/

set_option autoImplicit false

namespace WinEmulator.Lorie

open WinEmulator.Lib

/-- A case of the `switch` in `handleLorieEvents` that was reached, with the members it reads and
the payload it hands on. -/
inductive Dispatched
  | screenSize (size : ScreenSize) (name : List UInt8)
  | touch (t : Touch)
  | stylus (s : Stylus)
  | stylusEnable (enable : UInt8)
  | mouse (m : Mouse)
  | key (k : Key)
  | unicode (code : UInt32)
  | clipboardEnable (enable : UInt8)
  | clipboardAnnounce
  | clipboardSend (data : List UInt8)
deriving DecidableEq

/-- What the `switch` does with an event: nothing, a case that needs no more input, or a case that
reads a payload of some length first. -/
inductive Route
  | ignored
  | now (d : Dispatched)
  | name (size : ScreenSize)
  | clipboard (count : UInt32)
deriving DecidableEq

/-- The `switch (e.type)` of `handleLorieEvents`. -/
def route (e : LorieEvent) : Route :=
  match EventType.ofCode e.type with
  | .screenSize =>
    if e.screenSize.name_size = 0 then .now (.screenSize e.screenSize []) else .name e.screenSize
  | .touch => .now (.touch e.touch)
  | .stylus => .now (.stylus e.stylus)
  | .stylusEnable => .now (.stylusEnable e.enable)
  | .mouse => .now (.mouse e.mouse)
  | .key => .now (.key e.key)
  | .unicode => .now (.unicode e.unicode)
  | .clipboardEnable => .now (.clipboardEnable e.enable)
  | .clipboardAnnounce => .now .clipboardAnnounce
  | .clipboardSend => .clipboard e.count
  | _ => .ignored

/-- A `calloc`ed block of `n` bytes after `got` was read into it. -/
def block (n : Nat) (got : List UInt8) : List UInt8 := got ++ List.replicate (n - got.length) 0

namespace InputThread

/-- Where the input thread is. -/
inductive Pc
  /-- In the poll. -/
  | poll
  /-- At `again`, about to read an event. -/
  | header
  /-- About to read a display name. -/
  | name (size : ScreenSize)
  /-- About to read a clipboard text. -/
  | clipboard (count : UInt32)
  /-- At the `ioctl`. -/
  | more
deriving DecidableEq

/-- A connection with both its ends. -/
structure State where
  /-- Bytes the activity has written that the kernel has not taken yet. -/
  unsent : List UInt8
  socket : List UInt8
  pc : Pc
  dispatched : List Dispatched
deriving DecidableEq

inductive Action
  /-- The kernel takes `k` more bytes. -/
  | push (k : Nat)
  | serve
deriving DecidableEq

/-- The bytes the thread asks for where it is. -/
def Pc.asks : Pc → Nat
  | .header => sizeofLorieEvent
  | .name size => size.name_size.toNat
  | .clipboard count => count.toNat
  | _ => 0

/-- A blocking `read`: it takes what is there, up to `n`, and waits only while nothing is there. -/
def read (n : Nat) (socket : List UInt8) : Option (List UInt8 × List UInt8) :=
  if n ≠ 0 ∧ socket = [] then none else some (socket.take n, socket.drop n)

/-- Enter the case of the `switch` an event routes to. -/
def State.enter (s : State) : Route → State
  | .ignored => { s with pc := .more }
  | .now d => { s with pc := .more, dispatched := s.dispatched ++ [d] }
  | .name size => { s with pc := .name size }
  | .clipboard count => { s with pc := .clipboard count }

/-- The next system call of the input thread, and what the code does up to the one after it. -/
def serve (s : State) : Option State :=
  match s.pc with
  | .poll => if s.socket = [] then none else some { s with pc := .header }
  | .header =>
    match read sizeofLorieEvent s.socket with
    | none => none
    | some (got, socket) =>
      if h : got.length = sizeofLorieEvent then
        some ({ s with socket := socket }.enter (route ⟨got, h⟩))
      else some { s with socket := socket, pc := .poll }
  | .name size =>
    match read size.name_size.toNat s.socket with
    | none => none
    | some (got, socket) =>
      some ({ s with socket := socket }.enter
        (.now (.screenSize size (block size.name_size.toNat got))))
  | .clipboard count =>
    match read count.toNat s.socket with
    | none => none
    | some (got, socket) =>
      some ({ s with socket := socket }.enter (.now (.clipboardSend (block count.toNat got))))
  | .more => some { s with pc := if sizeofLorieEvent < s.socket.length then .header else .poll }

def step (s : State) : Action → Option State
  | .push k => some { s with unsent := s.unsent.drop k, socket := s.socket ++ s.unsent.take k }
  | .serve => serve s

/-- A connection on which the activity writes `bytes`. -/
def start (bytes : List UInt8) : State := ⟨bytes, [], .poll, []⟩

end InputThread

end WinEmulator.Lorie
