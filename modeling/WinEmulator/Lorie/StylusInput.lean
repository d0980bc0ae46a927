import WinEmulator.Lib.Machine
import WinEmulator.Lorie.Event

/-!
# Stylus events

`handleLorieEvents` of `cmdentrypoint.c` queues the buttons of a stylus event for the mouse, the pen
or the eraser; `lorieSetStylusEnabled` of `InitInput.c` adds and removes the last two. What was
queued is kept, the last event first. The coordinates and the other axes of a motion event are left
out.
-/

set_option autoImplicit false

namespace WinEmulator.Lorie.StylusInput

open WinEmulator.Lib

/-- Devices are told apart by when they were added, so one that is removed does not come back. -/
abbrev DeviceIntPtr := Nat

def lorieMouse : DeviceIntPtr := 0

inductive PointerEvent
  | motionNotify
  | buttonPress (button : Nat)
  | buttonRelease (button : Nat)
deriving DecidableEq, Repr

abbrev Queue := List (DeviceIntPtr × PointerEvent)

structure Server where
  /-- The static word of the handler. -/
  buttons_prev : UInt32
  loriePen : Option DeviceIntPtr
  lorieEraser : Option DeviceIntPtr
  /-- How many devices were added so far. -/
  added : Nat
  queue : Queue
deriving DecidableEq

/-- After `InitInput`, which adds the mouse, the touch screen and the keyboard. -/
def initInput : Server := ⟨0, none, none, 3, []⟩

/-- The devices a stylus event can be for, as far as they exist. -/
def Server.devices (s : Server) : List DeviceIntPtr :=
  lorieMouse :: (s.loriePen.toList ++ s.lorieEraser.toList)

/-! ## `InitInput.c` -/

def lorieSetStylusEnabled (enabled : Bool) (s : Server) : Server :=
  if enabled then
    let s := if s.loriePen.isNone then { s with loriePen := some s.added, added := s.added + 1 }
      else s
    if s.lorieEraser.isNone then { s with lorieEraser := some s.added, added := s.added + 1 } else s
  else { s with loriePen := none, lorieEraser := none }

/-! ## `cmdentrypoint.c` -/

/-- `device`. -/
def Server.device (s : Server) (e : Stylus) : Option DeviceIntPtr :=
  if e.mouse ≠ 0 then some lorieMouse else if e.eraser ≠ 0 then s.lorieEraser else s.loriePen

/-- What the loop over the buttons goes through with: the two words, shifted so far, and the
queue. -/
structure Loop where
  released : UInt32
  pressed : UInt32
  queue : Queue

/-- The body of the loop. -/
def Loop.next (device : DeviceIntPtr) (l : Loop) (i : Nat) : Loop :=
  let queue :=
    if l.released &&& 0x1 ≠ 0 then (device, .buttonRelease (i + 1)) :: l.queue else l.queue
  let queue := if l.pressed &&& 0x1 ≠ 0 then (device, .buttonPress (i + 1)) :: queue else queue
  ⟨l.released >>> 1, l.pressed >>> 1, queue⟩

/-- The case `EVENT_STYLUS`. -/
def handleStylus (e : Stylus) (s : Server) : Server :=
  match s.device e with
  | none => s
  | some device =>
    let buttons := e.buttons.toUInt32
    let diff := s.buttons_prev ^^^ buttons
    let released := diff &&& ~~~buttons
    let pressed := diff &&& buttons
    let loop := (List.range 3).foldl (Loop.next device)
      ⟨released, pressed, (device, .motionNotify) :: s.queue⟩
    { s with buttons_prev := buttons, queue := loop.queue }

/-! ## Runs -/

inductive Action
  | stylus (e : Stylus)
  | stylusEnable (enable : UInt8)

structure State where
  server : Server
  /-- The device of the last stylus event that had one. -/
  last : Option DeviceIntPtr

def start : State := ⟨initInput, none⟩

def step (s : State) : Action → Option State
  | .stylus e => some ⟨handleStylus e s.server, (s.server.device e).or s.last⟩
  | .stylusEnable enable => some { s with server := lorieSetStylusEnabled (enable != 0) s.server }

end WinEmulator.Lorie.StylusInput
