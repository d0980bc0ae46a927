import WinEmulator.Lib.Machine
import WinEmulator.Lib.Sessions
import WinEmulator.Lorie.Event
import Mathlib.Algebra.Order.Field.Rat

/-!
# Touch events

`handleTouchEvent` of `cmdentrypoint.c` over the touches of `dix/touch.c` and `GetTouchEvents` of
`dix/getevents.c`, for the one device it is used with, `lorieTouch`, which is on and of the mode
`XIDirectTouch`.

The axes are kept as fractions. What the queued events say beside their type, and the fields of a
touch that are only copied to them (`client_id`, `emulate_pointer`), are left out, and so are failed
allocations.
-/

set_option autoImplicit false

namespace WinEmulator.Lorie.TouchInput

open WinEmulator.Lib

def XI_TouchBegin : UInt16 := 18
def XI_TouchUpdate : UInt16 := 19
def XI_TouchEnd : UInt16 := 20

/-- A `double`; none is not a number, which equals nothing. -/
abbrev Valuator := Option ℚ

/-- The two axes of a mask. -/
abbrev Valuators := Valuator × Valuator

/-- `DDXTouchPointInfoRec`. -/
structure DDXTouchPointInfo where
  active : Bool
  ddx_id : UInt32
  /-- None as long as their bits are not set. -/
  valuators : Option Valuators
deriving DecidableEq

/-- `ET_TouchBegin`, `ET_TouchUpdate` and `ET_TouchEnd`. -/
inductive EventType
  | touchBegin
  | touchUpdate
  | touchEnd
deriving DecidableEq, Repr

/-- `device->last.touches`. -/
abbrev Touches := List DDXTouchPointInfo

/-! ## `dix/touch.c` -/

/-- After `TouchInitDDXTouchPoint`. -/
def blank : DDXTouchPointInfo := ⟨false, 0, none⟩

/-- The test of `TouchFindByDDXID`. -/
def DDXTouchPointInfo.isFor (id : UInt32) (ti : DDXTouchPointInfo) : Bool :=
  ti.active && ti.ddx_id == id

/-- Without `create`. -/
def TouchFindByDDXID (id : UInt32) (touches : Touches) : Option DDXTouchPointInfo :=
  touches.find? (·.isFor id)

/-- What is written through the pointer that `TouchFindByDDXID` returns. -/
def writeTouch (id : UInt32) (f : DDXTouchPointInfo → DDXTouchPointInfo) : Touches → Touches
  | [] => []
  | ti :: touches => if ti.isFor id then f ti :: touches else ti :: writeTouch id f touches

/-- The loop of `TouchBeginDDXTouch`: it takes the first record that is not active, or the first of
those that `TouchResizeQueue` adds to `num_touches` ones. -/
def takeRecord (num_touches : Nat) (id : UInt32) : Touches → Touches
  | [] => { blank with active := true, ddx_id := id } :: List.replicate (num_touches / 2) blank
  | ti :: touches =>
    if ti.active then ti :: takeRecord num_touches id touches
    else { ti with active := true, ddx_id := id } :: touches

/-- Once `TouchFindByDDXID` did not find the touch. -/
def TouchBeginDDXTouch (id : UInt32) (touches : Touches) : Touches :=
  takeRecord touches.length id touches

/-! ## `dix/getevents.c` -/

/-- `TouchFindByDDXID` with the `create` that `GetTouchEvents` gives it. -/
def findOrCreate (id : UInt32) (type : UInt16) (touches : Touches) : Option Touches :=
  if (TouchFindByDDXID id touches).isSome then some touches
  else if type = XI_TouchBegin then some (TouchBeginDDXTouch id touches)
  else none

/-- The touches after it and the event it generates. -/
def GetTouchEvents (id : UInt32) (type : UInt16) (mask : Valuators) (touches : Touches) :
    Touches × Option EventType :=
  match findOrCreate id type touches with
  | none => (touches, none)
  | some touches =>
    if type = XI_TouchBegin then
      (writeTouch id (fun ti => { ti with valuators := some mask }) touches, some .touchBegin)
    else if type = XI_TouchUpdate then
      (writeTouch id (fun ti => { ti with valuators := some mask }) touches, some .touchUpdate)
    else if type = XI_TouchEnd then
      (writeTouch id (fun ti => { ti with active := false, valuators := some mask }) touches,
        some .touchEnd)
    else (touches, none)

/-! ## `cmdentrypoint.c` -/

structure Server where
  /-- `pScreenPtr->width` and `pScreenPtr->height`. -/
  width : Int16
  height : Int16
  touches : Touches
  /-- The events that were queued, each with the id of its touch, the last event last. -/
  queue : List (UInt32 × EventType)
deriving DecidableEq

def Server.QueueTouchEvents (s : Server) (type : UInt16) (id : UInt32) (mask : Valuators) :
    Server :=
  let (touches, event) := GetTouchEvents id type mask s.touches
  { s with touches := touches, queue := s.queue ++ (event.map fun event => (id, event)).toList }

/-- `x`, and `y` with the height. -/
def clampTo (size : Int16) (coordinate : UInt16) : ℚ :=
  max (min (coordinate.toNat : ℚ) size.toInt) 0

/-- `x * 0xFFFF / (float) pScreenPtr->width`, where nothing divided by nothing is not a number. -/
def scale (size : Int16) (x : ℚ) : Valuator :=
  if size = 0 then none else some (x * 0xFFFF / size.toInt)

def handleTouchEvent (e : Touch) (s : Server) : Server :=
  let x := clampTo s.width e.x
  let y := clampTo s.height e.y
  let touch := TouchFindByDDXID e.id.toUInt32 s.touches
  let active := touch.any (·.active)
  if active ∧ e.type = XI_TouchUpdate ∧ touch.bind (·.valuators) = some (some x, some y) then s
  else
    let type := if e.type = XI_TouchUpdate ∧ ¬ active then XI_TouchBegin else e.type
    if type = XI_TouchEnd ∧ ¬ active then s
    else s.QueueTouchEvents type e.id.toUInt32 (scale s.width x, scale s.height y)

/-! ## Runs -/

inductive Action
  | touch (e : Touch)
  /-- `RRScreenSizeSet`. -/
  | resize (width height : Int16)
deriving DecidableEq

/-- After `lorieTouchProc`, which asks for 20 touches. -/
def start (width height : Int16) : Server := ⟨width, height, List.replicate 20 blank, []⟩

def step (s : Server) : Action → Option Server
  | .touch e => some (handleTouchEvent e s)
  | .resize width height => some { s with width := width, height := height }

end WinEmulator.Lorie.TouchInput
