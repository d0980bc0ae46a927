import WinEmulator.Lib.Machine
import Mathlib.Logic.Function.Basic

/-!
# `InputEventSender.java`: touches

`sendTouchEvent` turns the motion events of fingers into touch events of the X server, and
`pointers` says for ten touches whether they were in a motion. `handleTouchEvent` of
`cmdentrypoint.c` is the other side: a touch there is active or not, an update begins a touch that
is not, and an end ends one that is.

Coordinates are scaled and cut to whole pixels here; the server's check for an update to the same
place, which leaves the touch as it is, is left out.
-/

set_option autoImplicit false

namespace WinEmulator.X11.TouchSender

open WinEmulator.Lib

inductive MotionAction
  | down
  | pointerDown
  | move
  | pointerUp
  | up
  | cancel
  | hoverMove
  | hoverEnter
  | hoverExit
deriving DecidableEq

/-- The data of a pointer in an event. -/
structure Pointer where
  id : Nat
  x : Int
  y : Int
deriving DecidableEq

/-- An event has data of at least one pointer, and Android gives pointers ids below 32. -/
structure MotionEvent where
  action : MotionAction
  pointers : List Pointer
  actionIndex : Fin pointers.length
  id_lt : ∀ p ∈ pointers, p.id < 32
  nodup : (pointers.map Pointer.id).Nodup

/-- The pointer the action is about. -/
def MotionEvent.actionPointer (e : MotionEvent) : Pointer := e.pointers.get e.actionIndex

def MotionEvent.ids (e : MotionEvent) : List Nat := e.pointers.map Pointer.id

structure RenderData where
  screenWidth : Int
  screenHeight : Int
deriving DecidableEq

def clamp (value low high : Int) : Int :=
  if value < low then low else if value > high then high else value

inductive TouchType
  | begin
  | update
  | finish
deriving DecidableEq

/-- A touch event for the X server. -/
structure Touch where
  type : TouchType
  id : Nat
  x : Int
  y : Int
deriving DecidableEq

def Touch.at (type : TouchType) (p : Pointer) (r : RenderData) : Touch :=
  ⟨type, p.id, clamp p.x 0 r.screenWidth, clamp p.y 0 r.screenHeight⟩

/-- `boolean[10]`. -/
abbrev Pointers := Fin 10 → Bool

/-- `pointers[id] = value`; `none` is the `ArrayIndexOutOfBoundsException`. -/
def Pointers.set (pointers : Pointers) (id : Nat) (value : Bool) : Option Pointers :=
  if h : id < 10 then some (Function.update pointers ⟨id, h⟩ value) else none

/-- A loop that stores one value for the pointers of an event. -/
def Pointers.setAll (value : Bool) : List Nat → Pointers → Option Pointers
  | [], pointers => some pointers
  | id :: ids, pointers => (pointers.set id value).bind (Pointers.setAll value ids)

/-- The events that tell where all pointers are. -/
def MotionAction.isMotion : MotionAction → Bool
  | .move | .hoverMove | .hoverEnter | .hoverExit => true
  | .down | .pointerDown | .pointerUp | .up | .cancel => false

/-- `sendTouchEvent`: the array after it and what it sent, or `none` if it throws. -/
def sendTouchEvent (e : MotionEvent) (r : RenderData) (pointers : Pointers) :
    Option (Pointers × List Touch) :=
  if e.action.isMotion then
    (Pointers.setAll false e.ids pointers).bind fun cleared =>
      (Pointers.setAll true e.ids cleared).map fun moved =>
        (moved, e.pointers.map (Touch.at .update · r) ++
          ((List.finRange 10).filter fun p => !moved p).map fun p => Touch.mk .finish p.val 0 0)
  else if e.action = .down ∨ e.action = .pointerDown then
    some (pointers, [.at .begin e.actionPointer r])
  else some (pointers, [.at .update e.actionPointer r, .at .finish e.actionPointer r])

/-! ## `cmdentrypoint.c` -/

/-- The touches of the X server that are active. -/
abbrev Active := Nat → Bool

def handleTouchEvent (active : Active) (touch : Touch) : Active :=
  match touch.type with
  | .begin | .update => Function.update active touch.id true
  | .finish => Function.update active touch.id false

/-! ## Runs -/

structure State where
  pointers : Pointers
  active : Active
  /-- The touches that were begun or moved since the last `ACTION_DOWN`. -/
  gesture : List Nat
  /-- The touches that were in a motion at any time. -/
  moved : List Nat

def start : State := ⟨fun _ => false, fun _ => false, [], []⟩

/-- The touches an event is sent for. -/
def MotionEvent.sentIds (e : MotionEvent) : List Nat :=
  if e.action.isMotion then e.ids else [e.actionPointer.id]

/-- `none` where the sender throws. -/
def step (r : RenderData) (s : State) (e : MotionEvent) : Option State :=
  (sendTouchEvent e r s.pointers).map fun (pointers, touches) =>
    { pointers := pointers
      active := touches.foldl handleTouchEvent s.active
      gesture := e.sentIds ++ if e.action = .down then [] else s.gesture
      moved := if e.action.isMotion then e.ids ++ s.moved else s.moved }

end WinEmulator.X11.TouchSender
