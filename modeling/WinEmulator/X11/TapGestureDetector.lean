import WinEmulator.Lib.Machine
import WinEmulator.X11.TouchInputHandler
import Mathlib.Data.Int.Cast.Defs
import Mathlib.Logic.Function.Basic

/-!
# `TapGestureDetector.java`

The detector that `TouchInputHandler` gives its events to. It notifies a listener of a tap when the
last finger goes up, or of a long press when a delayed message arrives before that. The message is
in the queue of the handler or not, and arrives at any time while it is.

Coordinates are of any type with the operations of `float` that the code uses, so nothing depends on
rounding. The context and its view configuration are the slop they give.
-/

set_option autoImplicit false

namespace WinEmulator.X11.TapGestures

open WinEmulator.Lib
open WinEmulator.X11.TouchInputHandler (MotionAction)

variable {F : Type}

structure PointF (F : Type) where
  x : F
  y : F
deriving DecidableEq

structure Pointer (F : Type) where
  id : Nat
  position : PointF F
deriving DecidableEq

/-- An event has data of at least one pointer. -/
structure MotionEvent (F : Type) where
  action : MotionAction
  pointers : List (Pointer F)
  actionIndex : Fin pointers.length

/-- `SparseArray<PointF>`. -/
abbrev Positions (F : Type) := Nat → Option (PointF F)

structure TapGestureDetector (F : Type) where
  /-- The message of the handler is in its queue. -/
  pending : Bool
  mInitialPositions : Positions F
  mTouchSlopSquare : Int32
  mPointerCount : Nat
  mInitialPoint : Option (PointF F)
  mTapCancelled : Bool

/-- What a listener is notified of, or that coordinates were read from no point. -/
inductive Notice (F : Type)
  | onTap (pointerCount : Nat) (x y : F)
  | onLongPress (pointerCount : Nat) (x y : F)
  | nullPointerException
deriving DecidableEq

namespace TapGestureDetector

/-- The constructor. -/
def new (touchSlop : Int32) : TapGestureDetector F :=
  { pending := false
    mInitialPositions := fun _ => none
    mTouchSlopSquare := touchSlop * touchSlop
    mPointerCount := 0
    mInitialPoint := none
    mTapCancelled := false }

def cancelLongTouchNotification (d : TapGestureDetector F) : TapGestureDetector F :=
  { d with pending := false }

def reset (d : TapGestureDetector F) : TapGestureDetector F :=
  { d.cancelLongTouchNotification with
    mPointerCount := 0, mInitialPositions := fun _ => none, mTapCancelled := false }

end TapGestureDetector

/-- The pointer that `trackDownEvent` and `trackUpEvent` are about: at the action index if the
action is the one given, and else the first. -/
def MotionEvent.tracked (e : MotionEvent F) (action : MotionAction) : Pointer F :=
  if e.action = action then e.pointers.get e.actionIndex
  else e.pointers.get ⟨0, Fin.pos e.actionIndex⟩

namespace TapGestureDetector

def trackDownEvent (d : TapGestureDetector F) (e : MotionEvent F) : TapGestureDetector F :=
  let pointer := e.tracked .pointerDown
  { d with
    mInitialPositions := Function.update d.mInitialPositions pointer.id (some pointer.position)
    mInitialPoint := if d.mInitialPoint = none then some pointer.position else d.mInitialPoint }

def trackUpEvent (d : TapGestureDetector F) (e : MotionEvent F) : TapGestureDetector F :=
  { d with mInitialPositions := Function.update d.mInitialPositions (e.tracked .pointerUp).id none }

variable [Add F] [Sub F] [Mul F] [LT F] [DecidableLT F] [IntCast F]

/-- The test of `trackMoveEvent` for a finger and where it came down. -/
def beyondSlop (mTouchSlopSquare : Int32) (current downPoint : PointF F) : Bool :=
  let deltaX := current.x - downPoint.x
  let deltaY := current.y - downPoint.y
  deltaX * deltaX + deltaY * deltaY > (mTouchSlopSquare.toInt : F)

/-- The loop of `trackMoveEvent`: whether motion was detected, and the positions after it. -/
def trackMove (mTouchSlopSquare : Int32) : List (Pointer F) → Positions F → Bool × Positions F
  | [], positions => (false, positions)
  | pointer :: pointers, positions =>
    match positions pointer.id with
    | none =>
      trackMove mTouchSlopSquare pointers
        (Function.update positions pointer.id (some pointer.position))
    | some downPoint =>
      if beyondSlop mTouchSlopSquare pointer.position downPoint then (true, positions)
      else trackMove mTouchSlopSquare pointers positions

def trackMoveEvent (d : TapGestureDetector F) (e : MotionEvent F) : Bool × TapGestureDetector F :=
  let (moved, positions) := trackMove d.mTouchSlopSquare e.pointers d.mInitialPositions
  (moved, { d with mInitialPositions := positions })

/-- `handleMessage` of the handler, after the message left the queue. -/
def handleMessage (d : TapGestureDetector F) : TapGestureDetector F × Notice F :=
  match d.mInitialPoint with
  | none => ({ d with mTapCancelled := true }, .nullPointerException)
  | some point =>
    ({ d with mTapCancelled := true, mInitialPoint := none },
      .onLongPress d.mPointerCount point.x point.y)

def onTouchEvent (d : TapGestureDetector F) (e : MotionEvent F) :
    TapGestureDetector F × Option (Notice F) :=
  match e.action with
  | .down => ({ d.reset.trackDownEvent e with pending := true, mPointerCount := 1 }, none)
  | .pointerDown =>
    ({ d.trackDownEvent e with mPointerCount := max d.mPointerCount e.pointers.length }, none)
  | .move =>
    if d.mTapCancelled then (d, none)
    else
      match d.trackMoveEvent e with
      | (true, d) => ({ d.cancelLongTouchNotification with mTapCancelled := true }, none)
      | (false, d) => (d, none)
  | .up =>
    let d := d.cancelLongTouchNotification
    if d.mTapCancelled then ({ d with mInitialPoint := none }, none)
    else
      match d.mInitialPoint with
      | none => (d, some .nullPointerException)
      | some point =>
        ({ d with mInitialPoint := none }, some (.onTap d.mPointerCount point.x point.y))
  | .pointerUp => (d.cancelLongTouchNotification.trackUpEvent e, none)
  | .cancel => (d.cancelLongTouchNotification, none)
  | _ => (d, none)

end TapGestureDetector

/-! ## Gestures

What a gesture comes to is kept beside the detector: by its events, not by what the detector makes
of them. -/

structure Gesture (F : Type) where
  /-- Where its first finger came down. -/
  first : PointF F
  /-- `mInitialPoint` of the detector when it began. -/
  found : Option (PointF F)
  /-- Where each of its fingers came down that is not up again. -/
  downs : Positions F
  /-- A move had a finger beyond the slop. -/
  slopExceeded : Bool
  /-- How often the listener was called since it began. -/
  notices : Nat

/-- A notice, with the gesture in progress if there was one. -/
structure Report (F : Type) where
  gesture : Option (Gesture F)
  notice : Notice F

structure State (F : Type) where
  detector : TapGestureDetector F
  /-- The gesture in progress. -/
  gesture : Option (Gesture F)
  reports : List (Report F)

def start (touchSlop : Int32) : State F := ⟨.new touchSlop, none, []⟩

inductive Input (F : Type)
  | touch (e : MotionEvent F)
  /-- The message arrives. -/
  | timeout

/-- The actions that gestures consist of. -/
def ofGesture : MotionAction → Bool
  | .down | .up | .move | .cancel | .pointerDown | .pointerUp => true
  | _ => false

def endsGesture : MotionAction → Bool
  | .up | .cancel => true
  | _ => false

def Gesture.begin (d : TapGestureDetector F) (e : MotionEvent F) : Gesture F :=
  let pointer := e.tracked .pointerDown
  { first := pointer.position
    found := d.mInitialPoint
    downs := Function.update (fun _ => none) pointer.id (some pointer.position)
    slopExceeded := false
    notices := 0 }

variable [Add F] [Sub F] [Mul F] [LT F] [DecidableLT F] [IntCast F]

/-- A finger of the event is beyond the slop of where it came down. -/
def Gesture.exceeds (g : Gesture F) (mTouchSlopSquare : Int32) (e : MotionEvent F) : Bool :=
  e.pointers.any fun pointer =>
    (g.downs pointer.id).any fun downPoint =>
      TapGestureDetector.beyondSlop mTouchSlopSquare pointer.position downPoint

def Gesture.after (g : Gesture F) (mTouchSlopSquare : Int32) (e : MotionEvent F) : Gesture F :=
  match e.action with
  | .pointerDown =>
    let pointer := e.tracked .pointerDown
    { g with downs := Function.update g.downs pointer.id (some pointer.position) }
  | .pointerUp => { g with downs := Function.update g.downs (e.tracked .pointerUp).id none }
  | .move => { g with slopExceeded := g.slopExceeded || g.exceeds mTouchSlopSquare e }
  | _ => g

/-- The gesture that an event is of. There is none for `ACTION_DOWN` in a gesture, and for other
actions outside one. -/
def State.gestureOf (s : State F) (e : MotionEvent F) : Option (Gesture F) :=
  match e.action, s.gesture with
  | .down, none => some (.begin s.detector e)
  | .down, some _ => none
  | _, gesture => gesture.map (·.after s.detector.mTouchSlopSquare e)

def Gesture.notified (g : Gesture F) (notice : Option (Notice F)) : Gesture F :=
  { g with notices := g.notices + notice.toList.length }

/-- `none` where the events are not those of a sequence of gestures, and where the message is not in
the queue. -/
def step (s : State F) : Input F → Option (State F)
  | .touch e =>
    let (detector, notice) := s.detector.onTouchEvent e
    if ofGesture e.action then
      (s.gestureOf e).map fun g =>
        { detector := detector
          gesture := if endsGesture e.action then none else some (g.notified notice)
          reports := s.reports ++ notice.toList.map (Report.mk (some g)) }
    else some { s with detector := detector }
  | .timeout =>
    if s.detector.pending then
      let (detector, notice) := { s.detector with pending := false }.handleMessage
      some
        { detector := detector
          gesture := s.gesture.map (·.notified (some notice))
          reports := s.reports ++ [⟨s.gesture, notice⟩] }
    else none

end WinEmulator.X11.TapGestures
