import WinEmulator.Lib.Machine
import Mathlib.Logic.Function.Basic

/-!
# `TouchInputHandler.java` and `InputStrategyInterface.java`: mouse buttons

Fingers on the screen, on a captured touchpad and on the touchpad of DeX press mouse buttons. There
are two handlers: the main one takes the screen, and its `mTouchpadHandler` the touchpads. Each has
a strategy that turns taps and long presses into clicks and held buttons, and the `DexListener` of
the touchpad handler makes a mouse of the touchpad of DeX.

What is sent is a log of mouse events, each with its sender. Cursor moves, the wheel and coordinates
are left out, and so are events of styluses and of mice, which have listeners of their own: an event
here is of a finger. The gesture detectors may notify at any time. `handleTouchEvent` is therefore
taken in two steps, with what the detectors make of the event between them.
-/

set_option autoImplicit false

namespace WinEmulator.X11.TouchInputHandler

open WinEmulator.Lib

/-! ## Events of Android -/

inductive MotionAction
  | down
  | up
  | move
  | cancel
  | outside
  | pointerDown
  | pointerUp
  | hoverMove
  | scroll
  | hoverEnter
  | hoverExit
  | buttonPress
  | buttonRelease
deriving DecidableEq

def SOURCE_TOUCHSCREEN : UInt32 := 0x1002

def SOURCE_MOUSE : UInt32 := 0x2002

def SOURCE_MOUSE_RELATIVE : UInt32 := 0x20004

def SOURCE_TOUCHPAD : UInt32 := 0x100008

def BUTTON_PRIMARY : UInt32 := 1

def BUTTON_SECONDARY : UInt32 := 2

def BUTTON_TERTIARY : UInt32 := 4

structure MotionEvent where
  action : MotionAction
  source : UInt32
  flags : UInt32
  buttonState : UInt32
  /-- The classification is `CLASSIFICATION_TWO_FINGER_SWIPE`, on an Android that has it. -/
  twoFingerSwipe : Bool
deriving DecidableEq

namespace MotionEvent

def hasSource (e : MotionEvent) (source : UInt32) : Bool := e.source &&& source == source

def hasFlags (e : MotionEvent) (flags : UInt32) : Bool := e.flags &&& flags == flags

def isDexEvent (e : MotionEvent) : Bool :=
  e.hasSource (SOURCE_MOUSE ||| SOURCE_TOUCHSCREEN) && !e.hasSource SOURCE_TOUCHPAD

/-- Events that `HardwareMouseListener` takes. -/
def isMouseEvent (e : MotionEvent) : Bool :=
  !e.isDexEvent && e.hasSource SOURCE_MOUSE || e.hasSource SOURCE_MOUSE_RELATIVE

def isScrollingEvent (e : MotionEvent) : Bool := e.hasFlags 0x14000000 || e.twoFingerSwipe

end MotionEvent

/-! ## What is sent -/

inductive Button
  | left
  | middle
  | right
deriving DecidableEq

/-- The main handler and its `mTouchpadHandler`. -/
inductive Which
  | main
  | touchpad
deriving DecidableEq

inductive Sender
  | strategy (which : Which)
  | dexListener
  | touchpadButtons
deriving DecidableEq

structure MouseEvent where
  sender : Sender
  button : Button
  down : Bool
deriving DecidableEq

def sendMouseClick (sender : Sender) (button : Button) : List MouseEvent :=
  [⟨sender, button, true⟩, ⟨sender, button, false⟩]

/-- `buttons`. -/
def buttons : List (UInt32 × Button) :=
  [(BUTTON_PRIMARY, .left), (BUTTON_TERTIARY, .middle), (BUTTON_SECONDARY, .right)]

def isMouseButtonChanged (savedBS currentBS mask : UInt32) : Bool :=
  savedBS &&& mask != currentBS &&& mask

def mouseButtonDown (currentBS mask : UInt32) : Bool := currentBS &&& mask != 0

/-- The loop over `buttons`, in `checkButtons` and in `handleTouchEvent`. -/
def checkButtons (sender : Sender) (savedBS currentBS : UInt32) : List MouseEvent :=
  (buttons.filter fun (mask, _) => isMouseButtonChanged savedBS currentBS mask).map
      fun (mask, button) =>
    ⟨sender, button, mouseButtonDown currentBS mask⟩

/-! ## Strategies -/

inductive InputStrategy
  | null
  | trackpad (mHeldButton : Option Button)
  | simulatedTouch (mHeldButton : Option Button)
deriving DecidableEq

namespace InputStrategy

def isTrackpad : InputStrategy → Bool
  | .trackpad _ => true
  | .null | .simulatedTouch _ => false

def onTap (sender : Sender) : InputStrategy → Button → List MouseEvent
  | .null, _ => []
  | .trackpad _, button => sendMouseClick sender button
  | .simulatedTouch _, button => sendMouseClick sender button

def onPressAndHold (sender : Sender) (tapToMove : Bool) :
    InputStrategy → Button → Bool → InputStrategy × List MouseEvent
  | .null, _, _ => (.null, [])
  | .trackpad held, button, force =>
    if tapToMove && !force then (.trackpad held, [])
    else (.trackpad button, [⟨sender, button, true⟩])
  | .simulatedTouch _, button, _ => (.simulatedTouch button, [⟨sender, button, true⟩])

def onMotionEvent (sender : Sender) (e : MotionEvent) :
    InputStrategy → InputStrategy × List MouseEvent
  | .trackpad (some button) =>
    if e.action = .up then (.trackpad none, [⟨sender, button, false⟩])
    else (.trackpad (some button), [])
  | .simulatedTouch (some button) =>
    if e.action = .up then (.simulatedTouch none, [⟨sender, button, false⟩])
    else (.simulatedTouch (some button), [])
  | strategy => (strategy, [])

end InputStrategy

/-! ## Handlers -/

structure Handler where
  mInputStrategy : InputStrategy
  savedBS : UInt32
  /-- The messages of `mGestureListenerHandler` that wait for the end of a double tap. -/
  delayedTaps : Nat
deriving DecidableEq

/-- What the detectors notify `GestureListener` of. Whether the point lies outside the image is
decided by its coordinates. -/
inductive Notification
  | tap (pointerCount : Nat) (outsideImage : Bool)
  | longPress (pointerCount : Nat) (outsideImage : Bool)
  | doubleTapEvent (action : MotionAction) (pointerCount : Nat)
deriving DecidableEq

def mouseButtonFromPointerCount : Nat → Option Button
  | 1 => some .left
  | 2 => some .right
  | 3 => some .middle
  | _ => none

namespace Handler

def onTap (sender : Sender) (tapToMove : Bool) (pointerCount : Nat) (outsideImage : Bool)
    (h : Handler) :
    Handler × List MouseEvent :=
  match mouseButtonFromPointerCount pointerCount with
  | none => (h, [])
  | some button =>
    if !h.mInputStrategy.isTrackpad && outsideImage then (h, [])
    else if button ≠ .left ∨ ¬ (tapToMove && h.mInputStrategy.isTrackpad) then
      (h, h.mInputStrategy.onTap sender button)
    else ({ h with delayedTaps := h.delayedTaps + 1 }, [])

def pressAndHold (sender : Sender) (tapToMove : Bool) (button : Button) (force : Bool)
    (h : Handler) :
    Handler × List MouseEvent :=
  let held := h.mInputStrategy.onPressAndHold sender tapToMove button force
  ({ h with mInputStrategy := held.1 }, held.2)

def onLongPress (sender : Sender) (tapToMove : Bool) (pointerCount : Nat) (outsideImage : Bool)
    (h : Handler) :
    Handler × List MouseEvent :=
  match mouseButtonFromPointerCount pointerCount with
  | none => (h, [])
  | some button =>
    if !h.mInputStrategy.isTrackpad && outsideImage then (h, [])
    else h.pressAndHold sender tapToMove button false

def onDoubleTapEvent (sender : Sender) (tapToMove : Bool) (action : MotionAction)
    (pointerCount : Nat) (h : Handler) :
    Handler × List MouseEvent :=
  if pointerCount = 1 ∧ action = .down ∧ (tapToMove && h.mInputStrategy.isTrackpad) = true then
    { h with delayedTaps := 0 }.pressAndHold sender tapToMove .left true
  else (h, [])

def notify (sender : Sender) (tapToMove : Bool) (h : Handler) :
    Notification → Handler × List MouseEvent
  | .tap pointerCount outsideImage => h.onTap sender tapToMove pointerCount outsideImage
  | .longPress pointerCount outsideImage => h.onLongPress sender tapToMove pointerCount outsideImage
  | .doubleTapEvent action pointerCount => h.onDoubleTapEvent sender tapToMove action pointerCount

end Handler

inductive InputMode
  | trackpad
  | simulatedTouch
  | touch
deriving DecidableEq

/-- `setInputMode`: the touchpad handler has the trackpad strategy in every mode. -/
def setInputMode (mode : InputMode) : Which → InputStrategy
  | .touchpad => .trackpad none
  | .main =>
    match mode with
    | .touch => .null
    | .simulatedTouch => .simulatedTouch none
    | .trackpad => .trackpad none

/-! ## `DexListener` -/

structure DexListener where
  savedBS : UInt32
  onTap : Bool
  mIsDragging : Bool
  mIsScrolling : Bool
  /-- How often `mouseDownRunnable` is posted. -/
  posted : Nat
deriving DecidableEq

namespace DexListener

/-- `onTouch`: `none` where it returns false, which changes nothing. -/
def onTouch (e : MotionEvent) (d : DexListener) : Option (DexListener × List MouseEvent) :=
  let sent := checkButtons .dexListener d.savedBS e.buttonState
  let isButtonHandled := !sent.isEmpty
  let checked := { d with savedBS := e.buttonState }
  match e.action with
  | .buttonPress => some ({ checked with posted := 0, onTap := true, mIsDragging := false }, sent)
  | .buttonRelease =>
    some ({ checked with posted := 0, onTap := false, mIsDragging := false }, sent)
  | .down =>
    some <|
      if e.isScrollingEvent then ({ checked with mIsScrolling := true }, sent)
      else if e.hasFlags 0x4000000 then
        ({ checked with mIsDragging := true, posted := d.posted + 1 }, sent)
      else if !isButtonHandled then
        ({ checked with onTap := true }, sent ++ [⟨.dexListener, .left, true⟩])
      else (checked, sent)
  | .up =>
    some <|
      if e.isScrollingEvent then ({ checked with mIsScrolling := false }, sent)
      else if e.hasFlags 0x4000000 then
        ({ checked with mIsDragging := false }, sent ++ [⟨.dexListener, .left, false⟩])
      else if !isButtonHandled && d.onTap then
        ({ checked with onTap := false }, sent ++ [⟨.dexListener, .left, false⟩])
      else (checked, sent)
  | .hoverMove | .move => some (d, [])
  | .hoverExit | .cancel =>
    some ({ d with onTap := false, mIsScrolling := false, mIsDragging := false }, [])
  | .outside | .pointerDown | .pointerUp | .scroll | .hoverEnter => none

end DexListener

/-! ## Runs -/

/-- Where a finger is. -/
inductive Device
  | touchscreen
  | touchpad
  | dex
deriving DecidableEq

def MotionEvent.device (e : MotionEvent) : Device :=
  if e.isDexEvent then .dex else if e.hasSource SOURCE_TOUCHPAD then .touchpad else .touchscreen

/-- The handler that takes the events of a device. -/
def Device.which : Device → Which
  | .touchscreen => .main
  | .touchpad | .dex => .touchpad

structure State where
  handlers : Which → Handler
  dexListener : DexListener
  tapToMove : Bool
  /-- All mouse events, the last one first. -/
  log : List MouseEvent
  /-- The devices with a pointer that is down. -/
  down : Device → Bool

def start : State :=
  ⟨fun _ => ⟨.trackpad none, 0, 0⟩, ⟨0, false, false, false, 0⟩, false, [], fun _ => false⟩

namespace State

def setHandler (s : State) (which : Which) (next : Handler × List MouseEvent) : State :=
  { s with handlers := Function.update s.handlers which next.1, log := next.2.reverse ++ s.log }

def setDex (s : State) (next : DexListener × List MouseEvent) : State :=
  { s with dexListener := next.1, log := next.2.reverse ++ s.log }

def setDown (s : State) (e : MotionEvent) : State :=
  match e.action with
  | .down => { s with down := Function.update s.down e.device true }
  | .up | .cancel => { s with down := Function.update s.down e.device false }
  | _ => s

/-- `handleTouchEvent`, to the gesture detectors. -/
def handleTouchEvent (s : State) (e : MotionEvent) : State :=
  if e.isMouseEvent then s
  else
    match if e.isDexEvent then s.dexListener.onTouch e else none with
    | some next => (s.setDown e).setDex next
    | none =>
      let which := e.device.which
      let handler := s.handlers which
      let next := handler.mInputStrategy.onMotionEvent (.strategy which) e
      (s.setDown e).setHandler which ({ handler with mInputStrategy := next.1 }, next.2)

/-- `handleTouchEvent`, from the gesture detectors: the buttons of a captured touchpad. -/
def handleTouchpadButtons (s : State) (e : MotionEvent) : State :=
  if !e.isMouseEvent && e.hasSource SOURCE_TOUCHPAD then
    let handler := s.handlers .touchpad
    s.setHandler .touchpad
      ({ handler with savedBS := e.buttonState },
        checkButtons .touchpadButtons handler.savedBS e.buttonState)
  else s

def reloadPreferences (s : State) (mode : InputMode) (tapToMove : Bool) : State :=
  { s with
    handlers := fun which => { s.handlers which with mInputStrategy := setInputMode mode which }
    tapToMove := tapToMove }

end State

inductive Input
  | touch (e : MotionEvent)
  | touchpadButtons (e : MotionEvent)
  /-- The detectors of a handler notify its `GestureListener`. -/
  | notify (which : Which) (n : Notification)
  /-- `mGestureListenerHandler` gets a message. -/
  | delayedTap (which : Which)
  /-- `onSingleTapConfirmed` of `DexListener`, and twice for its `onDoubleTapEvent`. -/
  | dexTap
  | mouseDownRunnable
  | reloadPreferences (mode : InputMode) (tapToMove : Bool)
deriving DecidableEq

/-- `none` where a callback is not posted. -/
def step (s : State) : Input → Option State
  | .touch e => some (s.handleTouchEvent e)
  | .touchpadButtons e => some (s.handleTouchpadButtons e)
  | .notify which n =>
    some (s.setHandler which ((s.handlers which).notify (.strategy which) s.tapToMove n))
  | .delayedTap which =>
    let handler := s.handlers which
    if 0 < handler.delayedTaps then
      some (s.setHandler which
        ({ handler with delayedTaps := handler.delayedTaps - 1 },
          handler.mInputStrategy.onTap (.strategy which) .left))
    else none
  | .dexTap => some (s.setDex (s.dexListener, sendMouseClick .dexListener .left))
  | .mouseDownRunnable =>
    if 0 < s.dexListener.posted then
      some (s.setDex
        ({ s.dexListener with posted := s.dexListener.posted - 1 }, [⟨.dexListener, .left, true⟩]))
    else none
  | .reloadPreferences mode tapToMove => some (s.reloadPreferences mode tapToMove)

/-- Whether a sender has pressed a button that nobody has released since. -/
def held (sender : Sender) (button : Button) : List MouseEvent → Bool
  | [] => false
  | e :: log =>
    if e.button = button then e.down && (e.sender = sender || held sender button log)
    else held sender button log

end WinEmulator.X11.TouchInputHandler
