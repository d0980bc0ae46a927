import WinEmulator.Lib.Machine

/-!
# `KeyInterceptor.java`

The accessibility service that gets keys before other applications do. It is enabled while the
activity has the window focus or a key that it took is down, and disabled by a callback that is
delayed. `recheck` runs after each change of the focus and after each key.

A delayed callback runs at any time after it was posted. Whether the service is enabled is
`enabled`; its service information is set together with it and left out.
-/

set_option autoImplicit false

namespace WinEmulator.X11.KeyInterception

open WinEmulator.Lib

inductive KeyAction
  | down
  | up
  | multiple
deriving DecidableEq

structure KeyEvent where
  action : KeyAction
  keyCode : Int
deriving DecidableEq

/-- `MainActivity`, as far as it decides about keys. -/
structure MainActivity where
  hasWindowFocus : Bool
  /-- `isFocused` of the text input of the toolbar, if there is one. -/
  textInput : Option Bool
  /-- `shouldInterceptKeys` of the input handler, if there is one. -/
  mInputHandler : Option Bool
deriving DecidableEq

def MainActivity.shouldInterceptKeys (a : MainActivity) : Bool :=
  if a.mInputHandler = none || !a.hasWindowFocus || a.textInput = some true then false
  else a.mInputHandler = some true

structure KeyInterceptor where
  /-- `LinkedHashSet<Integer>`. -/
  pressedKeys : List Int
  enabled : Bool
deriving DecidableEq

/-- `add` of a `LinkedHashSet`. -/
def add (keys : List Int) (keyCode : Int) : List Int :=
  if keyCode ∈ keys then keys else keys ++ [keyCode]

/-- `remove` of a `LinkedHashSet`. -/
def remove (keys : List Int) (keyCode : Int) : List Int := keys.filter (· ≠ keyCode)

/-- The statics of both classes, and how often `disableImmediatelyCallback` is in the queue of the
handler. -/
structure State where
  self : Option KeyInterceptor
  activity : Option MainActivity
  callbacks : Nat
deriving DecidableEq

def disableImmediately (s : State) : State :=
  match s.self with
  | none => s
  | some self => { s with self := some { self with enabled := false } }

def recheck (s : State) : State :=
  match s.self with
  | none => s
  | some self =>
    let shouldBeEnabled := s.activity.any fun a => a.hasWindowFocus || !self.pressedKeys.isEmpty
    if shouldBeEnabled ≠ self.enabled then
      if shouldBeEnabled then { s with self := some { self with enabled := true }, callbacks := 0 }
      else { s with callbacks := s.callbacks + 1 }
    else s

/-- What `onKeyEvent` makes of the keys, with `shouldInterceptKeys` of the activity. -/
def pressedAfter (pressedKeys : List Int) (intercept : Bool) (event : KeyEvent) : List Int :=
  if intercept && event.action = .down then add pressedKeys event.keyCode
  else if event.action = .up then remove pressedKeys event.keyCode
  else pressedKeys

/-- `onKeyEvent` of the service: the state after it and whether it took the key. What the activity
makes of the key is `handleKey`. -/
def onKeyEvent (handleKey : KeyEvent → Bool) (s : State) (event : KeyEvent) : State × Bool :=
  match s.activity, s.self with
  | some activity, some self =>
    let intercept := activity.shouldInterceptKeys
    let ret := (intercept || (event.action = .up && event.keyCode ∈ self.pressedKeys)) &&
      handleKey event
    (recheck { s with
      self := some { self with pressedKeys := pressedAfter self.pressedKeys intercept event } },
      ret)
  | _, _ => (s, false)

inductive Input
  /-- The focus changes, and `onWindowFocusChanged` rechecks. -/
  | focus (hasFocus : Bool)
  /-- A key, with what the activity's views are like and what it makes of the key. -/
  | key (event : KeyEvent) (textInput mInputHandler : Option Bool) (handled : Bool)
  /-- A callback runs. -/
  | callback
deriving DecidableEq

/-- `none` where no callback is in the queue. -/
def step (s : State) : Input → Option State
  | .focus hasFocus =>
    some (recheck { s with activity := s.activity.map ({ · with hasWindowFocus := hasFocus }) })
  | .key event textInput mInputHandler handled =>
    let s := { s with
      activity :=
        s.activity.map ({ · with textInput := textInput, mInputHandler := mInputHandler }) }
    some (onKeyEvent (fun _ => handled) s event).1
  | .callback =>
    match s.callbacks with
    | 0 => none
    | callbacks + 1 => some (disableImmediately { s with callbacks := callbacks })

/-- The service and the activity have started. -/
def start (activity : MainActivity) : State := ⟨some ⟨[], false⟩, some activity, 0⟩

end WinEmulator.X11.KeyInterception
