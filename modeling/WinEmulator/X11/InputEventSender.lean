import WinEmulator.X11.InputConnection

/-!
# `InputEventSender.java`: keys

`sendKeyEvent` turns the key events of Android into key and text events of the X server. It takes
one of several ways for each event, from the modifiers in force at that moment. What it sends is a
list of reports; the release and press of the right Alt key around a text are reports of their own.

`State` adds to the sender which keys are down and what was reported for each of them since it went
down. A key goes up only when it is down, and only an event of a key that goes up may be cancelled.
The result of `sendKeyEvent`, which is always true, and the pointer capture that Escape ends are
left out.
-/

set_option autoImplicit false

namespace WinEmulator.X11.InputEventSender

open WinEmulator.Lib
open WinEmulator.Lib.Utf16 (Unit16)

abbrev KeyCode := Nat

def KEYCODE_2 : KeyCode := 9

def KEYCODE_3 : KeyCode := 10

def KEYCODE_8 : KeyCode := 15

def KEYCODE_STAR : KeyCode := 17

def KEYCODE_POUND : KeyCode := 18

def KEYCODE_SHIFT_LEFT : KeyCode := 59

def KEYCODE_ENTER : KeyCode := 66

def KEYCODE_EQUALS : KeyCode := 70

def KEYCODE_AT : KeyCode := 77

def KEYCODE_PLUS : KeyCode := 81

def FLAG_CANCELED : UInt32 := 0x20

def META_ALT_ON : UInt32 := 0x02

def META_ALT_RIGHT_ON : UInt32 := 0x20

def META_CTRL_ON : UInt32 := 0x1000

def META_META_ON : UInt32 := 0x10000

inductive KeyAction
  | down
  | up
  | multiple
deriving DecidableEq

structure KeyEvent where
  keyCode : KeyCode
  action : KeyAction
  flags : UInt32
  metaState : UInt32
  unicodeChar : UInt32
  characters : Option (List Unit16)
  scanCode : Int
  repeatCount : Nat
deriving DecidableEq

namespace KeyEvent

def canceled (e : KeyEvent) : Bool := e.flags &&& FLAG_CANCELED == FLAG_CANCELED

def has (e : KeyEvent) (bits : UInt32) : Bool := e.metaState &&& bits != 0

/-- `no_modifiers`. -/
def noModifiers (e : KeyEvent) : Bool :=
  !e.has META_ALT_ON && !e.has META_CTRL_ON && !e.has META_META_ON ||
    e.has META_ALT_RIGHT_ON && (e.characters.isSome || e.unicodeChar != 0)

/-- `unicode`. -/
def unicode (e : KeyEvent) : Unit16 :=
  if e.keyCode = KEYCODE_ENTER then 0 else e.unicodeChar.toUInt16

/-- `scancode`. -/
def scancode (preferScancodes : Bool) (e : KeyEvent) : Int :=
  if preferScancodes || !e.noModifiers then e.scanCode else 0

/-- An event that types a text when its key is down. -/
def types (preferScancodes : Bool) (e : KeyEvent) : Bool :=
  !preferScancodes && e.unicode != 0 && e.noModifiers

end KeyEvent

/-- `chars`: a legacy key, its character and the key that types it with Shift. -/
def legacyKeys : List (KeyCode × UInt32 × KeyCode) :=
  [(KEYCODE_AT, 64, KEYCODE_2), (KEYCODE_POUND, 35, KEYCODE_3), (KEYCODE_STAR, 42, KEYCODE_8),
    (KEYCODE_PLUS, 43, KEYCODE_EQUALS)]

/-- The key that is sent with Shift for a legacy key. -/
def KeyEvent.legacyKey (e : KeyEvent) : Option KeyCode :=
  (legacyKeys.find? fun (key, char, _) =>
    e.keyCode = key ∧ (e.characters = some [char.toUInt16] ∨ e.unicodeChar = char)).map (·.2.2)

/-- A scan code and a key code. -/
abbrev Code := Int × KeyCode

/-- A call of the injector. -/
inductive Report
  | key (code : Code) (pressed : Bool)
  | altGr (pressed : Bool)
  | text (bytes : List UInt8)
deriving DecidableEq

structure Sender where
  mPressedTextKeys : List KeyCode
  mPressedKeys : List KeyCode
deriving DecidableEq

/-- A text, without the right Alt key in its way. -/
def sendText (e : KeyEvent) (text : List Unit16) : List Report :=
  if e.has META_ALT_RIGHT_ON then [.altGr false, .text (InputConnection.getBytes text), .altGr true]
  else [.text (InputConnection.getBytes text)]

def sendKeyEvent (preferScancodes : Bool) (e : KeyEvent) (s : Sender) : Sender × List Report :=
  let pressed := e.action = .down
  if e.canceled then (s, [])
  else if e.action = .multiple then
    match e.characters with
    | some characters => (s, [.text (InputConnection.getBytes characters)])
    | none =>
      if e.unicodeChar ≠ 0 then (s, [.text (InputConnection.getBytes [e.unicodeChar.toUInt16])])
      else (s, [])
  else if pressed ∧ e.types preferScancodes then
    ({ s with mPressedTextKeys := s.mPressedTextKeys.insert e.keyCode }, sendText e [e.unicode])
  else if preferScancodes = false ∧ ¬ pressed ∧ e.keyCode ∈ s.mPressedTextKeys then
    ({ s with mPressedTextKeys := s.mPressedTextKeys.filter (· ≠ e.keyCode) }, [])
  else
    match e.legacyKey with
    | some key => (s, [.key (0, KEYCODE_SHIFT_LEFT) pressed, .key (0, key) pressed])
    | none =>
      if 0 < e.repeatCount ∧ e.keyCode ∈ s.mPressedKeys then (s, [])
      else
        let keys :=
          if pressed then s.mPressedKeys.insert e.keyCode else s.mPressedKeys.filter (· ≠ e.keyCode)
        ({ s with mPressedKeys := keys }, [.key (e.scancode preferScancodes, e.keyCode) pressed])

/-! ## Runs -/

/-- Whether a code is pressed, by the reports so far, the last one first. -/
def pressed : List Report → Code → Bool
  | [], _ => false
  | .key code true :: log, c => c = code || pressed log c
  | .key code false :: log, c => c ≠ code && pressed log c
  | .altGr _ :: log, c => pressed log c
  | .text _ :: log, c => pressed log c

/-- Every release is of a code that is pressed. -/
def NoStray : List Report → Prop
  | [] => True
  | .key code false :: log => pressed log code ∧ NoStray log
  | .key _ true :: log => NoStray log
  | .altGr _ :: log => NoStray log
  | .text _ :: log => NoStray log

structure State where
  sender : Sender
  /-- All reports, the last one first. -/
  log : List Report
  down : List KeyCode
  /-- What was reported as pressed for a key since it went down. -/
  reported : KeyCode → List Code

def start : State := ⟨⟨[], []⟩, [], [], fun _ => []⟩

/-- The codes that are reported as pressed. -/
def presses (reports : List Report) : List Code :=
  reports.filterMap fun
    | .key code true => some code
    | _ => none

def step (preferScancodes : Bool) (s : State) (e : KeyEvent) : Option State :=
  let sent := sendKeyEvent preferScancodes e s.sender
  let log := sent.2.reverse ++ s.log
  match e.action with
  | .down =>
    if e.canceled then none
    else
      let reported := presses sent.2 ++ s.reported e.keyCode
      some ⟨sent.1, log, s.down.insert e.keyCode, Function.update s.reported e.keyCode reported⟩
  | .up =>
    if e.keyCode ∈ s.down then
      some ⟨sent.1, log, s.down.filter (· ≠ e.keyCode), Function.update s.reported e.keyCode []⟩
    else none
  | .multiple => some { s with sender := sent.1, log := log }

end WinEmulator.X11.InputEventSender
