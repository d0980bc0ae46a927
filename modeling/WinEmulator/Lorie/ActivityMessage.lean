import WinEmulator.Lorie.Event

/-!
# `activity.c`: what the activity writes to the X server

The native methods behind `LorieView` that write on the connection, each as the bytes it writes when
`conn_fd != -1`. Their arguments are the Java ones; storing them in the members of a `lorieEvent`
narrows them as C does. `jfloat`s are only copied and appear as their bit patterns.

`sendTextEvent` writes one `unicode` event for each character it decodes, so a call of it is a
sequence of `sendUnicode` here.
-/

set_option autoImplicit false

namespace WinEmulator.Lorie

open WinEmulator.Lib

/-- The `byte[]` of `sendClipboardEvent`: its length is a `jsize`. -/
structure JByteArray where
  bytes : List UInt8
  length_lt : bytes.length < 2 ^ 31

/-- The characters `GetStringUTFChars` gives for a `String`. The modified encoding has no NUL in it,
so `strlen` is its length. -/
structure JStringUTF where
  bytes : List UInt8
  length_lt : bytes.length < 2 ^ 64

/-- One call of a native method that writes. -/
inductive ActivityMessage
  | setClipboardSyncEnabled (enable : UInt8)
  | sendClipboardAnnounce
  | sendClipboardEvent (text : JByteArray)
  | sendWindowChange (width height framerate : Int32) (jname : Option JStringUTF)
  | sendMouseEvent (x y : UInt32) (which_button : Int32) (button_down relative : UInt8)
  | sendTouchEvent (action id x y : Int32)
  | sendStylusEvent (x y : UInt32) (pressure tilt_x tilt_y orientation buttons : Int32)
      (eraser mouse : UInt8)
  | requestStylusEnabled (enabled : UInt8)
  | sendKeyEvent (scan_code key_code : Int32) (key_down : UInt8)
  | sendUnicode (wc : UInt32)

/-- The name `sendWindowChange` sends along: none without a `jname` or without an area. -/
def windowName (width height : Int32) (jname : Option JStringUTF) : Option JStringUTF :=
  if width ≤ 0 ∨ height ≤ 0 then none else jname

/-- `strlen(name)`, or 0 without a name. -/
def nameSize : Option JStringUTF → UInt64
  | none => 0
  | some name => UInt64.ofNat name.bytes.length

/-- The low bits a C conversion to an unsigned member keeps. -/
def toUInt16 (i : Int32) : UInt16 := i.toUInt32.toUInt16

def toUInt8 (i : Int32) : UInt8 := i.toUInt32.toUInt8

section

variable (android_to_linux_keycode : Int32 → Int32) (junk : LorieEvent)

/-- The event a call writes first. `sendTouchEvent` with the action -1 writes nothing. The table
`android_to_linux_keycode` is the one of `lorie.h`. -/
def ActivityMessage.event : ActivityMessage → Option LorieEvent
  | .setClipboardSyncEnabled enable => some (.ofEnable junk .clipboardEnable enable)
  | .sendClipboardAnnounce => some (.ofType junk .clipboardAnnounce)
  | .sendClipboardEvent text => some (.ofClipboardSend junk (UInt32.ofNat text.bytes.length))
  | .sendWindowChange width height framerate jname =>
    some (.ofScreenSize junk ⟨toUInt16 width, toUInt16 height, toUInt16 framerate,
      nameSize (windowName width height jname)⟩)
  | .sendMouseEvent x y which_button button_down relative =>
    some (.ofMouse junk ⟨x, y, toUInt8 which_button, button_down, relative⟩)
  | .sendTouchEvent action id x y =>
    if action = -1 then none
    else some (.ofTouch junk ⟨toUInt16 action, toUInt16 id, toUInt16 x, toUInt16 y⟩)
  | .sendStylusEvent x y pressure tilt_x tilt_y orientation buttons eraser mouse =>
    some (.ofStylus junk ⟨x, y, toUInt16 pressure, tilt_x.toInt8, tilt_y.toInt8,
      orientation.toInt16, toUInt8 buttons, eraser, mouse⟩)
  | .requestStylusEnabled enabled => some (.ofEnable junk .stylusEnable enabled)
  | .sendKeyEvent scan_code key_code key_down =>
    let code := if scan_code ≠ 0 then scan_code else android_to_linux_keycode key_code
    some (.ofKey junk ⟨toUInt16 (code + 8), key_down⟩)
  | .sendUnicode wc => some (.ofUnicode junk wc)

/-- The bytes a call writes after its event. -/
def ActivityMessage.payload : ActivityMessage → List UInt8
  | .sendClipboardEvent text => text.bytes
  | .sendWindowChange width height _ jname =>
    ((windowName width height jname).map JStringUTF.bytes).getD []
  | _ => []

/-- What a call writes. -/
def ActivityMessage.bytes (m : ActivityMessage) : List UInt8 :=
  match m.event android_to_linux_keycode junk with
  | none => []
  | some e => e.bytes ++ m.payload

end

end WinEmulator.Lorie
