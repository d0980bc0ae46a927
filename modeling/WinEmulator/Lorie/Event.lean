import WinEmulator.Lib.Image

/-!
# The wire format of `lorie.h`

The X server and the activity talk over one stream socket in both directions. What they write is the
raw memory of a `lorieEvent`, a union of 24 bytes, followed for some events by a payload. This
module is that union for the one ABI the build keeps (`arm64-v8a`: little-endian, 64-bit `size_t`
and `unsigned long`): the event types with their codes, and for each member of the union its fields
at their offsets.

A sender fills the members of one variant of a local `lorieEvent`; C leaves the other bytes of the
union unspecified. `LorieEvent.touch junk …` and its siblings store the fields over an arbitrary
image `junk`, so every law about an event holds whatever those bytes were.
-/

set_option autoImplicit false

namespace WinEmulator.Lorie

open WinEmulator.Lib

/-- `eventType`, in the order of the C enumeration. -/
inductive EventType
  | unknown
  | sharedServerState
  | addBuffer
  | removeBuffer
  | screenSize
  | touch
  | mouse
  | key
  | stylus
  | stylusEnable
  | unicode
  | clipboardEnable
  | clipboardAnnounce
  | clipboardRequest
  | clipboardSend
  | windowFocusChanged
deriving DecidableEq, Repr

/-- The value the enumeration gives an event type. -/
def EventType.code : EventType → UInt8
  | .unknown => 0
  | .sharedServerState => 1
  | .addBuffer => 2
  | .removeBuffer => 3
  | .screenSize => 4
  | .touch => 5
  | .mouse => 6
  | .key => 7
  | .stylus => 8
  | .stylusEnable => 9
  | .unicode => 10
  | .clipboardEnable => 11
  | .clipboardAnnounce => 12
  | .clipboardRequest => 13
  | .clipboardSend => 14
  | .windowFocusChanged => 15

/-- The case label a `switch (e.type)` reaches. Every other value falls through the switch, exactly
as `unknown` does, for which there is no case either. -/
def EventType.ofCode (c : UInt8) : EventType :=
  match c.toNat with
  | 1 => .sharedServerState
  | 2 => .addBuffer
  | 3 => .removeBuffer
  | 4 => .screenSize
  | 5 => .touch
  | 6 => .mouse
  | 7 => .key
  | 8 => .stylus
  | 9 => .stylusEnable
  | 10 => .unicode
  | 11 => .clipboardEnable
  | 12 => .clipboardAnnounce
  | 13 => .clipboardRequest
  | 14 => .clipboardSend
  | 15 => .windowFocusChanged
  | _ => .unknown

/-- The switch reaches the case of the type that was stored. -/
@[simp] theorem EventType.ofCode_code (t : EventType) : EventType.ofCode t.code = t := by
  cases t <;> rfl

/-- `sizeof(lorieEvent)`. -/
def sizeofLorieEvent : Nat := 24

/-- `lorieEvent`: the union, as the bytes it occupies. -/
abbrev LorieEvent := Image sizeofLorieEvent

/-! ## The members of the union -/

/-- The members of `screenSize` that travel; the `name` pointer is set on the receiving side. -/
structure ScreenSize where
  width : UInt16
  height : UInt16
  framerate : UInt16
  name_size : UInt64
deriving DecidableEq, Repr

structure Touch where
  type : UInt16
  id : UInt16
  x : UInt16
  y : UInt16
deriving DecidableEq, Repr

/-- The floats `x` and `y` as their bit patterns: they are only copied here. -/
structure Mouse where
  x : UInt32
  y : UInt32
  detail : UInt8
  down : UInt8
  relative : UInt8
deriving DecidableEq, Repr

structure Key where
  key : UInt16
  state : UInt8
deriving DecidableEq, Repr

structure Stylus where
  x : UInt32
  y : UInt32
  pressure : UInt16
  tilt_x : Int8
  tilt_y : Int8
  orientation : Int16
  buttons : UInt8
  eraser : UInt8
  mouse : UInt8
deriving DecidableEq

namespace LorieEvent

/-- `e.type`, the member every variant shares. -/
def type (e : LorieEvent) : UInt8 := e.read UInt8 0

def screenSize (e : LorieEvent) : ScreenSize :=
  ⟨e.read UInt16 2, e.read UInt16 4, e.read UInt16 6, e.read UInt64 8⟩

def removeBuffer (e : LorieEvent) : UInt64 := e.read UInt64 8

def touch (e : LorieEvent) : Touch :=
  ⟨e.read UInt16 2, e.read UInt16 4, e.read UInt16 6, e.read UInt16 8⟩

def mouse (e : LorieEvent) : Mouse :=
  ⟨e.read UInt32 4, e.read UInt32 8, e.read UInt8 12, e.read UInt8 13, e.read UInt8 14⟩

def key (e : LorieEvent) : Key := ⟨e.read UInt16 2, e.read UInt8 4⟩

def stylus (e : LorieEvent) : Stylus :=
  ⟨e.read UInt32 4, e.read UInt32 8, e.read UInt16 12, e.read Int8 14, e.read Int8 15,
    e.read Int16 16, e.read UInt8 18, e.read UInt8 19, e.read UInt8 20⟩

/-- `stylusEnable.enable` and `clipboardEnable.enable` are both the second byte. -/
def enable (e : LorieEvent) : UInt8 := e.read UInt8 1

def unicode (e : LorieEvent) : UInt32 := e.read UInt32 4

/-- `clipboardSend.count`. -/
def count (e : LorieEvent) : UInt32 := e.read UInt32 4

/-! ### Initialisers

One for each `lorieEvent e = { … }` of the two programs. -/

variable (junk : LorieEvent)

/-- `{ .type = t }`. -/
def ofType (t : EventType) : LorieEvent := junk.write 0 t.code (by decide)

def ofScreenSize (s : ScreenSize) : LorieEvent :=
  ((((ofType junk .screenSize).write 2 s.width (by decide)).write 4 s.height (by decide)).write
    6 s.framerate (by decide)).write 8 s.name_size (by decide)

def ofRemoveBuffer (id : UInt64) : LorieEvent := (ofType junk .removeBuffer).write 8 id (by decide)

def ofTouch (t : Touch) : LorieEvent :=
  ((((ofType junk .touch).write 2 t.type (by decide)).write 4 t.id (by decide)).write
    6 t.x (by decide)).write 8 t.y (by decide)

def ofMouse (m : Mouse) : LorieEvent :=
  (((((ofType junk .mouse).write 4 m.x (by decide)).write 8 m.y (by decide)).write
    12 m.detail (by decide)).write 13 m.down (by decide)).write 14 m.relative (by decide)

def ofKey (k : Key) : LorieEvent :=
  ((ofType junk .key).write 2 k.key (by decide)).write 4 k.state (by decide)

def ofStylus (s : Stylus) : LorieEvent :=
  (((((((((ofType junk .stylus).write 4 s.x (by decide)).write 8 s.y (by decide)).write
    12 s.pressure (by decide)).write 14 s.tilt_x (by decide)).write 15 s.tilt_y (by decide)).write
    16 s.orientation (by decide)).write 18 s.buttons (by decide)).write
    19 s.eraser (by decide)).write 20 s.mouse (by decide)

/-- `{ .stylusEnable = … }` and `{ .clipboardEnable = … }`. -/
def ofEnable (t : EventType) (enable : UInt8) : LorieEvent :=
  (ofType junk t).write 1 enable (by decide)

def ofUnicode (code : UInt32) : LorieEvent := (ofType junk .unicode).write 4 code (by decide)

def ofClipboardSend (count : UInt32) : LorieEvent :=
  (ofType junk .clipboardSend).write 4 count (by decide)

/-! ### What an initialised event reads back -/

@[simp] theorem type_ofType (t : EventType) : (ofType junk t).type = t.code := by
  simp [type, ofType]

@[simp] theorem type_ofScreenSize (s : ScreenSize) :
    (ofScreenSize junk s).type = EventType.screenSize.code := by
  simp (disch := decide) only [type, ofScreenSize, ofType, Image.read_write_of_disjoint,
    Image.read_write_same]

@[simp] theorem screenSize_ofScreenSize (s : ScreenSize) :
    (ofScreenSize junk s).screenSize = s := by
  simp (disch := decide) only [screenSize, ofScreenSize, ofType, Image.read_write_of_disjoint,
    Image.read_write_same]

@[simp] theorem type_ofRemoveBuffer (id : UInt64) :
    (ofRemoveBuffer junk id).type = EventType.removeBuffer.code := by
  simp (disch := decide) only [type, ofRemoveBuffer, ofType, Image.read_write_of_disjoint,
    Image.read_write_same]

@[simp] theorem removeBuffer_ofRemoveBuffer (id : UInt64) :
    (ofRemoveBuffer junk id).removeBuffer = id := by
  simp only [removeBuffer, ofRemoveBuffer, Image.read_write_same]

@[simp] theorem type_ofTouch (t : Touch) : (ofTouch junk t).type = EventType.touch.code := by
  simp (disch := decide) only [type, ofTouch, ofType, Image.read_write_of_disjoint,
    Image.read_write_same]

@[simp] theorem touch_ofTouch (t : Touch) : (ofTouch junk t).touch = t := by
  simp (disch := decide) only [touch, ofTouch, ofType, Image.read_write_of_disjoint,
    Image.read_write_same]

@[simp] theorem type_ofMouse (m : Mouse) : (ofMouse junk m).type = EventType.mouse.code := by
  simp (disch := decide) only [type, ofMouse, ofType, Image.read_write_of_disjoint,
    Image.read_write_same]

@[simp] theorem mouse_ofMouse (m : Mouse) : (ofMouse junk m).mouse = m := by
  simp (disch := decide) only [mouse, ofMouse, ofType, Image.read_write_of_disjoint,
    Image.read_write_same]

@[simp] theorem type_ofKey (k : Key) : (ofKey junk k).type = EventType.key.code := by
  simp (disch := decide) only [type, ofKey, ofType, Image.read_write_of_disjoint,
    Image.read_write_same]

@[simp] theorem key_ofKey (k : Key) : (ofKey junk k).key = k := by
  simp (disch := decide) only [key, ofKey, ofType, Image.read_write_of_disjoint,
    Image.read_write_same]

@[simp] theorem type_ofStylus (s : Stylus) : (ofStylus junk s).type = EventType.stylus.code := by
  simp (disch := decide) only [type, ofStylus, ofType, Image.read_write_of_disjoint,
    Image.read_write_same]

@[simp] theorem stylus_ofStylus (s : Stylus) : (ofStylus junk s).stylus = s := by
  simp (disch := decide) only [stylus, ofStylus, ofType, Image.read_write_of_disjoint,
    Image.read_write_same]

@[simp] theorem type_ofEnable (t : EventType) (enable : UInt8) :
    (ofEnable junk t enable).type = t.code := by
  simp (disch := decide) only [type, ofEnable, ofType, Image.read_write_of_disjoint,
    Image.read_write_same]

@[simp] theorem enable_ofEnable (t : EventType) (b : UInt8) : (ofEnable junk t b).enable = b := by
  simp only [enable, ofEnable, Image.read_write_same]

@[simp] theorem type_ofUnicode (code : UInt32) :
    (ofUnicode junk code).type = EventType.unicode.code := by
  simp (disch := decide) only [type, ofUnicode, ofType, Image.read_write_of_disjoint,
    Image.read_write_same]

@[simp] theorem unicode_ofUnicode (code : UInt32) : (ofUnicode junk code).unicode = code := by
  simp only [unicode, ofUnicode, Image.read_write_same]

@[simp] theorem type_ofClipboardSend (count : UInt32) :
    (ofClipboardSend junk count).type = EventType.clipboardSend.code := by
  simp (disch := decide) only [type, ofClipboardSend, ofType, Image.read_write_of_disjoint,
    Image.read_write_same]

@[simp] theorem count_ofClipboardSend (c : UInt32) : (ofClipboardSend junk c).count = c := by
  simp only [count, ofClipboardSend, Image.read_write_same]

end LorieEvent

end WinEmulator.Lorie
