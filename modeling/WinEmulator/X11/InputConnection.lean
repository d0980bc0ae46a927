import WinEmulator.Lib.Utf16
import WinEmulator.Lib.Machine
import Mathlib.Logic.Function.Iterate

/-!
# `LorieView.java`: composing text on an X server

X has no composing text. The input connection types what is being composed and erases it again with
backspaces when it changes. `State` is the connection with the text on the other side, where a text
event appends its characters and the backspace key takes the last one off. `Document` is what an
editor with composing text would have.

Java texts are UTF-16, and the bytes that go to `sendTextEvent` are UTF-8. The position of the fake
cursor, which is for the input method alone, is left out.
-/

set_option autoImplicit false

namespace WinEmulator.X11.InputConnection

open WinEmulator.Lib
open WinEmulator.Lib.Utf16 (Unit16)

/-- A text an input method passes in: well-formed, and without `U+0000`. -/
structure Text where
  chars : List Char
  noNul : '\x00' ∉ chars
deriving DecidableEq

/-- The units of the Java string. -/
def Text.units (t : Text) : List Unit16 := Utf16.encode t.chars

/-- `String.getBytes(UTF_8)`. -/
def getBytes (units : List Unit16) : List UInt8 :=
  (Utf16.decode units).flatMap String.utf8EncodeChar

/-! ## `activity.c` -/

/-- `mbrtowc`, with `MB_CUR_MAX` bytes to look at. -/
def mbrtowc (p : List UInt8) : Option Char := (p.take 4).toByteArray.utf8DecodeChar? 0

/-- The loop of `sendTextEvent`: the codes of the events it sends. -/
def sendUnicode : Nat → List UInt8 → List Char
  | 0, _ => []
  | _, [] => []
  | fuel + 1, b :: bs =>
    if b = 0 then []
    else
      match mbrtowc (b :: bs) with
      | none => []
      | some wc => wc :: sendUnicode fuel ((b :: bs).drop wc.utf8Size)

def sendTextEvent (text : List UInt8) : List Char := sendUnicode text.length text

/-! ## The input connection -/

structure State where
  currentComposingText : Option Text
  /-- The text of the X client. -/
  remote : List Char
deriving DecidableEq

/-- `sendKey(KeyEvent.KEYCODE_DEL)`, so many times. -/
def sendDel (n : Nat) (remote : List Char) : List Char := List.dropLast^[n] remote

def replaceText (newText : Text) (reuse : Bool) (s : State) : State :=
  let old := (s.currentComposingText.map Text.units).getD []
  let new := newText.units
  let remote :=
    if old ≠ [] ∧ new ≠ [] ∧ (new <+: old ∨ old <+: new) then
      (new.drop old.length).foldl (fun remote u => remote ++ sendTextEvent (getBytes [u]))
        (sendDel (old.length - new.length) s.remote)
    else sendDel old.length s.remote ++ sendTextEvent (getBytes new)
  ⟨if reuse then some newText else none, remote⟩

def setComposingText (text : Text) (s : State) : State := replaceText text true s

def commitText (text : Text) (s : State) : State := replaceText text false s

def finishComposingText (s : State) : State := { s with currentComposingText := none }

inductive Call
  | setComposingText (text : Text)
  | commitText (text : Text)
  | finishComposingText
deriving DecidableEq

def call (s : State) : Call → State
  | .setComposingText text => setComposingText text s
  | .commitText text => commitText text s
  | .finishComposingText => finishComposingText s

/-! ## What it simulates -/

structure Document where
  committed : List Char
  composing : List Char
deriving DecidableEq

def Document.call (d : Document) : Call → Document
  | .setComposingText text => { d with composing := text.chars }
  | .commitText text => ⟨d.committed ++ text.chars, []⟩
  | .finishComposingText => ⟨d.committed ++ d.composing, []⟩

def Document.text (d : Document) : List Char := d.committed ++ d.composing

/-- The connection beside the document it simulates. -/
structure Both where
  connection : State
  document : Document

def step (b : Both) (c : Call) : Option Both := some ⟨call b.connection c, b.document.call c⟩

def start : Both := ⟨⟨none, []⟩, ⟨[], []⟩⟩

/-- Both after some calls. -/
def after (cs : List Call) : Both :=
  cs.foldl (fun b c => ⟨call b.connection c, b.document.call c⟩) start

end WinEmulator.X11.InputConnection
