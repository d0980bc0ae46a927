import Mathlib.Algebra.Group.Nat.Defs
import WinEmulator.Lorie.Clipboard

/-!
# `clipboard.c`: text in memory

The conversions of the text of a selection, as they read and write memory. A pointer is what is in
its array from there on, and an array that is written is a list of its bytes with an index. An
access outside of an array is `none`, and so is an array that the stack has no room for.
-/

set_option autoImplicit false

namespace WinEmulator.Lorie.ClipboardText

open WinEmulator.Lorie.Clipboard
  (Atom XA_ATOM xaTARGETS xaSTRING xaUTF8_STRING replacement isContinuation cString)

/-- Nothing is read at `[]`. -/
abbrev Pointer := List UInt8

/-- `array[i] = b`. -/
def store (array : List UInt8) (i : Nat) (b : UInt8) : Option (List UInt8) :=
  if i < array.length then some (array.set i b) else none

/-- The stack of the server's thread: the bytes left below the frame of the function, without what
the functions need that it calls, and what the stack pointer stays a multiple of. -/
structure Stack where
  free : Nat
  align : Nat
  align_pos : 0 < align

/-- By how much the stack pointer goes down for an array. -/
def Stack.taken (stack : Stack) (size : Nat) : Nat :=
  (size + stack.align - 1) / stack.align * stack.align

/-- `char array[size]`, which is zeroed as a whole, and the stack that is left. -/
def Stack.array (stack : Stack) (size : UInt32) : Option (List UInt8 × Stack) :=
  if stack.taken size.toNat ≤ stack.free then
    some (List.replicate size.toNat 0, { stack with free := stack.free - stack.taken size.toNat })
  else none

/-- A C text is there up to its terminator. -/
def text (array : Pointer) : Option (List UInt8) := if 0 ∈ array then some (cString array) else none

/-! ## From the server to the activity -/

/-- The loop of `lorieConvertLF`, with the bytes that are left. -/
def convertLF : Nat → Pointer → Nat → List UInt8 → Option (List UInt8)
  | 0, _, _, dst => some dst
  | _ + 1, [], _, _ => none
  | bytes + 1, b :: src, j, dst =>
    if b ≠ 13 then (store dst j b).bind (convertLF bytes src (j + 1)) else convertLF bytes src j dst

def lorieConvertLF (src : Pointer) (dst : List UInt8) (bytes : Nat) : Option (List UInt8) :=
  convertLF bytes src 0 dst

/-- The loop of `lorieLatin1ToUTF8`, with the index of `out`. -/
def latin1ToUTF8 : Pointer → Nat → List UInt8 → Option (List UInt8)
  | [], _, _ => none
  | b :: src, i, out =>
    if b = 0 then some out
    else if b < 128 then (store out i b).bind (latin1ToUTF8 src (i + 1))
    else
      (store out i (0xc2 + if b > 0xbf then 1 else 0)).bind fun out =>
        (store out (i + 1) ((b &&& 0x3f) + 0x80)).bind (latin1ToUTF8 src (i + 2))

def lorieLatin1ToUTF8 (out : List UInt8) (src : Pointer) : Option (List UInt8) :=
  latin1ToUTF8 src 0 out

/-- `utf[ix]`. An `int` past its greatest value is negative, and so before the array. -/
def byteAt (utf : List UInt8) (ix : Nat) : Option UInt8 := if ix < 2 ^ 31 then utf[ix]? else none

/-- The loop of `lorieCheckUTF8`. Each round takes a byte at least. -/
def checkUTF8 (utf : List UInt8) : Nat → Nat → Option Bool
  | 0, _ => none
  | rounds + 1, ix => do
    let c ← byteAt utf ix
    if c ≠ 0 ∧ ix < utf.length then
      if c &&& 0x80 ≠ 0 then
        if !isContinuation (← byteAt utf (ix + 1)) then return false
        else if c &&& 0xe0 = 0xe0 then
          if !isContinuation (← byteAt utf (ix + 2)) then return false
          else if c &&& 0xf0 = 0xf0 then
            if c &&& 0xf8 ≠ 0xf0 then return false
            else if !isContinuation (← byteAt utf (ix + 3)) then return false
            else checkUTF8 utf rounds (ix + 4)
          else checkUTF8 utf rounds (ix + 3)
        else checkUTF8 utf rounds (ix + 2)
      else checkUTF8 utf rounds (ix + 1)
    else return true

def lorieCheckUTF8 (utf : List UInt8) : Option Bool := checkUTF8 utf (utf.length + 1) 0

/-- `struct _Property`. The data are as many units as the size says, of as many bits as the format
says. -/
structure PropertyRec where
  type : Atom
  format : UInt8
  size : UInt32
  data : List UInt8
  sized : data.length = size.toNat * (format.toNat / 8)

/-- The data as an array of atoms. -/
def atoms : List UInt8 → List Atom
  | a :: b :: c :: d :: rest =>
    (a.toNat + 2 ^ 8 * b.toNat + 2 ^ 16 * c.toNat + 2 ^ 24 * d.toNat) :: atoms rest
  | _ => []

def lorieHasAtom (atom : Atom) (list : List Atom) : Bool := list.any (· == atom)

/-- What comes of a notification. -/
inductive Outcome
  | nothing
  | lorieSelectionRequest (selection target : Atom)
  | lorieSendClipboardData (data : List UInt8)
deriving DecidableEq

/-- `lorieHandleSelection`, with the property that `dixLookupProperty` finds. -/
def lorieHandleSelection (stack : Stack) (target : Atom) (found : Option PropertyRec) :
    Option Outcome :=
  if target ≠ xaTARGETS ∧ target ≠ xaSTRING ∧ target ≠ xaUTF8_STRING then some .nothing
  else
    match found with
    | none => some .nothing
    | some prop =>
      if target = xaTARGETS ∧ prop.type = XA_ATOM ∧ prop.format = 32 then
        if lorieHasAtom xaUTF8_STRING (atoms prop.data) then
          some (.lorieSelectionRequest Clipboard.xaCLIPBOARD xaUTF8_STRING)
        else if lorieHasAtom xaSTRING (atoms prop.data) then
          some (.lorieSelectionRequest Clipboard.xaCLIPBOARD xaSTRING)
        else some .nothing
      else if target = xaSTRING ∧ prop.type = xaSTRING ∧ prop.format = 8 then do
        let (filtered, stack) ← stack.array (prop.size + 1)
        let (utf8, _) ← stack.array ((prop.size + 1) * 2)
        let filtered ← lorieConvertLF prop.data filtered prop.size.toNat
        let utf8 ← lorieLatin1ToUTF8 utf8 filtered
        return .lorieSendClipboardData (← text utf8)
      else if target = xaUTF8_STRING ∧ prop.type = xaUTF8_STRING ∧ prop.format = 8 then do
        let (filtered, _) ← stack.array (prop.size + 1)
        if ← lorieCheckUTF8 prop.data then
          let filtered ← lorieConvertLF prop.data filtered prop.size.toNat
          return .lorieSendClipboardData (← text filtered)
        else return .nothing
      else some .nothing

/-! ## From the activity to the server -/

/-- The loop over the bytes that follow a lead, after which the number of those consumed and the
character are known. -/
def sequence : Nat → Pointer → Nat → Nat → UInt32 → Option (Nat × UInt32)
  | 0, _, _, consumed, dst =>
    some (consumed, if 0xd800 ≤ dst ∧ dst < 0xe000 then replacement else dst)
  | count + 1, src, max, consumed, dst =>
    if max = 0 then some (consumed + 1, replacement)
    else
      match src with
      | [] => none
      | b :: src =>
        if !isContinuation b then some (consumed + 1, replacement)
        else sequence count src (max - 1) (consumed + 1) (dst <<< 6 ||| (b &&& 0x3f).toUInt32)

/-- The loop over the bytes that follow an invalid lead. -/
def continuations : Nat → Pointer → Nat → Option Nat
  | 0, _, consumed => some consumed
  | _ + 1, [], _ => none
  | max + 1, b :: src, consumed =>
    if isContinuation b then continuations max src (consumed + 1) else some consumed

/-- How many bytes are consumed, and the character. -/
def lorieUtf8ToUCS4 (src : Pointer) (max : Nat) : Option (Nat × UInt32) :=
  if max = 0 then some (0, replacement)
  else
    match src with
    | [] => none
    | b :: src =>
      if b &&& 0x80 = 0 then sequence 0 src (max - 1) 1 b.toUInt32
      else if b &&& 0xe0 = 0xc0 then sequence 1 src (max - 1) 1 (b &&& 0x1f).toUInt32
      else if b &&& 0xf0 = 0xe0 then sequence 2 src (max - 1) 1 (b &&& 0x0f).toUInt32
      else if b &&& 0xf8 = 0xf0 then sequence 3 src (max - 1) 1 (b &&& 0x07).toUInt32
      else (continuations (max - 1) src 1).map fun consumed => (consumed, replacement)

/-- `a - b` of two `size_t`s. -/
def subSize (a b : Nat) : Nat := (a + 2 ^ 64 - b) % 2 ^ 64

/-- A pass over the text: the characters, each with the pointer it was read at, and the pointer at
the end. Each round takes a byte at least. -/
def pass : Nat → Pointer → Nat → Option (List (Pointer × UInt32) × Pointer)
  | 0, _, _ => none
  | rounds + 1, src, in_len =>
    if in_len = 0 then some ([], src)
    else
      match src with
      | [] => none
      | b :: rest =>
        if b = 0 then some ([], src)
        else
          (lorieUtf8ToUCS4 (b :: rest) in_len).bind fun (len, ucs) =>
            (pass rounds ((b :: rest).drop len) (subSize in_len len)).map fun (characters, last) =>
              ((src, ucs) :: characters, last)

/-- The pass that computes the size. -/
def firstPass (src : Pointer) : Option (List (Pointer × UInt32) × Pointer) :=
  pass (src.length + 1) src (2 ^ 64 - 1)

/-- The pass that converts. -/
def secondPass (src : Pointer) : Option (List (Pointer × UInt32) × Pointer) :=
  pass (src.length + 1) src 4294967295

/-- `out[position++]` for each character. -/
def writeLatin1 : List (Pointer × UInt32) → Nat → List UInt8 → Option (List UInt8)
  | [], _, out => some out
  | (_, ucs) :: characters, position, out =>
    (store out position (if ucs > 0xff then 0x3f else ucs.toUInt8)).bind
      (writeLatin1 characters (position + 1))

def lorieUtf8ToLatin1 (src : Pointer) : Option (List UInt8) := do
  let sz := (← firstPass src).1.length
  let out ← writeLatin1 (← secondPass src).1 0 (List.replicate (sz + 1) 0)
  text out

end WinEmulator.Lorie.ClipboardText
