import WinEmulator.Lib.Raster

/-!
# `InitOutput.c`: the cursor that is shared with the activity

`lorieSetCursor` writes the size, the hotspot and the pixels of the cursor into
`lorie_shared_server_state`. The order of bits and bytes is that of Android's processors. Memory
after the end of `bits` is what follows it in the state.
-/

set_option autoImplicit false

namespace WinEmulator.Lorie.Cursor

open WinEmulator.Lib

/-- The bytes of a row of bits, which is padded to 32. -/
def BitmapBytePad (w : Nat) : Nat := (w + 31) / 32 * 4

structure CursorBits where
  source : List UInt8
  mask : List UInt8
  width : UInt16
  height : UInt16
  xhot : UInt16
  yhot : UInt16
  argb : Option (List UInt32)
  source_length : source.length = BitmapBytePad width.toNat * height.toNat
  mask_length : mask.length = BitmapBytePad width.toNat * height.toNat
  argb_length : ∀ pixels, argb = some pixels → pixels.length = width.toNat * height.toNat

structure CursorRec where
  bits : CursorBits
  foreRed : UInt16
  foreGreen : UInt16
  foreBlue : UInt16
  backRed : UInt16
  backGreen : UInt16
  backBlue : UInt16

/-- `lorie_shared_server_state.cursor`. -/
structure SharedCursor where
  x : UInt32
  y : UInt32
  xhot : UInt32
  yhot : UInt32
  width : UInt32
  height : UInt32
  bits : Nat → UInt32
  updated : Bool
  moved : Bool

/-- The word of a pixel of a cursor with colours. -/
def convertArgb (p : UInt32) : UInt32 :=
  let alpha : UInt32 := p &&& 0xFF000000
  let red : UInt32 := (p &&& 0x00FF0000) >>> 16
  let green : UInt32 := p &&& 0x0000FF00
  let blue : UInt32 := (p &&& 0x000000FF) <<< 16
  alpha ||| red ||| green ||| blue

/-- A colour without alpha. -/
def color (red green blue : UInt16) : UInt32 :=
  let b : UInt32 := (blue.toUInt32 &&& 0xff00) <<< 8
  let g : UInt32 := green.toUInt32 &&& 0xff00
  let r : UInt32 := red.toUInt32 >>> 8
  b ||| g ||| r

def lorieConvertCursor (pCurs : CursorRec) (data : Nat → UInt32) : Nat → UInt32 :=
  let bits := pCurs.bits
  match bits.argb with
  | some argb =>
    Raster.fill (fun i => convertArgb (argb.getD i 0)) (bits.width.toNat * bits.height.toNat) data
  | none =>
    let fg := color pCurs.foreRed pCurs.foreGreen pCurs.foreBlue
    let bg := color pCurs.backRed pCurs.backGreen pCurs.backBlue
    let stride := BitmapBytePad bits.width.toNat
    Raster.putRows (fun x y =>
      let i := y * stride + x / 8
      let bit := 1 <<< (x &&& 7)
      let d := if (bits.source.getD i 0).toNat &&& bit ≠ 0 then fg else bg
      if (bits.mask.getD i 0).toNat &&& bit ≠ 0 then d ||| 0xff000000 else 0)
      bits.width.toNat bits.height.toNat data

def lorieMoveCursor (c : SharedCursor) (x y : Int32) : SharedCursor :=
  { c with x := x.toUInt32, y := y.toUInt32, moved := true }

/-- `lorieSetCursor` for a cursor or none. -/
def lorieSetCursor (rootCursor : Option CursorRec) (c : SharedCursor) (pCurs : Option CursorRec)
    (x0 y0 : Int32) : SharedCursor :=
  let bits := pCurs.map CursorRec.bits
  let pCurs := match pCurs with
    | some cursor =>
      if cursor.bits.width ≥ 512 ∨ cursor.bits.height ≥ 512 then rootCursor else some cursor
    | none => none
  let c := match pCurs, bits with
    | some cursor, some bits =>
      { c with
        xhot := bits.xhot.toUInt32
        yhot := bits.yhot.toUInt32
        width := bits.width.toUInt32
        height := bits.height.toUInt32
        bits := lorieConvertCursor cursor c.bits
        updated := true }
    | _, _ => { c with xhot := 0, yhot := 0, width := 0, height := 0, updated := true }
  lorieMoveCursor c x0 y0

end WinEmulator.Lorie.Cursor
