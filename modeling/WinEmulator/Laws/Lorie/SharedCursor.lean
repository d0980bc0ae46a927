import Mathlib.Data.Nat.Bitwise
import Mathlib.Tactic.IntervalCases
import WinEmulator.Lorie.Cursor

/-!
# What the shared cursor shows

The pixels of any cursor are converted as they should be, whatever its rows are padded to. But of a
cursor that is too large only the pixels are replaced by those of the root cursor: its size and its
hotspot are kept.
-/

set_option autoImplicit false

namespace WinEmulator.Lorie.Cursor

open WinEmulator.Lib

/-- A pixel, in the order of its bytes in the memory of the activity. -/
structure Rgba where
  r : UInt8
  g : UInt8
  b : UInt8
  a : UInt8
deriving DecidableEq

def Rgba.ofWord (d : UInt32) : Rgba :=
  ⟨d.toUInt8, (d >>> 8).toUInt8, (d >>> 16).toUInt8, (d >>> 24).toUInt8⟩

/-- A pixel of a cursor with colours, in which blue comes first. -/
def Rgba.ofArgb (p : UInt32) : Rgba :=
  ⟨(p >>> 16).toUInt8, (p >>> 8).toUInt8, p.toUInt8, (p >>> 24).toUInt8⟩

/-- A colour of a cursor with two of them. -/
def Rgba.solid (red green blue : UInt16) : Rgba :=
  ⟨(red >>> 8).toUInt8, (green >>> 8).toUInt8, (blue >>> 8).toUInt8, 255⟩

/-- A bit of a row of bytes. -/
def rowBit (row : List UInt8) (x : Nat) : Bool := (row.getD (x / 8) 0).toNat.testBit (x % 8)

/-- A row of bits that are padded to 32. -/
def row (bytes : List UInt8) (w y : Nat) : List UInt8 :=
  (bytes.drop (y * BitmapBytePad w)).take (BitmapBytePad w)

/-- The pixel of a cursor at a column and a row. -/
def CursorRec.pixel (cursor : CursorRec) (x y : Nat) : Rgba :=
  let bits := cursor.bits
  let w := bits.width.toNat
  match bits.argb with
  | some argb => Rgba.ofArgb (argb.getD (y * w + x) 0)
  | none =>
    if rowBit (row bits.mask w y) x then
      if rowBit (row bits.source w y) x then
        Rgba.solid cursor.foreRed cursor.foreGreen cursor.foreBlue
      else Rgba.solid cursor.backRed cursor.backGreen cursor.backBlue
    else ⟨0, 0, 0, 0⟩

/-- A cursor for which there is room. -/
def CursorRec.Small (cursor : CursorRec) : Prop :=
  cursor.bits.width < 512 ∧ cursor.bits.height < 512

instance : DecidablePred CursorRec.Small := fun _ => inferInstanceAs (Decidable (_ ∧ _))

/-- The shared state has the size, the hotspot and the pixels of a cursor. -/
structure Shows (c : SharedCursor) (cursor : CursorRec) : Prop where
  width : c.width.toNat = cursor.bits.width.toNat
  height : c.height.toNat = cursor.bits.height.toNat
  xhot : c.xhot.toNat = cursor.bits.xhot.toNat
  yhot : c.yhot.toNat = cursor.bits.yhot.toNat
  room : c.width.toNat * c.height.toNat ≤ 512 * 512
  pixel : ∀ i < c.width.toNat * c.height.toNat,
    Rgba.ofWord (c.bits i) = cursor.pixel (i % c.width.toNat) (i / c.width.toNat)

/-- The shared state is that of a cursor, or of none. -/
def Consistent (c : SharedCursor) : Option CursorRec → Prop
  | some cursor => Shows c cursor
  | none => c.width = 0 ∧ c.height = 0 ∧ c.xhot = 0 ∧ c.yhot = 0

/-- The cursor to display: the root cursor in place of one that is too large. -/
def displayed (rootCursor pCurs : Option CursorRec) : Option CursorRec :=
  match pCurs with
  | some cursor => if cursor.Small then some cursor else rootCursor
  | none => none

/-- Two cursors of the same size, with the same hotspot. -/
structure SameMetrics (a b : CursorBits) : Prop where
  width : a.width = b.width
  height : a.height = b.height
  xhot : a.xhot = b.xhot
  yhot : a.yhot = b.yhot

variable {c : SharedCursor} {cursor : CursorRec} {rootCursor pCurs : Option CursorRec}
  {x0 y0 : Int32}

/-! ## Words -/

/-- The converted word has the channels of the cursor's pixel. -/
theorem ofWord_convertArgb (p : UInt32) : Rgba.ofWord (convertArgb p) = Rgba.ofArgb p := by
  have hred : (convertArgb p).toUInt8 = (p >>> 16).toUInt8 := by
    apply UInt8.toBitVec_inj.mp
    ext i hi
    interval_cases i <;> simp [convertArgb]
  have hgreen : (convertArgb p >>> 8).toUInt8 = (p >>> 8).toUInt8 := by
    apply UInt8.toBitVec_inj.mp
    ext i hi
    interval_cases i <;> simp [convertArgb]
  have hblue : (convertArgb p >>> 16).toUInt8 = p.toUInt8 := by
    apply UInt8.toBitVec_inj.mp
    ext i hi
    interval_cases i <;> simp [convertArgb]
  have halpha : (convertArgb p >>> 24).toUInt8 = (p >>> 24).toUInt8 := by
    apply UInt8.toBitVec_inj.mp
    ext i hi
    interval_cases i <;> simp [convertArgb]
  rw [Rgba.ofWord, Rgba.ofArgb, hred, hgreen, hblue, halpha]

/-- The words of the two colours are opaque and have the colours' upper bytes. -/
theorem ofWord_color (red green blue : UInt16) :
    Rgba.ofWord (color red green blue ||| 0xff000000) = Rgba.solid red green blue := by
  have hred : (color red green blue ||| 0xff000000).toUInt8 = (red >>> 8).toUInt8 := by
    apply UInt8.toBitVec_inj.mp
    ext i hi
    interval_cases i <;> simp [color]
  have hgreen : ((color red green blue ||| 0xff000000) >>> 8).toUInt8 = (green >>> 8).toUInt8 := by
    apply UInt8.toBitVec_inj.mp
    ext i hi
    interval_cases i <;> simp [color]
  have hblue : ((color red green blue ||| 0xff000000) >>> 16).toUInt8 = (blue >>> 8).toUInt8 := by
    apply UInt8.toBitVec_inj.mp
    ext i hi
    interval_cases i <;> simp [color]
  have halpha : ((color red green blue ||| 0xff000000) >>> 24).toUInt8 = 255 := by
    apply UInt8.toBitVec_inj.mp
    ext i hi
    interval_cases i <;> simp [color]
  rw [Rgba.ofWord, Rgba.solid, hred, hgreen, hblue, halpha]

/-! ## Bits -/

/-- The test of a bit in the loop reads the bit of its padded row. -/
theorem test_iff (bytes : List UInt8) {w x : Nat} (y : Nat) (hx : x < w) :
    (bytes.getD (y * BitmapBytePad w + x / 8) 0).toNat &&& 1 <<< (x &&& 7) ≠ 0 ↔ rowBit
    (row bytes w y) x = true := by
  have hpad : x / 8 < BitmapBytePad w := by
    rw [BitmapBytePad]
    omega
  have hmod : x &&& 7 = x % 8 := Nat.and_two_pow_sub_one_eq_mod x 3
  have hbyte : (row bytes w y).getD (x / 8) 0 = bytes.getD (y * BitmapBytePad w + x / 8) 0 := by
    rw [row, List.getD_eq_getElem?_getD, List.getD_eq_getElem?_getD, List.getElem?_take_of_lt hpad,
      List.getElem?_drop]
  rw [rowBit, hbyte, hmod, Nat.one_shiftLeft, Nat.and_two_pow]
  cases (bytes.getD (y * BitmapBytePad w + x / 8) 0).toNat.testBit (x % 8) with
  | true => simp
  | false => simp

/-- The pixels that are written. -/
theorem ofWord_lorieConvertCursor (cursor : CursorRec) (data : Nat → UInt32) {i : Nat}
    (hi : i < cursor.bits.width.toNat * cursor.bits.height.toNat) :
    Rgba.ofWord (lorieConvertCursor cursor data i) =
      cursor.pixel (i % cursor.bits.width.toNat) (i / cursor.bits.width.toNat) := by
  have hx : i % cursor.bits.width.toNat < cursor.bits.width.toNat :=
    Nat.mod_lt _ (Nat.pos_of_lt_mul_right hi)
  cases hargb : cursor.bits.argb with
  | some argb =>
    simp only [lorieConvertCursor, CursorRec.pixel, hargb]
    rw [Raster.fill_apply, if_pos hi, ofWord_convertArgb, Nat.mul_comm, Nat.div_add_mod]
  | none =>
    simp only [lorieConvertCursor, CursorRec.pixel, hargb]
    rw [Raster.putRows_apply, if_pos (Nat.mul_comm .. ▸ hi)]
    simp only [test_iff _ _ hx]
    split
    · split
      · exact ofWord_color _ _ _
      · exact ofWord_color _ _ _
    · rfl

/-! ## The state -/

/-- The size and the hotspot are those of the cursor that was given, and the pixels those of the
other one. -/
theorem shows_converted_iff (c : SharedCursor) (given cursor : CursorRec) (x0 y0 : Int32) :
    Shows (lorieMoveCursor { c with
        xhot := given.bits.xhot.toUInt32
        yhot := given.bits.yhot.toUInt32
        width := given.bits.width.toUInt32
        height := given.bits.height.toUInt32
        bits := lorieConvertCursor cursor c.bits
        updated := true } x0 y0) cursor ↔
      SameMetrics given.bits cursor.bits ∧
        cursor.bits.width.toNat * cursor.bits.height.toNat ≤ 512 * 512 := by
  constructor
  · intro h
    have hwidth : given.bits.width = cursor.bits.width := UInt16.toNat_inj.mp h.width
    have hheight : given.bits.height = cursor.bits.height := UInt16.toNat_inj.mp h.height
    refine ⟨⟨hwidth, hheight, UInt16.toNat_inj.mp h.xhot, UInt16.toNat_inj.mp h.yhot⟩, ?_⟩
    rw [← h.width, ← h.height]
    exact h.room
  · rintro ⟨⟨hwidth, hheight, hxhot, hyhot⟩, hroom⟩
    have hwidth' : given.bits.width.toUInt32.toNat = cursor.bits.width.toNat :=
      congrArg UInt16.toNat hwidth
    have hheight' : given.bits.height.toUInt32.toNat = cursor.bits.height.toNat :=
      congrArg UInt16.toNat hheight
    refine ⟨hwidth', hheight', congrArg UInt16.toNat hxhot, congrArg UInt16.toNat hyhot, ?_,
      fun i hi => ?_⟩
    · show given.bits.width.toUInt32.toNat * given.bits.height.toUInt32.toNat ≤ _
      rwa [hwidth', hheight']
    · replace hi : i < given.bits.width.toUInt32.toNat * given.bits.height.toUInt32.toNat := hi
      show Rgba.ofWord (lorieConvertCursor cursor c.bits i) =
        cursor.pixel (i % given.bits.width.toUInt32.toNat) (i / given.bits.width.toUInt32.toNat)
      rw [hwidth', hheight'] at hi
      rw [hwidth']
      exact ofWord_lorieConvertCursor cursor c.bits hi

theorem CursorRec.Small.area_le (h : cursor.Small) :
    cursor.bits.width.toNat * cursor.bits.height.toNat ≤ 512 * 512 :=
  Nat.mul_le_mul (UInt16.lt_iff_toNat_lt.mp h.1).le (UInt16.lt_iff_toNat_lt.mp h.2).le

/-- **The shared cursor is consistent** unless one is given that is too large, and the root cursor
differs from it in size or hotspot, or is itself larger than there is room for. -/
theorem consistent_iff (rootCursor pCurs : Option CursorRec) (c : SharedCursor) (x0 y0 : Int32) :
    Consistent (lorieSetCursor rootCursor c pCurs x0 y0) (displayed rootCursor pCurs) ↔
      ∀ cursor, pCurs = some cursor → ¬cursor.Small → ∀ root, rootCursor = some root →
        SameMetrics cursor.bits root.bits ∧
          root.bits.width.toNat * root.bits.height.toNat ≤ 512 * 512 := by
  cases pCurs with
  | none => exact ⟨fun _ _ h => (by cases h), fun _ => ⟨rfl, rfl, rfl, rfl⟩⟩
  | some cursor =>
    by_cases hsmall : cursor.Small
    · have hroom : ¬(cursor.bits.width ≥ 512 ∨ cursor.bits.height ≥ 512) :=
        not_or.mpr ⟨UInt16.not_le.mpr hsmall.1, UInt16.not_le.mpr hsmall.2⟩
      simp only [displayed, if_pos hsmall, lorieSetCursor, if_neg hroom, Option.map_some]
      constructor
      · intro _ given hgiven hlarge
        exact absurd (Option.some.inj hgiven ▸ hsmall) hlarge
      · intro _
        exact (shows_converted_iff c cursor cursor x0 y0).mpr ⟨⟨rfl, rfl, rfl, rfl⟩, hsmall.area_le⟩
    · have hlarge : cursor.bits.width ≥ 512 ∨ cursor.bits.height ≥ 512 :=
        (not_and_or.mp hsmall).imp UInt16.not_lt.mp UInt16.not_lt.mp
      simp only [displayed, if_neg hsmall, lorieSetCursor, if_pos hlarge, Option.map_some]
      cases rootCursor with
      | none => exact ⟨fun _ _ _ _ _ h => (by cases h), fun _ => ⟨rfl, rfl, rfl, rfl⟩⟩
      | some root =>
        refine (shows_converted_iff c cursor root x0 y0).trans
          ⟨fun h given hgiven _ other hother => ?_, fun h => ?_⟩
        · rw [← Option.some.inj hgiven, ← Option.some.inj hother]
          exact h
        · exact h cursor rfl hsmall root rfl

/-- A cursor with two colours and all of its bits clear. -/
def blank (width height : UInt16) : CursorRec where
  bits :=
    { source := List.replicate (BitmapBytePad width.toNat * height.toNat) 0
      mask := List.replicate (BitmapBytePad width.toNat * height.toNat) 0
      width
      height
      xhot := 0
      yhot := 0
      argb := none
      source_length := List.length_replicate
      mask_length := List.length_replicate
      argb_length := nofun }
  foreRed := 0
  foreGreen := 0
  foreBlue := 0
  backRed := 0
  backGreen := 0
  backBlue := 0

/-- The state before any cursor is set. -/
def hidden : SharedCursor where
  x := 0
  y := 0
  xhot := 0
  yhot := 0
  width := 0
  height := 0
  bits := fun _ => 0
  updated := false
  moved := false

/-- The size of a cursor of 600 pixels is displayed with the pixels of the root cursor. -/
theorem not_consistent_600 :
    displayed (some (blank 16 16)) (some (blank 600 20)) = some (blank 16 16) ∧
      ¬Consistent (lorieSetCursor (some (blank 16 16)) hidden (some (blank 600 20)) 0 0)
        (some (blank 16 16)) := by
  refine ⟨rfl, fun h => ?_⟩
  exact absurd h.width (by decide)

end WinEmulator.Lorie.Cursor
