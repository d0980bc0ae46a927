import WinEmulator.Lorie.PixmapBuffer

/-!
# What a conversion keeps

A buffer whose memory cannot be allocated is left as it is. But when there is memory the buffer gets
it, and loses its own, whether or not its pixels were copied.
-/

set_option autoImplicit false

namespace WinEmulator.Lorie.PixmapBuffer

open WinEmulator.Lib

/-- Where the pixels of a buffer are. -/
def LorieBuffer.storage (b : LorieBuffer) : Option Block :=
  match b.type with
  | .regular | .fd => b.data
  | .ahardwarebuffer => b.buffer.map AHardwareBuffer.block

def LorieBuffer.pixel (memory : Memory) (b : LorieBuffer) (x y : Nat) : Option UInt32 :=
  b.storage.map fun block => Raster.cell (memory block) b.stride.toNatClampNeg x y

/-- A relation of two buffers, or two images, that holds at each pixel of the one. -/
def LorieBuffer.Everywhere (b : LorieBuffer) (P : Nat → Nat → Prop) : Prop :=
  ∀ x < b.width.toNatClampNeg, ∀ y < b.height.toNatClampNeg, P x y

/-- Nothing is different, or the type is and no pixel. -/
def Preserved (memory : Memory) (b : LorieBuffer) (memory' : Memory) (b' : LorieBuffer) : Prop :=
  (b'.type = b.type ∧ b'.data = b.data ∧ b'.stride = b.stride ∧ ∀ x y,
    b'.pixel memory' x y = b.pixel memory x y) ∨
    (b'.type ≠ b.type ∧ b.Everywhere fun x y => b'.pixel memory' x y = b.pixel memory x y)

/-- The memory, and its stride, that a buffer is given. It is given none if a test or a call before
that fails. -/
def target (b : LorieBuffer) (calls : Calls b.width) (type format : UInt8) :
    Option (Block × Int32) :=
  if b.type = .regular ∧
      (format = AHARDWAREBUFFER_FORMAT_R8G8B8X8_UNORM ∨
        format = AHARDWAREBUFFER_FORMAT_B8G8R8A8_UNORM) then
    match BufferType.ofCode type with
    | some .fd =>
      if calls.createRegion < 0 then none else calls.mmap.map fun data => (data, b.stride)
    | some .ahardwarebuffer =>
      calls.AHardwareBuffer_allocate.map fun buffer => (buffer.block, buffer.stride)
    | _ => none
  else none

/-- The calls that copy pixels return no error. -/
def Copies {width : Int32} (calls : Calls width) (type : UInt8) : Prop :=
  calls.pixman_blt = true ∧
    (BufferType.ofCode type = some .ahardwarebuffer → calls.AHardwareBuffer_lock.error = 0)

instance {width : Int32} (calls : Calls width) (type : UInt8) : Decidable (Copies calls type) :=
  inferInstanceAs (Decidable (_ ∧ _))

variable {memory : Memory} {b : LorieBuffer} {calls : Calls b.width} {type format : UInt8}
  {block : Block} {stride : Int32}

/-! ## A step of the conversion -/

theorem LorieBuffer.pixel_regular (htype : b.type = .regular) {data : Block}
    (hdata : b.data = some data) (x y : Nat) :
    b.pixel memory x y = some (Raster.cell (memory data) b.width.toNatClampNeg x y) := by
  rw [pixel, storage, htype, (b.regular htype).1]
  exact congrArg _ hdata

/-- The memory after the pixels were copied, or not. -/
def copied (memory : Memory) (b : LorieBuffer) (data block : Block) (stride : Int32) : Memory :=
  Function.update memory block
    (Raster.copyRows (memory data) (memory block) b.width.toNatClampNeg stride.toNatClampNeg
    b.width.toNatClampNeg b.height.toNatClampNeg)

/-- The test at the start of the conversion. -/
theorem not_guard_iff :
    ¬(b.type ≠ .regular ∨
        (BufferType.ofCode type ≠ some .fd ∧ BufferType.ofCode type ≠ some .ahardwarebuffer) ∨
        (format ≠ AHARDWAREBUFFER_FORMAT_R8G8B8X8_UNORM ∧
          format ≠ AHARDWAREBUFFER_FORMAT_B8G8R8A8_UNORM)) ↔
      (b.type = .regular ∧
        (format = AHARDWAREBUFFER_FORMAT_R8G8B8X8_UNORM ∨
          format = AHARDWAREBUFFER_FORMAT_B8G8R8A8_UNORM)) ∧
      (BufferType.ofCode type = some .fd ∨ BufferType.ofCode type = some .ahardwarebuffer) := by
  simp only [not_or, not_and_or, ne_eq, not_not]
  exact ⟨fun ⟨hregular, htype, hformat⟩ => ⟨⟨hregular, hformat⟩, htype⟩,
    fun ⟨⟨hregular, hformat⟩, htype⟩ => ⟨hregular, htype, hformat⟩⟩

/-- A buffer that is given no memory is left as it is. -/
theorem convert_of_target_none (h : target b calls type format = none) :
    LorieBuffer_convert memory b calls type format = (memory, b) := by
  unfold LorieBuffer_convert
  split
  case isTrue => rfl
  case isFalse hguard =>
    obtain ⟨hregular, hfd | hhardware⟩ := not_guard_iff.mp hguard
    · rw [target, if_pos hregular, hfd] at h
      rw [if_pos hfd]
      by_cases hregion : calls.createRegion < 0
      · exact if_pos hregion
      · replace h := (if_neg hregion).symm.trans h
        rw [Option.map_eq_none_iff] at h
        simp only [if_neg hregion, h]
    · rw [target, if_pos hregular, hhardware, Option.map_eq_none_iff] at h
      rw [if_neg (by rw [hhardware]; decide), h]

/-- The copy is of the whole picture or of nothing. -/
theorem pixman_blt_eq (done : Bool) (data block : Block) (stride : Int32) :
    pixman_blt done memory (some data) (some block) b.width stride b.width b.height =
      if done then copied memory b data block stride else memory :=
  rfl

/-- What a buffer is that was given memory, and what is in it. -/
structure Given (memory : Memory) (b : LorieBuffer) (block : Block) (newStride : Int32)
    (copies : Prop) (memory' : Memory)
    (b' : LorieBuffer) : Prop where
  type : b'.type ≠ .regular
  storage : b'.storage = some block
  stride : b'.stride = newStride
  copied : copies → ∃ data, b.data = some data ∧ memory' = copied memory b data block newStride
  not_copied : ¬copies → memory' = memory

/-- A conversion that finds its memory hands the pixels to the new buffer. -/
theorem convert_of_target (memory : Memory)
    (h : target b calls type format = some (block, stride)) :
    b.type = .regular ∧ b.width ≤ stride ∧
      Given memory b block stride (Copies calls type)
        (LorieBuffer_convert memory b calls type format).1
        (LorieBuffer_convert memory b calls type format).2 := by
  unfold target at h
  split at h
  case isFalse => cases h
  case isTrue hregular =>
    obtain ⟨hstride, hdata⟩ := b.regular hregular.1
    obtain ⟨data, hdata⟩ := Option.ne_none_iff_exists'.mp hdata
    split at h
    case h_1 hfd =>
      split at h
      case isTrue => cases h
      case isFalse hregion =>
        obtain ⟨new, hmmap, hnew⟩ := Option.map_eq_some_iff.mp h
        obtain ⟨rfl, rfl⟩ := Prod.mk.inj hnew
        have hguard := not_guard_iff.mpr ⟨hregular, .inl hfd⟩
        have hcopies : Copies calls type ↔ calls.pixman_blt = true := by
          rw [Copies, hfd]
          exact and_iff_left nofun
        refine ⟨hregular.1, hstride ▸ Int32.le_refl _, ?_⟩
        simp only [LorieBuffer_convert, if_neg hguard, if_pos hfd, if_neg hregion, hmmap, hcopies]
        refine ⟨nofun, rfl, rfl, fun hdone => ⟨data, hdata, ?_⟩, fun hdone => ?_⟩
        · rw [hdata, hstride, pixman_blt_eq, if_pos hdone]
        · rw [hdata, hstride, pixman_blt_eq, if_neg hdone]
    case h_2 hhardware =>
      obtain ⟨new, hallocate, hnew⟩ := Option.map_eq_some_iff.mp h
      obtain ⟨rfl, rfl⟩ := Prod.mk.inj hnew
      have hguard := not_guard_iff.mpr ⟨hregular, .inr hhardware⟩
      have hfd : BufferType.ofCode type ≠ some .fd := by
        rw [hhardware]
        exact nofun
      refine ⟨hregular.1, new.width_le_stride, ?_⟩
      simp only [LorieBuffer_convert, if_neg hguard, if_neg hfd, hallocate, AHardwareBuffer_lock,
        Option.map_some]
      refine ⟨nofun, rfl, rfl, fun hcopies => ⟨data, hdata, ?_⟩, fun hcopies => ?_⟩
      · rw [if_pos (hcopies.2 hhardware), if_pos (hcopies.2 hhardware), hdata, hstride,
          pixman_blt_eq, if_pos hcopies.1]
      · split
        case isTrue hlock =>
          have hdone : ¬calls.pixman_blt = true := fun hdone => hcopies ⟨hdone, fun _ => hlock⟩
          rw [hdata, hstride, pixman_blt_eq, if_neg hdone]
        case isFalse => rfl
    case h_3 => cases h

/-! ## The pixels -/

/-- The pixels of that buffer are those of its memory. -/
theorem LorieBuffer.pixel_of_given {copies : Prop} {memory' : Memory} {b' : LorieBuffer}
    (h : Given memory b block stride copies memory' b') (x y : Nat) :
    b'.pixel memory' x y = some (Raster.cell (memory' block) stride.toNatClampNeg x y) := by
  rw [pixel, h.storage, h.stride, Option.map_some]

/-- **A conversion preserves a buffer** if it gives it no memory, copies its pixels there, or finds
them there. -/
theorem preserved_iff (memory : Memory) (b : LorieBuffer) (calls : Calls b.width)
    (type format : UInt8) :
    Preserved memory b (LorieBuffer_convert memory b calls type format).1
        (LorieBuffer_convert memory b calls type format).2 ↔
      ∀ block stride, target b calls type format = some (block, stride) → Copies calls type ∨
        b.Everywhere fun x y => some (Raster.cell (memory block) stride.toNatClampNeg x y) =
          b.pixel memory x y := by
  cases htarget : target b calls type format with
  | none =>
    rw [convert_of_target_none htarget]
    exact ⟨fun _ _ _ => nofun, fun _ => .inl ⟨rfl, rfl, rfl, fun _ _ => rfl⟩⟩
  | some given =>
    obtain ⟨block, stride⟩ := given
    obtain ⟨hregular, hstride, hgiven⟩ := convert_of_target memory htarget
    have hne : (LorieBuffer_convert memory b calls type format).2.type ≠ b.type :=
      hregular ▸ hgiven.type
    constructor
    · rintro (⟨heq, -⟩ | ⟨-, hpixel⟩) block' stride' hsome
      · exact absurd heq hne
      · obtain ⟨rfl, rfl⟩ := Prod.mk.inj (Option.some.inj hsome)
        refine or_iff_not_imp_left.mpr fun hcopies x hx y hy => ?_
        show some (Raster.cell (memory block) stride.toNatClampNeg x y) = b.pixel memory x y
        rw [← hpixel x hx y hy, LorieBuffer.pixel_of_given hgiven, hgiven.not_copied hcopies]
    · intro h
      refine .inr ⟨hne, fun x hx y hy => ?_⟩
      show (LorieBuffer_convert memory b calls type format).2.pixel _ x y = b.pixel memory x y
      rw [LorieBuffer.pixel_of_given hgiven]
      by_cases hcopies : Copies calls type
      · obtain ⟨data, hdata, hcopied⟩ := hgiven.copied hcopies
        have hle : b.width.toNatClampNeg ≤ stride.toNatClampNeg :=
          Int.toNat_le_toNat (Int32.le_iff_toInt_le.mp hstride)
        rw [hcopied, copied, Function.update_self, Raster.cell_copyRows _ _ _ hle hx hy,
          LorieBuffer.pixel_regular hregular hdata]
      · rw [hgiven.not_copied hcopies]
        exact (h block stride rfl).resolve_left hcopies x hx y hy

/-- A buffer with one pixel. -/
def onePixel (data : Block) : LorieBuffer where
  width := 1
  height := 1
  stride := 1
  format := AHARDWAREBUFFER_FORMAT_B8G8R8A8_UNORM
  type := .regular
  id := 0
  buffer := none
  data := some data
  locked := true
  lockedData := some data
  fd := -1
  size := 0
  offset := 0
  regular := fun _ => ⟨rfl, nofun⟩

/-- A hardware buffer that cannot be locked. -/
def unlockable (block : Block) : Calls 1 where
  page_size := 4096
  createRegion := -1
  mmap := none
  AHardwareBuffer_allocate := some ⟨block, 16, by decide⟩
  AHardwareBuffer_lock := ⟨-22, none⟩
  pixman_blt := true

def whiteAt (data : Block) : Memory := fun block _ => if block = data then 0xffffffff else 0

/-- The pixel is lost with the memory it is in. -/
theorem not_preserved_onePixel :
    ¬Preserved (whiteAt 0) (onePixel 0)
      (LorieBuffer_convert (whiteAt 0) (onePixel 0)
        (unlockable 1) 3 AHARDWAREBUFFER_FORMAT_B8G8R8A8_UNORM).1
      (LorieBuffer_convert (whiteAt 0) (onePixel 0)
        (unlockable 1) 3 AHARDWAREBUFFER_FORMAT_B8G8R8A8_UNORM).2 := by
  rintro (⟨htype, -⟩ | ⟨-, hpixel⟩)
  · cases htype
  · exact absurd (hpixel 0 (by decide) 0 (by decide)) (by decide)

end WinEmulator.Lorie.PixmapBuffer
