import Mathlib.Tactic.Linarith
import WinEmulator.Laws.Lorie.BufferConversion
import WinEmulator.Lorie.BufferAllocate

/-!
# What the storage of a buffer holds

The product of the stride and the height is one of two `int`s, and the client chooses the stride.
The pixels lie in the storage as long as the one does not overflow and the other is no less than the
width.
-/

set_option autoImplicit false

namespace WinEmulator.Lorie.PixmapBuffer

/-- How many bytes there are at the pixels of a buffer. -/
def LorieBuffer.bytes (sizes : Sizes) (b : LorieBuffer) : Option Nat :=
  (b.data.bind sizes).map UInt64.toNat

/-- The storage is as large as the pixels, or rounded up from that, and each pixel lies in it. -/
def Stored (rounded : Nat → Nat) (sizes : Sizes) (b : LorieBuffer) : Prop :=
  ∃ n, b.bytes sizes = some n ∧ n = rounded (b.stride.toNatClampNeg * b.height.toNatClampNeg * 4) ∧
    b.Everywhere fun x y => y * (b.stride.toNatClampNeg * 4) + (x + 1) * 4 ≤ n

/-! ## The size in bytes -/

/-- The size is rounded up by less than a page. -/
theorem le_alignToPage (page : PageSize) (size : Nat) :
    size ≤ alignToPage page.bytes size ∧ alignToPage page.bytes size < size + 65536 := by
  have hpos : 0 < page.bytes := Nat.two_pow_pos _
  have hle : page.bytes ≤ 65536 := Nat.pow_le_pow_right (n := 2) (by decide) page.bits_le
  have hdiv := Nat.div_add_mod' (size + page.bytes - 1) page.bytes
  have hmod := Nat.mod_lt (size + page.bytes - 1) hpos
  unfold alignToPage
  omega

/-- The product is taken in 32 bits before it is a size. -/
theorem toNat_pixelBytes (stride height : Int32) :
    ((pixelBytes stride height).toNat : Int) =
    ((stride.toInt * height.toInt).bmod (2 ^ 32) * 4) % 2 ^ 64 := by
  have hcast (a : Int64) : (a.toUInt64.toNat : Int) = a.toInt % 2 ^ 64 := by
    have h : a.toInt = (a.toUInt64.toNat : Int).bmod (2 ^ 64) :=
      BitVec.toInt_eq_toNat_bmod a.toBitVec
    have hlt := a.toUInt64.toNat_lt
    rw [h, Int.bmod_def]
    split <;> omega
  have h4 : (4 : UInt64).toNat = 4 := rfl
  rw [pixelBytes, UInt64.toNat_mul, Int.natCast_mod, Nat.cast_mul, hcast, Int32.toInt_toInt64,
    Int32.toInt_mul, h4]
  push_cast
  omega

variable {stride height : Int32}

/-- What the pixels take, as mathematical numbers. -/
theorem pixels_le (stride height : Int32) :
    stride.toNatClampNeg * height.toNatClampNeg ≤ (2 ^ 31 - 1) * (2 ^ 31 - 1) := by
  have hle (a : Int32) : a.toNatClampNeg ≤ 2 ^ 31 - 1 := by
    have hlt := a.toInt_lt
    have hnat := Int32.toNat_toInt a
    omega
  exact Nat.mul_le_mul (hle stride) (hle height)

/-- A product that overflows is a smaller one, or a negative one that becomes a huge size. -/
theorem pixelBytes_cases (hstride : 0 ≤ stride) (hheight : 0 ≤ height) :
    let pixels := stride.toNatClampNeg * height.toNatClampNeg
    let bytes := (pixelBytes stride height).toNat
    (pixels < 2 ^ 31 ∧ bytes = pixels * 4) ∨
      (2 ^ 31 ≤ pixels ∧ bytes < 2 ^ 33 ∧ bytes + 2 ^ 34 ≤ pixels * 4) ∨
      (2 ^ 31 ≤ pixels ∧ 2 ^ 64 ≤ bytes + 2 ^ 33) := by
  intro pixels bytes
  have hle : pixels ≤ (2 ^ 31 - 1) * (2 ^ 31 - 1) := pixels_le stride height
  have hbytes : (bytes : Int) = ((stride.toInt * height.toInt).bmod (2 ^ 32) * 4) % 2 ^ 64 :=
    toNat_pixelBytes stride height
  have hpixels : stride.toInt * height.toInt = pixels := by
    rw [Nat.cast_mul, Int32.cast_toNatClampNeg _ hstride, Int32.cast_toNatClampNeg _ hheight]
  rw [hpixels, Int.bmod_def] at hbytes
  split at hbytes <;> omega

/-- The size is right if and only if the pixels are fewer than `2 ^ 31`. -/
theorem pixelBytes_eq_iff (hstride : 0 ≤ stride) (hheight : 0 ≤ height) :
    (pixelBytes stride height).toNat = stride.toNatClampNeg * height.toNatClampNeg * 4 ↔
      stride.toNatClampNeg * height.toNatClampNeg < 2 ^ 31 := by
  have hle := pixels_le stride height
  have hcases := pixelBytes_cases hstride hheight
  omega

/-- The same for the rounded size. -/
theorem alignToPage_eq_iff (page : PageSize) (hstride : 0 ≤ stride) (hheight : 0 ≤ height) :
    (UInt64.ofNat (alignToPage page.bytes (pixelBytes stride height).toNat)).toNat =
        alignToPage page.bytes (stride.toNatClampNeg * height.toNatClampNeg * 4) ↔
      stride.toNatClampNeg * height.toNatClampNeg < 2 ^ 31 := by
  have hle := pixels_le stride height
  have hexact := pixelBytes_eq_iff hstride hheight
  have hcases := pixelBytes_cases hstride hheight
  have hbytes := le_alignToPage page (pixelBytes stride height).toNat
  have hlt := (pixelBytes stride height).toNat_lt
  have hpixels := le_alignToPage page (stride.toNatClampNeg * height.toNatClampNeg * 4)
  rw [UInt64.toNat_ofNat']
  constructor
  · omega
  · intro h
    rw [hexact.mpr h] at hbytes ⊢
    omega

/-! ## What `allocate` makes -/

/-- A buffer as it was asked for, with its size in bytes. -/
structure Made (sizes : Sizes) (b : LorieBuffer) (width stride height : Int32) (size : UInt64) :
    Prop where
  width_eq : b.width = width
  stride_eq : b.stride = stride
  height_eq : b.height = height
  width_pos : 0 < width
  height_pos : 0 < height
  bytes_eq : b.bytes sizes = some size.toNat

variable {calls : AllocateCalls} {size : UInt64} {sizes sizes' : Sizes} {id : BufferId}
  {b : LorieBuffer} {width : Int32}
  {format type : UInt8}

theorem keep_some {block : Block} {buffer : LorieBuffer}
    (h : keep calls sizes block size buffer = (sizes', some b)) :
    b = buffer ∧ sizes' block = some size := by
  unfold keep at h
  split at h
  · cases h
    exact ⟨rfl, Function.update_self ..⟩
  · cases h

/-- What `allocate` returns is made of its arguments. -/
theorem allocate_made {buf : Option HardwareBuffer} {fd : Int32} {storage : UInt64} {offset : Int64}
    {takeFd : Bool}
    {regular : BufferType.ofCode type = some .regular → stride = width}
    (htype : BufferType.ofCode type = some .regular ∧ storage = pixelBytes stride height ∨
      BufferType.ofCode type = some .fd ∧ storage = size)
    (h : allocate calls sizes id width stride height format type buf fd size offset takeFd regular =
      (sizes', some b)) :
    Made sizes' b width stride height storage := by
  unfold allocate at h
  extract_lets _ at h
  split at h
  · cases h
  next hacceptable =>
    have hpos : 0 < width ∧ 0 < height := by
      by_contra hneg
      apply hacceptable
      refine ⟨?_, fun hok => hneg hok.2⟩
      rcases htype with ⟨h, -⟩ | ⟨h, -⟩
      · rw [h]
        decide
      · rw [h]
        decide
    split at h
    next hregular =>
      split at h
      · cases h
      next data _ =>
        obtain ⟨rfl, hsize⟩ := keep_some h
        have hstorage : storage = pixelBytes stride height := by
          rcases htype with ⟨_, h⟩ | ⟨h, _⟩
          · exact h
          · rw [hregular] at h
            cases h
        refine ⟨rfl, rfl, rfl, hpos.1, hpos.2, ?_⟩
        rw [hstorage]
        exact congrArg (Option.map UInt64.toNat) hsize
    next hfd =>
      split at h
      · cases h
      · split at h
        · cases h
        next data _ =>
          obtain ⟨rfl, hsize⟩ := keep_some h
          have hstorage : storage = size := by
            rcases htype with ⟨h, _⟩ | ⟨_, h⟩
            · rw [hfd] at h
              cases h
            · exact h
          refine ⟨rfl, rfl, rfl, hpos.1, hpos.2, ?_⟩
          rw [hstorage]
          exact congrArg (Option.map UInt64.toNat) hsize
    next hhardware => rcases htype with ⟨h, -⟩ | ⟨h, -⟩ <;> rw [hhardware] at h <;> cases h
    next hnone => rcases htype with ⟨h, -⟩ | ⟨h, -⟩ <;> rw [hnone] at h <;> cases h

/-! ## When the pixels are stored -/

/-- The pixel at the end of the last row decides. -/
theorem Made.everywhere_iff (made : Made sizes b width stride height size) :
    (b.Everywhere fun x y => y * (b.stride.toNatClampNeg * 4) + (x + 1) * 4 ≤
        b.stride.toNatClampNeg * b.height.toNatClampNeg * 4) ↔
      width.toNatClampNeg ≤ stride.toNatClampNeg := by
  have hwidth : 0 < width.toNatClampNeg := by
    have := Int32.toNatClampNeg_eq_zero_iff.not.mpr (Int32.not_le.mpr made.width_pos)
    omega
  have hheight : 0 < height.toNatClampNeg := by
    have := Int32.toNatClampNeg_eq_zero_iff.not.mpr (Int32.not_le.mpr made.height_pos)
    omega
  unfold LorieBuffer.Everywhere
  rw [made.width_eq, made.stride_eq, made.height_eq]
  generalize width.toNatClampNeg = w at *
  generalize height.toNatClampNeg = h at *
  generalize stride.toNatClampNeg = s at *
  constructor
  · intro hall
    obtain ⟨y, rfl⟩ := Nat.exists_eq_add_of_lt hheight
    have hlast := hall (w - 1) (by omega) y (by omega)
    rw [Nat.zero_add, Nat.mul_add, Nat.mul_one, ← Nat.mul_assoc, Nat.mul_comm y s,
      Nat.sub_add_cancel hwidth] at hlast
    omega
  · intro hle x hx y hy
    have hrow : s * (y + 1) ≤ s * h := Nat.mul_le_mul_left s hy
    rw [Nat.mul_add, Nat.mul_one] at hrow
    rw [← Nat.mul_assoc, Nat.mul_comm y s]
    omega

theorem Made.stored_iff (made : Made sizes b width stride height (pixelBytes stride height))
    (hstride : 0 ≤ stride) :
    Stored (fun n => n) sizes b ↔
      width.toNatClampNeg ≤ stride.toNatClampNeg ∧
        stride.toNatClampNeg * height.toNatClampNeg < 2 ^ 31 := by
  have hheight : 0 ≤ height := Int32.le_of_lt made.height_pos
  constructor
  · rintro ⟨n, hn, rfl, hpixels⟩
    refine ⟨made.everywhere_iff.mp hpixels, ?_⟩
    apply (pixelBytes_eq_iff hstride hheight).mp
    rw [made.bytes_eq, made.stride_eq, made.height_eq] at hn
    exact Option.some.inj hn
  · intro ⟨hle, hlt⟩
    refine ⟨_, ?_, rfl, made.everywhere_iff.mpr hle⟩
    rw [made.bytes_eq, made.stride_eq, made.height_eq, (pixelBytes_eq_iff hstride hheight).mpr hlt]

theorem Made.stored_alignToPage_iff {page : PageSize}
    (made : Made sizes b width width height
      (UInt64.ofNat (alignToPage page.bytes (pixelBytes width height).toNat))) :
    Stored (alignToPage page.bytes) sizes b ↔
      width.toNatClampNeg * height.toNatClampNeg < 2 ^ 31 := by
  have hwidth : 0 ≤ width := Int32.le_of_lt made.width_pos
  have hheight : 0 ≤ height := Int32.le_of_lt made.height_pos
  constructor
  · rintro ⟨n, hn, rfl, -⟩
    apply (alignToPage_eq_iff page hwidth hheight).mp
    rw [made.bytes_eq, made.stride_eq, made.height_eq] at hn
    exact Option.some.inj hn
  · intro hlt
    refine ⟨_, ?_, rfl, fun x hx y hy => ?_⟩
    · rw [made.bytes_eq, made.stride_eq, made.height_eq,
        (alignToPage_eq_iff page hwidth hheight).mpr hlt]
    · exact (made.everywhere_iff.mpr le_rfl x hx y hy).trans (le_alignToPage page _).1

/-! ## The two ways to get one -/

/-- A regular buffer gets the bytes of its pixels. -/
theorem LorieBuffer_allocate_regular (htype : BufferType.ofCode type = some .regular)
    (h : LorieBuffer_allocate calls sizes id width height format type = (sizes', some b)) :
    Made sizes' b width width height (pixelBytes width height) := by
  unfold LorieBuffer_allocate at h
  rw [if_neg (by rw [htype]; nofun), if_neg (by rw [htype]; nofun)] at h
  exact allocate_made (.inl ⟨htype, rfl⟩) h

/-- A shared buffer gets the bytes of its pixels, rounded up to pages. -/
theorem LorieBuffer_allocate_fd (htype : BufferType.ofCode type = some .fd)
    (h : LorieBuffer_allocate calls sizes id width height format type = (sizes', some b)) :
    Made sizes' b width width height
      (UInt64.ofNat (alignToPage calls.page_size.bytes (pixelBytes width height).toNat)) := by
  unfold LorieBuffer_allocate at h
  rw [if_pos htype] at h
  extract_lets _ fd at h
  split at h
  · cases h
  · exact allocate_made (.inr ⟨htype, rfl⟩) h

theorem toInt32_of_lt {a : UInt32} (h : a.toNat < 2 ^ 31) :
    0 ≤ a.toInt32 ∧ a.toInt32.toNatClampNeg = a.toNat := by
  have hint : a.toInt32.toInt = (a.toNat : Int).bmod (2 ^ 32) :=
    BitVec.toInt_eq_toNat_bmod a.toBitVec
  rw [Int.bmod_eq_of_le (by omega) (by omega)] at hint
  constructor
  · rw [Int32.le_iff_toInt_le, hint]
    exact Int.natCast_nonneg _
  · rw [← Int32.toNat_toInt, hint, Int.toNat_natCast]

@[simp] theorem Pixmap.modifySize_priv (pixmap : Pixmap) (width height : UInt16) (devKind : Int32) :
    (pixmap.modifySize width height devKind).priv = pixmap.priv := by
  unfold Pixmap.modifySize Pixmap.modifyHeader
  split <;> split <;> split <;> rfl

/-- The buffer of a pixmap that wraps a descriptor. -/
theorem loriePixmapFromFds_made {created : Option Pixmap} {received : Option HardwareBuffer}
    {num_fds : UInt8}
    {fd : Int32} {width height : UInt16} {stride offset : UInt32} {pixmap : Pixmap}
    (h : loriePixmapFromFds calls sizes id created received num_fds fd width height stride offset
      RAW_MMAPPABLE_FD =
      (sizes', some pixmap)) :
    ∃ b, pixmap.priv.bind LoriePixmapPriv.buffer = some b ∧
      Made sizes' b width.toUInt32.toInt32 (stride / 4).toInt32 height.toUInt32.toInt32
        (pixelBytes (stride / 4).toInt32 height.toUInt32.toInt32) := by
  unfold loriePixmapFromFds at h
  split at h
  · cases h
  · rw [if_neg (fun hmodifier => hmodifier.1 rfl)] at h
    split at h
    · cases h
    · split at h
      · cases h
      · rw [if_pos (.inr rfl)] at h
        split at h
        · cases h
        next buffer hwrap =>
          cases h
          exact ⟨buffer, by rw [Pixmap.modifySize_priv]; rfl, allocate_made (.inr ⟨rfl, rfl⟩) hwrap⟩

/-- The storage of a buffer has the size of its pixels, with each of them in it, exactly when their
number is less than 2³¹ and, for a buffer over the descriptor of a client, the rows are no shorter
than the width. -/
theorem pixels_stored_iff (calls : AllocateCalls) (sizes sizes' : Sizes) (id : BufferId) :
    (∀ (created : Option Pixmap) (received : Option HardwareBuffer) (num_fds : UInt8) (fd : Int32)
      (width height : UInt16)
        (stride offset : UInt32) (pixmap : Pixmap),
      loriePixmapFromFds calls sizes id created received num_fds fd width height stride offset
        RAW_MMAPPABLE_FD =
        (sizes', some pixmap) →
      ∃ b, pixmap.priv.bind LoriePixmapPriv.buffer = some b ∧ (Stored (fun n => n) sizes' b ↔
        width.toNat ≤ stride.toNat / 4 ∧ stride.toNat / 4 * height.toNat < 2 ^ 31)) ∧
    (∀ (width height : Int32) (format type : UInt8) (b : LorieBuffer),
      LorieBuffer_allocate calls sizes id width height format type = (sizes', some b) →
      (BufferType.ofCode type = some .regular →
        (Stored (fun n => n) sizes' b ↔ width.toNatClampNeg * height.toNatClampNeg < 2 ^ 31)) ∧
      (BufferType.ofCode type = some .fd →
        (Stored (alignToPage calls.page_size.bytes) sizes' b ↔
          width.toNatClampNeg * height.toNatClampNeg < 2 ^ 31))) := by
  constructor
  · intro created received num_fds fd width height stride offset pixmap h
    obtain ⟨b, hb, made⟩ := loriePixmapFromFds_made h
    have hdiv : (stride / 4).toNat = stride.toNat / 4 := rfl
    have hstride := toInt32_of_lt (a := stride / 4) (by have := stride.toNat_lt; omega)
    have hwidth :=
      toInt32_of_lt (a := width.toUInt32)
      (by have := width.toNat_lt; rw [UInt16.toNat_toUInt32]; omega)
    have hheight :=
      toInt32_of_lt (a := height.toUInt32)
        (by have := height.toNat_lt; rw [UInt16.toNat_toUInt32]; omega)
    refine ⟨b, hb, ?_⟩
    rw [made.stored_iff hstride.1, hstride.2, hwidth.2, hheight.2, UInt16.toNat_toUInt32,
      UInt16.toNat_toUInt32, hdiv]
  · intro width height format type b h
    constructor
    · intro htype
      have made := LorieBuffer_allocate_regular htype h
      rw [made.stored_iff (Int32.le_of_lt made.width_pos)]
      exact and_iff_right le_rfl
    · intro htype
      exact (LorieBuffer_allocate_fd htype h).stored_alignToPage_iff

/-- Calls that succeed, but for a mapping of no bytes. -/
def succeeding : AllocateCalls where
  page_size := ⟨12, by decide⟩
  dup := fun fd => fd
  createRegion := fun _ => 5
  calloc := fun _ => some 1
  mmap := fun size _ _ => if size = 0 then none else some 1
  calloc_buffer := true
  AHardwareBuffer_allocate := fun _ _ _ => none

/-- A pixmap of no size. -/
def emptyPixmap : Pixmap where
  width := 0
  height := 0
  devKind := 0
  priv := some ⟨none, false, false, none, none⟩

theorem pixels_stored_iff_succeeding :
    (∃ pixmap b,
      (loriePixmapFromFds succeeding (fun _ => none) 0 (some emptyPixmap) none 1 3 8 2 32 0
        RAW_MMAPPABLE_FD).2 = some pixmap ∧ pixmap.priv.bind LoriePixmapPriv.buffer = some b ∧
      Stored (fun n => n) (Function.update (fun _ => none) 1 (some 64)) b) ∧
    (∃ b, (LorieBuffer_allocate succeeding (fun _ => none) 0 8 2 5 1).2 = some b ∧
      Stored (fun n => n) (Function.update (fun _ => none) 1 (some 64)) b) ∧
    ∃ b, (LorieBuffer_allocate succeeding (fun _ => none) 0 8 2 5 2).2 = some b ∧
      Stored (alignToPage 4096) (Function.update (fun _ => none) 1 (some 4096)) b := by
  have law := pixels_stored_iff succeeding (fun _ => none)
  refine ⟨?_, ?_, ?_⟩
  · obtain ⟨b, hb, hiff⟩ := (law _ 0).1 (some emptyPixmap) none 1 3 8 2 32 0 _ rfl
    exact ⟨_, b, rfl, hb, hiff.mpr (by decide)⟩
  · exact ⟨_, rfl, (((law _ 0).2 8 2 5 1 _ rfl).1 rfl).mpr (by decide)⟩
  · exact ⟨_, rfl, (((law _ 0).2 8 2 5 2 _ rfl).2 rfl).mpr (by decide)⟩

/-- A client asks for rows of one pixel, and 2¹⁶ rows of 2¹⁶ + 1 pixels are no more than one of
them. -/
theorem pixels_not_stored :
    (∃ sizes pixmap b,
      loriePixmapFromFds succeeding (fun _ => none) 0 (some emptyPixmap) none 1 3 64 64 4 0
        RAW_MMAPPABLE_FD = (sizes, some pixmap) ∧ pixmap.priv.bind LoriePixmapPriv.buffer = some b ∧
      ¬Stored (fun n => n) sizes b) ∧
    ∃ sizes b, LorieBuffer_allocate succeeding (fun _ => none) 0 65537 65536 5 1 = (sizes, some b) ∧
      ¬Stored (fun n => n) sizes b := by
  constructor
  · refine ⟨_, _, _, rfl, rfl, fun ⟨n, hn, _, hpixels⟩ => ?_⟩
    cases hn
    exact absurd (hpixels 63 (by decide) 63 (by decide)) (by decide)
  · refine ⟨_, _, rfl, fun ⟨n, hn, hsize, _⟩ => ?_⟩
    cases hn
    exact absurd hsize (by decide)

end WinEmulator.Lorie.PixmapBuffer
