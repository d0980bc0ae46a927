import Mathlib.Data.List.Basic
import Mathlib.Tactic.Ring

/-!
# Byte images of C objects

A C object in memory is a run of bytes. A field of it is a little-endian number at an offset with a
width, and the bytes between fields are padding that no field names. `Image n` is such a run of
exactly `n` bytes, `put` writes one field over it and `get` reads one back.

What the rest of the development needs of an image is how the two compose: a field reads back what
was put there, reduced to its width (`get_put_same`), and a put leaves every field it does not
overlap as it was (`get_put_of_disjoint`). Nothing is said of padding: an object is always built by
puts over an arbitrary image, so a law about it holds whatever the padding held.
-/

set_option autoImplicit false

namespace WinEmulator.Lib

/-- The `w` low bytes of `n`, least significant first. -/
def le : Nat → Nat → List UInt8
  | 0, _ => []
  | w + 1, n => UInt8.ofNat n :: le w (n / 256)

/-- The number a little-endian run of bytes spells. -/
def ofLe : List UInt8 → Nat
  | [] => 0
  | b :: bs => b.toNat + 256 * ofLe bs

@[simp] theorem le_length (w n : Nat) : (le w n).length = w := by
  induction w generalizing n with
  | zero => rfl
  | succ w ih => simp only [le, List.length_cons, ih]

/-- Reading back the `w` low bytes of `n` gives `n` modulo `256 ^ w`. -/
theorem ofLe_le (w n : Nat) : ofLe (le w n) = n % 256 ^ w := by
  induction w generalizing n with
  | zero => simp only [le, ofLe, pow_zero, Nat.mod_one]
  | succ w ih =>
    have split : n % 256 ^ (w + 1) = n % 256 + 256 * (n / 256 % 256 ^ w) := by
      rw [pow_succ, Nat.mul_comm, Nat.mod_mul]
    simp only [le, ofLe, ih, UInt8.toNat_ofNat', split]

/-- A C object of `n` bytes. -/
structure Image (n : Nat) where
  bytes : List UInt8
  length_eq : bytes.length = n
deriving DecidableEq

namespace Image

variable {n : Nat}

/-- Two images with the same bytes are the same image. -/
theorem ext_bytes {i j : Image n} (h : i.bytes = j.bytes) : i = j := by
  cases i
  cases j
  cases h
  rfl

/-- The field of `w` bytes at `off`. -/
def get (i : Image n) (off w : Nat) : Nat := ofLe ((i.bytes.drop off).take w)

/-- Write `v` into the field of `w` bytes at `off`. -/
def put (i : Image n) (off w v : Nat) (h : off + w ≤ n) : Image n where
  bytes := i.bytes.take off ++ le w v ++ i.bytes.drop (off + w)
  length_eq := by
    have := i.length_eq
    simp only [List.length_append, List.length_take, List.length_drop, le_length]
    omega

theorem put_bytes (i : Image n) (off w v : Nat) (h : off + w ≤ n) :
    (i.put off w v h).bytes = i.bytes.take off ++ le w v ++ i.bytes.drop (off + w) := rfl

/-- An image of zeros, as `calloc` and an `= {0}` initialiser leave it. -/
def zero (n : Nat) : Image n := ⟨List.replicate n 0, List.length_replicate⟩

/-- A field reads back what was put into it, reduced to its width. -/
theorem get_put_same (i : Image n) (off w v : Nat) (h : off + w ≤ n) :
    (i.put off w v h).get off w = v % 256 ^ w := by
  have hlen := i.length_eq
  have htake : (i.bytes.take off).length = off := by rw [List.length_take]; omega
  unfold get
  rw [put_bytes, List.append_assoc, List.drop_append_of_le_length (by omega),
    List.drop_eq_nil_of_le (by omega),
    List.nil_append, List.take_append_of_le_length (by rw [le_length]),
    List.take_of_length_le (by rw [le_length]), ofLe_le]

/-- A put leaves the fields it does not overlap as they were. -/
theorem get_put_of_disjoint (i : Image n) {off w off' w' : Nat} (v : Nat) (h : off + w ≤ n)
    (hd : off' + w' ≤ off ∨ off + w ≤ off') : (i.put off w v h).get off' w' = i.get off' w' := by
  have hlen := i.length_eq
  have htake : (i.bytes.take off).length = off := by rw [List.length_take]; omega
  unfold get
  rw [put_bytes]
  congr 1
  rcases hd with hd | hd
  · -- the field lies before the put: both sides read the untouched head
    rw [List.append_assoc, List.drop_append_of_le_length (by omega),
      List.take_append_of_le_length (by rw [List.length_drop]; omega), List.drop_take,
      List.take_take, Nat.min_eq_left (by omega)]
  · rw [List.drop_append, List.drop_eq_nil_of_le
      (by rw [List.length_append, le_length]; omega), List.nil_append, List.drop_drop,
      List.length_append, le_length, htake]
    congr 2
    omega

end Image

/-! ## Scalars

A field of a C object has a scalar type. The class names what an image needs of one: its width, and
that its value survives being cut down to that width. -/

/-- A C scalar type of `width` bytes. -/
class CScalar (α : Type) where
  width : Nat
  toNat : α → Nat
  ofNat : Nat → α
  ofNat_toNat : ∀ x, ofNat (toNat x % 256 ^ width) = x

instance : CScalar UInt8 where
  width := 1
  toNat := UInt8.toNat
  ofNat := UInt8.ofNat
  ofNat_toNat x := by rw [Nat.mod_eq_of_lt (by simpa using x.toNat_lt), UInt8.ofNat_toNat]

instance : CScalar UInt16 where
  width := 2
  toNat := UInt16.toNat
  ofNat := UInt16.ofNat
  ofNat_toNat x := by rw [Nat.mod_eq_of_lt (by simpa using x.toNat_lt), UInt16.ofNat_toNat]

instance : CScalar UInt32 where
  width := 4
  toNat := UInt32.toNat
  ofNat := UInt32.ofNat
  ofNat_toNat x := by rw [Nat.mod_eq_of_lt (by simpa using x.toNat_lt), UInt32.ofNat_toNat]

instance : CScalar UInt64 where
  width := 8
  toNat := UInt64.toNat
  ofNat := UInt64.ofNat
  ofNat_toNat x := by rw [Nat.mod_eq_of_lt (by simpa using x.toNat_lt), UInt64.ofNat_toNat]

instance : CScalar Int8 where
  width := 1
  toNat x := x.toUInt8.toNat
  ofNat m := ⟨UInt8.ofNat m⟩
  ofNat_toNat x := by rw [Nat.mod_eq_of_lt (by simpa using x.toUInt8.toNat_lt), UInt8.ofNat_toNat]

instance : CScalar Int16 where
  width := 2
  toNat x := x.toUInt16.toNat
  ofNat m := ⟨UInt16.ofNat m⟩
  ofNat_toNat x := by rw [Nat.mod_eq_of_lt (by simpa using x.toUInt16.toNat_lt), UInt16.ofNat_toNat]

instance : CScalar Int32 where
  width := 4
  toNat x := x.toUInt32.toNat
  ofNat m := ⟨UInt32.ofNat m⟩
  ofNat_toNat x := by rw [Nat.mod_eq_of_lt (by simpa using x.toUInt32.toNat_lt), UInt32.ofNat_toNat]

instance : CScalar Int64 where
  width := 8
  toNat x := x.toUInt64.toNat
  ofNat m := ⟨UInt64.ofNat m⟩
  ofNat_toNat x := by rw [Nat.mod_eq_of_lt (by simpa using x.toUInt64.toNat_lt), UInt64.ofNat_toNat]

namespace Image

variable {n : Nat} {α β : Type} [CScalar α] [CScalar β]

/-- The scalar of type `α` at `off`. -/
def read (α : Type) [CScalar α] (i : Image n) (off : Nat) : α :=
  CScalar.ofNat (i.get off (CScalar.width α))

/-- Store the scalar `v` at `off`. -/
def write (i : Image n) (off : Nat) (v : α) (h : off + CScalar.width α ≤ n) : Image n :=
  i.put off (CScalar.width α) (CScalar.toNat v) h

/-- A scalar reads back as it was stored. -/
@[simp] theorem read_write_same (i : Image n) (off : Nat) (v : α) (h : off + CScalar.width α ≤ n) :
    (i.write off v h).read α off = v := by
  unfold read write
  rw [get_put_same, CScalar.ofNat_toNat]

/-- Storing a scalar leaves the scalars beside it as they were. -/
theorem read_write_of_disjoint (i : Image n) {off off' : Nat} (v : β)
    (h : off + CScalar.width β ≤ n)
    (hd : off' + CScalar.width α ≤ off ∨ off + CScalar.width β ≤ off') :
    (i.write off v h).read α off' = i.read α off' := by
  unfold read write
  rw [get_put_of_disjoint _ _ _ hd]

/-- A byte read from inside an image is one of its bytes. -/
theorem read_uint8_mem (i : Image n) {off : Nat} (h : off < n) : i.read UInt8 off ∈ i.bytes := by
  have hlt : off < i.bytes.length := by rw [i.length_eq]; exact h
  have hbyte : i.read UInt8 off = i.bytes[off] := by
    show UInt8.ofNat (ofLe ((i.bytes.drop off).take 1)) = i.bytes[off]
    rw [List.drop_eq_getElem_cons hlt]
    simp only [List.take_succ_cons, List.take_zero, ofLe, Nat.mul_zero, Nat.add_zero,
      UInt8.ofNat_toNat]
  rw [hbyte]
  exact List.getElem_mem hlt

end Image

end WinEmulator.Lib
