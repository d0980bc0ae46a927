import WinEmulator.Lorie.Keysym2ucs
import WinEmulator.Laws.X11.Composing
import Mathlib.Data.List.Nodup
import Mathlib.Data.Nat.Bitwise

/-!
# Laws of keysyms and characters

Whatever `qsort` makes of entries with the same code, a keysym that is typed for a character stands
for that character, for all that the 24 bits of a keysym can say; so the keysyms typed for a text
stand for the text.
-/

set_option autoImplicit false

namespace WinEmulator.Lorie.Keysym2ucs

open WinEmulator.Lib

/-- What `qsort` with `reverse_compare` may leave in the copy. -/
structure Reversed (reverse_keysymtab : List codepair) : Prop where
  perm : reverse_keysymtab.Perm keysymtab
  rising : Rising (fun pair => (pair.ucs : Int)) reverse_keysymtab

/-! ## The table -/

/-- The table is sorted by keysym, as its comment asks, and no keysym is there twice. -/
theorem keysymtab_sorted : keysymtab.Pairwise fun x y => x.keysym < y.keysym := by
  have hchain : keysymtab.IsChain fun x y => x.keysym < y.keysym := by decide +kernel
  exact hchain.pairwise

/-- The keysyms of the table have two bytes and are above Latin-1. -/
theorem keysymtab_keysym {pair : codepair} (h : pair ∈ keysymtab) :
    0xff < pair.keysym ∧ pair.keysym ≤ 0xffff := by
  have hall : ∀ pair ∈ keysymtab, 0xff < pair.keysym ∧ pair.keysym ≤ 0xffff := by decide +kernel
  exact hall pair h

/-- No keysym stands in the table twice. -/
theorem keysymtab_unique {x y : codepair} (hx : x ∈ keysymtab) (hy : y ∈ keysymtab)
    (h : x.keysym = y.keysym) : x = y := by
  have hnodup : (keysymtab.map codepair.keysym).Nodup :=
    List.pairwise_map.mpr (keysymtab_sorted.imp fun hlt => Nat.ne_of_lt hlt)
  exact List.inj_on_of_nodup_map hnodup hx hy h

theorem keysymtab_rising : Rising (fun pair => (pair.keysym : Int)) keysymtab :=
  keysymtab_sorted.imp fun hlt => Int.ofNat_le.mpr (Nat.le_of_lt hlt)

/-- The search by keysym finds each entry. -/
theorem binarySearch_keysymtab {pair : codepair} (h : pair ∈ keysymtab) :
    binarySearch (fun pair => (pair.keysym : Int)) keysymtab pair.keysym 0 (keysymtab.length - 1) =
      some pair := by
  obtain ⟨y, hy, hmem, hkey⟩ := exists_binarySearch keysymtab_rising h
  have hsame : y = pair := keysymtab_unique hmem h (Int.ofNat.inj hkey)
  rw [hy, hsame]

/-! ## The 24 bits -/

theorem and_high {n : Nat} (hn : n < 2 ^ 32) : n &&& 0xff000000 = n / 2 ^ 24 * 2 ^ 24 := by
  have hmask : 0xff000000 = (2 ^ 8 - 1) * 2 ^ 24 := rfl
  rw [hmask]
  refine Nat.eq_of_testBit_eq fun i => ?_
  rw [Nat.testBit_and, Nat.testBit_mul_two_pow, Nat.testBit_mul_two_pow,
    Nat.testBit_two_pow_sub_one,
    Nat.testBit_div_two_pow]
  by_cases hi : 24 ≤ i
  · by_cases hword : i < 32
    · have hbyte : i - 24 < 8 := by omega
      simp [hi, hbyte]
    · have hbig : n < 2 ^ i := Nat.lt_of_lt_of_le hn (Nat.pow_le_pow_right (by decide) (by omega))
      simp [hi, Nat.testBit_lt_two_pow hbig]
  · simp [hi]

theorem toUInt32_and_high {n : Nat} (hn : n < 2 ^ 32) :
    (Int32.ofNat n).toUInt32 &&& 0xff000000 = UInt32.ofNat (n / 2 ^ 24 * 2 ^ 24) := by
  have hbits :
      BitVec.ofNat 32 n &&& BitVec.ofNat 32 0xff000000 = BitVec.ofNat 32 (n / 2 ^ 24 * 2 ^ 24) := by
    rw [← and_high hn, BitVec.ofNat_and]
  rw [Int32.toUInt32_ofNat']
  exact UInt32.toBitVec_inj.mp hbits

variable {u : Nat}

/-- A keysym that is a code with a mark. -/
theorem toInt32_or_high (hu : u < 2 ^ 24) :
    (Int64.ofNat u ||| 0x01000000).toInt32 = Int32.ofNat (2 ^ 24 + u) := by
  have hor : u ||| 2 ^ 24 = 2 ^ 24 + u := by
    have hsum := Nat.two_pow_add_eq_or_of_lt hu 1
    rw [Nat.mul_one] at hsum
    rw [Nat.or_comm, hsum]
  have hbits : BitVec.ofNat 32 u ||| BitVec.ofNat 32 (2 ^ 24) = BitVec.ofNat 32 (2 ^ 24 + u) := by
    rw [← hor, BitVec.ofNat_or]
  rw [Int64.toInt32_or, Int64.toInt32_ofNat', Int64.toInt32_ofNat]
  exact Int32.toBitVec_inj.mp hbits

/-- The mark taken off. -/
theorem toInt64_and_low (hu : u < 2 ^ 24) :
    (Int32.ofNat (2 ^ 24 + u) &&& 0x00ffffff).toInt64 = Int64.ofNat u := by
  have hbits : BitVec.ofNat 32 (2 ^ 24 + u) &&& BitVec.ofNat 32 (2 ^ 24 - 1) =
      BitVec.ofNat 32 u := by
    rw [← BitVec.ofNat_and, Nat.and_two_pow_sub_one_eq_mod, Nat.add_mod_left, Nat.mod_eq_of_lt hu]
  have hlow : Int32.ofNat (2 ^ 24 + u) &&& 0x00ffffff = Int32.ofNat u := Int32.toBitVec_inj.mp hbits
  rw [hlow, Int32.toInt64_ofNat' (by rw [Int32.toInt_maxValue]; omega)]

/-! ## The three kinds of keysyms -/

/-- The keysyms of Latin-1 are their characters. -/
theorem keysym2ucs_latin1 (h : 0x20 ≤ u ∧ u ≤ 0x7e ∨ 0xa0 ≤ u ∧ u ≤ 0xff) :
    keysym2ucs (Int32.ofNat u) = Int64.ofNat u := by
  unfold keysym2ucs
  rw [Int32.toInt_ofNat_of_lt (by omega), if_pos (by omega),
    Int32.toInt64_ofNat' (by rw [Int32.toInt_maxValue]; omega)]

/-- The binary search finds every entry of the table. -/
theorem keysym2ucs_keysymtab {pair : codepair} (h : pair ∈ keysymtab) :
    keysym2ucs (Int32.ofNat pair.keysym) = Int64.ofNat pair.ucs := by
  obtain ⟨habove, hshort⟩ := keysymtab_keysym h
  have hunmarked : (Int32.ofNat pair.keysym).toUInt32 &&& 0xff000000 ≠ 0x01000000 := by
    rw [toUInt32_and_high (by omega), Nat.div_eq_of_lt (by omega)]
    decide
  unfold keysym2ucs
  rw [if_neg hunmarked, Int32.toInt_ofNat_of_lt (by omega), if_neg (by omega),
    binarySearch_keysymtab h]

/-- A keysym with the mark of Unicode is its character. -/
theorem keysym2ucs_marked (hu : u < 2 ^ 24) :
    keysym2ucs (Int32.ofNat (2 ^ 24 + u)) = Int64.ofNat u := by
  have hmarked : (Int32.ofNat (2 ^ 24 + u)).toUInt32 &&& 0xff000000 = 0x01000000 := by
    have hdiv : (2 ^ 24 + u) / 2 ^ 24 = 1 := by omega
    rw [toUInt32_and_high (by omega), hdiv]
    rfl
  unfold keysym2ucs
  rw [if_pos hmarked, Int32.toInt_ofNat_of_lt (by omega), if_neg (by omega), toInt64_and_low hu]

/-- **Every code of 24 bits comes back from the keysym that is typed for it, whichever way `qsort`
has sorted the copy.** -/
theorem keysym2ucs_ucs2keysym {reverse_keysymtab : List codepair}
    (hreversed : Reversed reverse_keysymtab)
    (hu : u < 2 ^ 24) :
    keysym2ucs (ucs2keysym reverse_keysymtab (Int64.ofNat u)) = Int64.ofNat u := by
  unfold ucs2keysym
  rw [Int64.toInt_ofNat_of_lt (by omega)]
  by_cases hlatin1 : 0x20 ≤ u ∧ u ≤ 0x7e ∨ 0xa0 ≤ u ∧ u ≤ 0xff
  · rw [if_pos (by omega), Int64.toInt32_ofNat', keysym2ucs_latin1 hlatin1]
  rw [if_neg (by omega)]
  cases hfound : binarySearch (fun pair => (pair.ucs : Int)) reverse_keysymtab u 0
    (keysymtab.length - 1) with
  | none =>
    rw [toInt32_or_high hu, keysym2ucs_marked hu]
  | some pair =>
    obtain ⟨hmem, hucs⟩ := binarySearch_sound hfound
    have hcode : pair.ucs = u := Int.ofNat.inj hucs
    exact (keysym2ucs_keysymtab (hreversed.perm.mem_iff.mp hmem)).trans (congrArg Int64.ofNat hcode)

/-- The copy as a stable sort leaves it. -/
def sorted : List codepair := keysymtab.mergeSort fun x y => decide (x.ucs ≤ y.ucs)

theorem reversed_sorted : Reversed sorted where
  perm := List.mergeSort_perm keysymtab _
  rising := by
    have hrising : sorted.Pairwise fun x y => decide (x.ucs ≤ y.ucs) = true := by
      refine List.pairwise_mergeSort (fun x y z hxy hyz => ?_) (fun x y => ?_) keysymtab
      · simp only [decide_eq_true_eq] at hxy hyz ⊢
        exact Nat.le_trans hxy hyz
      · simp only [Bool.or_eq_true, decide_eq_true_eq]
        exact Nat.le_total x.ucs y.ucs
    exact hrising.imp fun hle => Int.ofNat_le.mpr (of_decide_eq_true hle)

/-- A code that is in the table for two keysyms. -/
theorem keysym2ucs_ucs2keysym_circle :
    keysym2ucs (ucs2keysym sorted (Int64.ofNat 0x25cb)) = Int64.ofNat 0x25cb :=
  keysym2ucs_ucs2keysym reversed_sorted (by decide)

open WinEmulator.Lib.Utf16 (Unit16) in
open WinEmulator.X11.InputConnection in
/-- The keysyms typed for the events of a text stand for its characters. -/
theorem typed_text {reverse_keysymtab : List codepair} (hreversed : Reversed reverse_keysymtab)
    {units : List Unit16}
    (hnul : '\x00' ∉ Utf16.decode units) :
    (sendTextEvent (getBytes units)).map
    (fun wc => keysym2ucs (ucs2keysym reverse_keysymtab (Int64.ofNat wc.toNat))) =
      (Utf16.decode units).map fun c => Int64.ofNat c.toNat := by
  rw [sendTextEvent_getBytes hnul]
  refine List.map_congr_left fun c _ => keysym2ucs_ucs2keysym hreversed ?_
  obtain hlow | ⟨_, hhigh⟩ := c.valid
  · exact Nat.lt_trans hlow (by decide)
  · exact Nat.lt_trans hhigh (by decide)

end WinEmulator.Lorie.Keysym2ucs
