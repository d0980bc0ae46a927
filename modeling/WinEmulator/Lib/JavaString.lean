import Mathlib.Algebra.Group.Int.Defs
import Mathlib.Data.List.DropRight
import WinEmulator.Lib.Utf16

/-!
# Strings of Java

A string is its code units. What is read of them here is whole numbers, with the decimal digits of
all scripts, and the parts between separators.
-/

set_option autoImplicit false

namespace WinEmulator.Lib.JavaString

open Utf16

abbrev JString := List Unit16

instance : LawfulBEq JString := inferInstance

def text (s : String) : JString := encode s.toList

theorem decode_text (s : String) : decode (text s) = s.toList := decode_encode s.toList

/-- Different strings have different units. -/
theorem text_injective : Function.Injective text := fun s t h => by
  have hdecoded := congrArg decode h
  rw [decode_text, decode_text] at hdecoded
  exact String.toList_inj.mp hdecoded

@[simp] theorem text_inj {s t : String} : text s = text t ↔ s = t := text_injective.eq_iff

/-- The zeros of the decimal digits in the Basic Multilingual Plane. -/
def zeros : List Nat :=
  [0x0030, 0x0660, 0x06F0, 0x07C0, 0x0966, 0x09E6, 0x0A66, 0x0AE6, 0x0B66, 0x0BE6, 0x0C66, 0x0CE6,
    0x0D66, 0x0DE6,
    0x0E50, 0x0ED0, 0x0F20, 0x1040, 0x1090, 0x17E0, 0x1810, 0x1946, 0x19D0, 0x1A80, 0x1A90, 0x1B50,
      0x1BB0, 0x1C40,
    0x1C50, 0xA620, 0xA8D0, 0xA900, 0xA9D0, 0xA9F0, 0xAA50, 0xABF0, 0xFF10]

/-- `Character.digit(char, 10)`. -/
def digit (u : Unit16) : Option Nat :=
  (zeros.find? fun first => first ≤ u.toNat ∧ u.toNat < first + 10).map fun first => u.toNat - first

/-- The value of digits; none if there is anything else, or nothing. -/
def parseDigits : JString → Option Nat
  | [] => none
  | us => us.foldl (fun n u => n.bind fun n => (digit u).map (10 * n + ·)) (some 0)

/-- `Integer.parseInt`; none is a `NumberFormatException`. -/
def parseInt (s : JString) : Option Int32 :=
  let value : Option Int :=
    match s with
    | [] => none
    | u :: us =>
      if u = 0x2D then (parseDigits us).map fun n => -(n : Int)
      else if u = 0x2B then (parseDigits us).map fun n => (n : Int)
      else (parseDigits (u :: us)).map fun n => (n : Int)
  (value.filter fun n => -2 ^ 31 ≤ n ∧ n < 2 ^ 31).map Int32.ofInt

/-! ## Printed numbers -/

theorem plain_of_isDigit {c : Char} (h : c.isDigit = true) :
    Plain c ∧ 0x30 ≤ c.toNat ∧ c.toNat < 0x30 + 10 := by
  simp only [Char.isDigit, Bool.and_eq_true, decide_eq_true_eq] at h
  have hlow : 48 ≤ c.toNat := h.1
  have hhigh : c.toNat ≤ 57 := h.2
  refine ⟨?_, hlow, by omega⟩
  show c.toNat < 0x10000
  omega

theorem digit_of_isDigit {c : Char} (h : c.isDigit = true) :
    digit (UInt16.ofNat c.toNat) = some (c.toNat - 0x30) := by
  obtain ⟨hplain, hlow, hhigh⟩ := plain_of_isDigit h
  have hnat : (UInt16.ofNat c.toNat).toNat = c.toNat := UInt16.toNat_ofNat_of_lt' hplain
  rw [digit, zeros, List.find?_cons_of_pos (by simp only [hnat, decide_eq_true_eq]; omega), hnat]
  rfl

/-- The value of a text of decimal digits. -/
theorem foldl_digits {cs : List Char} (h : ∀ c ∈ cs, c.isDigit = true) (n : Nat) :
    (encode cs).foldl (fun n u => n.bind fun n => (digit u).map (10 * n + ·)) (some n) = some
    (Nat.ofDigitChars 10 cs n) := by
  induction cs generalizing n with
  | nil => rw [Nat.ofDigitChars_nil]; rfl
  | cons c cs ih =>
    have hc := h c List.mem_cons_self
    rw [encode_cons, encodeChar, if_pos (plain_of_isDigit hc).1, List.singleton_append,
      List.foldl_cons, Option.bind_some,
      digit_of_isDigit hc, Option.map_some, ih fun d hd => h d (List.mem_cons_of_mem _ hd),
        Nat.ofDigitChars_cons]
    rfl

theorem isDigit_of_mem_toDigits {n : Nat} : ∀ c ∈ Nat.toDigits 10 n, c.isDigit = true := fun _ hc =>
  Nat.isDigit_of_mem_toDigits (by decide) (by decide) hc

/-- Decimal digits are read back. -/
theorem parseDigits_toDigits (n : Nat) : parseDigits (encode (Nat.toDigits 10 n)) = some n := by
  have hvalue := foldl_digits (isDigit_of_mem_toDigits (n := n)) 0
  rw [Nat.ofDigitChars_ten_toDigits] at hvalue
  cases hunits : encode (Nat.toDigits 10 n) with
  | nil => exact absurd (encode_eq_nil.mp hunits) Nat.toDigits_ne_nil
  | cons u us => rw [parseDigits, ← hunits, hvalue]; exact nofun

theorem toList_toString_int (n : Int) :
    (toString n).toList = if 0 ≤ n then Nat.toDigits 10 n.natAbs else '-' :: Nat.toDigits 10
      n.natAbs := by
  cases n with
  | ofNat n =>
    rw [if_pos (show (0 : Int) ≤ Int.ofNat n from Int.natCast_nonneg n)]
    exact Nat.toList_repr
  | negSucc n =>
    rw [if_neg (by omega)]
    show ("-" ++ (n + 1).repr).toList = _
    rw [String.toList_append, Nat.toList_repr]
    rfl

/-- A printed number is read as itself. -/
theorem parseInt_toString (n : Int32) : parseInt (text (toString n.toInt)) = some n := by
  have hrange :
      ((some n.toInt).filter fun n => -2 ^ 31 ≤ n ∧ n < 2 ^ 31).map Int32.ofInt = some n := by
    have hlow := Int32.le_toInt n
    have hhigh := Int32.toInt_lt n
    rw [Option.filter_some, if_pos (decide_eq_true ⟨hlow, hhigh⟩), Option.map_some,
      Int32.ofInt_toInt]
  rw [text, toList_toString_int]
  split
  case isTrue hnonneg =>
    have hvalue := parseDigits_toDigits n.toInt.natAbs
    cases hdigits : Nat.toDigits 10 n.toInt.natAbs with
    | nil => exact absurd hdigits Nat.toDigits_ne_nil
    | cons c cs =>
      -- the first unit is a digit, and no sign
      obtain ⟨hplain, hlow, hhigh⟩ :=
        plain_of_isDigit (isDigit_of_mem_toDigits c (hdigits ▸ List.mem_cons_self))
      have hnat : (UInt16.ofNat c.toNat).toNat = c.toNat := UInt16.toNat_ofNat_of_lt' hplain
      have hne {u : Unit16} (hu : u.toNat < 0x30) : UInt16.ofNat c.toNat ≠ u := by
        rintro rfl
        omega
      rw [hdigits] at hvalue
      rw [encode_cons, encodeChar, if_pos hplain] at hvalue ⊢
      simp only [parseInt, List.singleton_append, if_neg (hne (u := 0x2D) (by decide)),
        if_neg (hne (u := 0x2B) (by decide))]
      rw [List.singleton_append] at hvalue
      rw [hvalue]
      simp only [Option.bind_eq_bind, Option.bind_some, Option.pure_def, Option.map_some]
      rw [Int.natAbs_of_nonneg hnonneg]
      exact hrange
  case isFalse hneg =>
    rw [encode_cons, encodeChar, if_pos (show Plain '-' by decide), List.singleton_append]
    simp only [parseInt]
    rw [if_pos (by decide), parseDigits_toDigits]
    simp only [Option.bind_eq_bind, Option.bind_some, Option.pure_def, Option.map_some]
    rw [Int.ofNat_natAbs_of_nonpos (by omega), Int.neg_neg]
    exact hrange

/-! ## Parts -/

/-- `String.split` with one unit: the parts without the empty ones at the end, and the whole string
if the separator is nowhere in it. -/
def split (s : JString) (separator : Unit16) : List JString :=
  if separator ∈ s then (s.splitOn separator).rdropWhile fun part => part = [] else [s]

/-- A separator in the middle. -/
theorem split_middle {a b : JString} {separator : Unit16} (ha : separator ∉ a) (hb : separator ∉ b)
    (hne : b ≠ []) :
    split (a ++ separator :: b) separator = [a, b] := by
  have hmem : separator ∈ a ++ separator :: b := List.mem_append_right a List.mem_cons_self
  have hparts : (a ++ separator :: b).splitOn separator = [a, b] := by
    have hintercalate : ([separator].intercalate [a, b]).splitOn separator = [a, b] :=
      List.splitOn_intercalate separator (by simp [ha, hb]) (by simp)
    rwa [show [separator].intercalate [a, b] = a ++ separator :: b by simp [List.intercalate]]
      at hintercalate
  have hlast : ¬(decide (b = []) = true) := by simpa using hne
  rw [split, if_pos hmem, hparts]
  exact List.rdropWhile_concat_neg _ [a] b hlast

/-- The first of the parts between separators. -/
theorem splitOn_eq_takeWhile_cons (s : JString) (separator : Unit16) :
    ∃ rest, s.splitOn separator = s.takeWhile (· ≠ separator) :: rest := by
  induction s with
  | nil => exact ⟨[], rfl⟩
  | cons u us ih =>
    obtain ⟨rest, hrest⟩ := ih
    rw [List.splitOn_cons_eq_if_modifyHead]
    by_cases hu : u = separator
    · rw [if_pos (beq_iff_eq.mpr hu), List.takeWhile_cons_of_neg (by simpa using hu)]
      exact ⟨_, rfl⟩
    · rw [if_neg (by simpa using hu), List.takeWhile_cons_of_pos (by simpa using hu), hrest]
      exact ⟨rest, rfl⟩

/-- Without the empty parts at the end, the parts up to one that is not empty are still there. -/
theorem exists_rdropWhile {a b : JString} (hb : b ≠ []) (rest : List JString) :
    ∃ more, (a :: b :: rest).rdropWhile (fun part => part = []) = a :: b :: more := by
  induction rest using List.reverseRecOn with
  | nil => exact ⟨[], List.rdropWhile_concat_neg _ [a] b (by simpa using hb)⟩
  | append_singleton rest c ih =>
    rw [← List.cons_append, ← List.cons_append, List.rdropWhile_concat]
    split
    · exact ih
    · exact ⟨rest ++ [c], rfl⟩

/-- The first two parts, if neither is empty. -/
theorem split_append_cons {a b : JString} {separator : Unit16} (ha : separator ∉ a)
    (hb : b.takeWhile (· ≠ separator) ≠ []) :
    ∃ rest, split (a ++ separator :: b) separator = a :: b.takeWhile (· ≠ separator) :: rest := by
  obtain ⟨rest, hrest⟩ := splitOn_eq_takeWhile_cons b separator
  rw [split, if_pos (List.mem_append_right a List.mem_cons_self),
    List.splitOn_append_cons_self_of_not_mem ha, hrest]
  exact exists_rdropWhile hb rest

end WinEmulator.Lib.JavaString
