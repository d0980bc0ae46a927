import WinEmulator.Laws.App.RootfsChoice

/-!
# The name of a rootfs that is installed

The installer takes the number off the name that it found in the archive and counts up from it until
a name is free. The number is one of 32 bits: a longer one is an exception, and after the largest
comes the smallest.
-/

set_option autoImplicit false

namespace WinEmulator.App.Rootfs

open WinEmulator.Lib WinEmulator.Lib.Fs WinEmulator.Lib.JavaFile

variable {digit : Char → Option Nat} {names : List Name} {found baseName : Text} {carried : Nat}

/-! ## What is to hold -/

/-- The name for what was found as `found`, where so many numbers are tried at most. -/
def nameWithin (digit : Char → Option Nat) (names : List Name) (found : Text) (turns : Nat) :
    Option Name :=
  (baseNameAndNum digit found).bind fun (baseName, num) =>
    (freeNum names baseName turns num).map (numbered baseName)

/-- A name is a base and the number that trails it, or else carries none and starts from 1. -/
inductive Carries (digit : Char → Option Nat) : Text → Text → Nat → Prop
  | number {baseName ds : Text} {n : Nat} (hbase : baseName ≠ [])
      (hdigits : ProotRootfs.digits digit ds = some n) :
    Carries digit (baseName ++ '-' :: ds) baseName n
  | nothing {name : Text}
    (hnot : ∀ baseName ds, baseName ≠ [] → name = baseName ++ '-' :: ds →
      ProotRootfs.digits digit ds = none) :
    Carries digit name name 1

/-- The naming ends with a name that is not taken: the base and a number that is not below the one
carried. -/
def Named (digit : Char → Option Nat) (names : List Name) (found : Text) : Prop :=
  ∃ name turns, nameWithin digit names found turns = some name ∧ name ∉ names ∧
    name ≠ RootfsChoice.current ∧
    ∃ baseName carried num, Carries digit found baseName carried ∧ (carried : Int) ≤ num ∧
      name = numbered baseName num

/-- No line ends in a base that is to be told from its number, and from that number on one of 31
bits is free. -/
def Nameable (digit : Char → Option Nat) (names : List Name) (found : Text) : Prop :=
  ∃ baseName carried, Carries digit found baseName carried ∧
    (baseName = found ∨ baseName.all (!isLineTerminator ·) = true) ∧
    ∃ num : Nat, carried ≤ num ∧ num < 2 ^ 31 ∧ numbered baseName num ∉ names

/-! ## The base and the number -/

theorem digits_foldl_none (cs : Text) :
    cs.foldl (fun n c => n.bind fun n => (digit c).map (10 * n + ·)) (none : Option Nat) =
      none := by
  induction cs with
  | nil => rfl
  | cons c cs ih => exact ih

/-- What is read as a number is made of digits. -/
theorem all_digits_of_foldl {cs : Text} {n : Nat} {start : Option Nat}
    (h : cs.foldl (fun n c => n.bind fun n => (digit c).map (10 * n + ·)) start = some n) :
    ∀ c ∈ cs, (digit c).isSome = true := by
  induction cs generalizing start with
  | nil => exact nofun
  | cons c cs ih =>
    rw [List.foldl_cons] at h
    refine List.forall_mem_cons.mpr ⟨?_, ih h⟩
    cases hdigit : digit c with
    | some d => rfl
    | none =>
      have hnone : (start.bind fun n => (digit c).map (10 * n + ·)) = none := by
        rw [hdigit]
        cases start <;> rfl
      rw [hnone, digits_foldl_none] at h
      cases h

/-- Digits with a value are one or more, and each is one. -/
theorem digits_spec {ds : Text} {n : Nat} (h : ProotRootfs.digits digit ds = some n) :
    ds ≠ [] ∧ ∀ c ∈ ds, (digit c).isSome = true := by
  unfold ProotRootfs.digits at h
  split at h
  case h_1 => cases h
  case h_2 hne => exact ⟨hne, all_digits_of_foldl h⟩

/-- Digits one after the other have a value. -/
theorem exists_digits {ds : Text} (hne : ds ≠ []) (h : ∀ c ∈ ds, (digit c).isSome = true) :
    ∃ n, ProotRootfs.digits digit ds = some n := by
  have hfold : ∀ start : Nat, ∃ n,
      ds.foldl (fun n c => n.bind fun n => (digit c).map (10 * n + ·)) (some start) = some n := by
    clear hne
    induction ds with
    | nil => exact fun start => ⟨start, rfl⟩
    | cons c cs ih =>
      intro start
      obtain ⟨hc, hrest⟩ := List.forall_mem_cons.mp h
      obtain ⟨d, hd⟩ := Option.isSome_iff_exists.mp hc
      rw [List.foldl_cons, Option.bind_some, hd, Option.map_some]
      exact ih hrest _
  obtain ⟨n, hn⟩ := hfold 0
  refine ⟨n, ?_⟩
  unfold ProotRootfs.digits
  split
  case h_1 => exact absurd rfl hne
  case h_2 => exact hn

/-- What is matched is a base with digits after it. -/
theorem eq_of_matchNumber {ds : Text} (h : matchNumber digit found = some (baseName, ds)) :
    found = baseName ++ '-' :: ds ∧ baseName ≠ [] ∧ ds ≠ [] ∧ ∀ c ∈ ds,
      (digit c).isSome = true := by
  rw [matchNumber] at h
  split at h
  case h_1 => cases h
  case h_2 c hlast =>
    dsimp only at h
    split at h
    case isFalse => cases h
    case isTrue hparts =>
      obtain ⟨hbase, -, hne, hall⟩ := hparts
      obtain ⟨rfl, rfl⟩ := Prod.mk.inj (Option.some.inj h)
      refine ⟨?_, hbase, hne, List.all_eq_true.mp hall⟩
      have hdash : c = '-' := by
        have := List.rdropWhile_last_not (· ≠ '-') found
          (List.ne_nil_of_mem (List.mem_of_getLast? hlast))
        rw [List.getLast?_eq_some_getLast (List.ne_nil_of_mem (List.mem_of_getLast? hlast))]
          at hlast
        rw [Option.some.inj hlast] at this
        simpa using this
      have hsplit : found.rdropWhile (· ≠ '-') ++ found.rtakeWhile (· ≠ '-') = found :=
        List.rdropWhile_append_rtakeWhile
      rw [← List.dropLast_append_getLast? c hlast, hdash, List.append_assoc] at hsplit
      exact hsplit.symm

section Split

variable (hdash : digit '-' = none)
include hdash

theorem ne_dash_of_isDigit {ds : Text} (h : ∀ c ∈ ds, (digit c).isSome = true) :
    ∀ c ∈ ds, c ≠ '-' := by
  rintro c hc rfl
  have := h _ hc
  rw [hdash] at this
  cases this

/-- The digits are what follows the last dash. -/
theorem matchNumber_append {ds : Text} (hbase : baseName ≠ []) (hne : ds ≠ [])
    (h : ∀ c ∈ ds, (digit c).isSome = true) :
    matchNumber digit (baseName ++ '-' :: ds) =
      if baseName.all (!isLineTerminator ·) then some (baseName, ds) else none := by
  have hdigits : ∀ c ∈ ds, decide (c ≠ '-') = true :=
    fun c hc => decide_eq_true (ne_dash_of_isDigit hdash h c hc)
  have htake : (baseName ++ '-' :: ds).rtakeWhile (· ≠ '-') = ds := by
    rw [show baseName ++ '-' :: ds = (baseName ++ ['-']) ++ ds by simp, List.rtakeWhile]
    rw [List.reverse_append, List.takeWhile_append_of_pos (by simpa using hdigits),
      List.reverse_append]
    simp
  have hdrop : (baseName ++ '-' :: ds).rdropWhile (· ≠ '-') = baseName ++ ['-'] := by
    rw [show baseName ++ '-' :: ds = (baseName ++ ['-']) ++ ds by simp, List.rdropWhile]
    rw [List.reverse_append, List.dropWhile_append_of_pos (by simpa using hdigits)]
    simp
  have hall : ds.all (digit · |>.isSome) = true := List.all_eq_true.mpr h
  simp only [matchNumber, htake, hdrop, List.getLast?_append, List.getLast?_singleton,
    Option.some_or,
    List.dropLast_concat, hbase, hne, hall, ne_eq, not_false_iff, true_and, and_true]

/-- A name that ends in a dash and digits is split there, if the digits fit an `Int`. -/
theorem baseNameAndNum_number {ds : Text} {n : Nat} (hbase : baseName ≠ [])
    (h : ProotRootfs.digits digit ds = some n) :
    baseNameAndNum digit (baseName ++ '-' :: ds) =
      if baseName.all
        (!isLineTerminator ·) then (if n < 2 ^ 31 then some (baseName, (n : Int)) else none)
      else some (baseName ++ '-' :: ds, 1) := by
  obtain ⟨hne, hdigits⟩ := digits_spec h
  rw [baseNameAndNum, matchNumber_append hdash hbase hne hdigits]
  split
  case h_1 baseName' ds' hmatch =>
    split at hmatch
    case isFalse => cases hmatch
    case isTrue hall =>
      obtain ⟨rfl, rfl⟩ := Prod.mk.inj (Option.some.inj hmatch)
      rw [if_pos hall, toInt, h, Option.bind_some]
      split <;> rfl
  case h_2 hmatch =>
    split at hmatch
    case isTrue => cases hmatch
    case isFalse hall => rw [if_neg hall]

end Split

/-- Any other name is its own base name, with number 1. -/
theorem baseNameAndNum_nothing
    (hnot : ∀ baseName ds, baseName ≠ [] → found = baseName ++ '-' :: ds →
      ProotRootfs.digits digit ds = none) :
    baseNameAndNum digit found = some (found, 1) := by
  rw [baseNameAndNum]
  split
  case h_1 baseName ds hmatch =>
    obtain ⟨hfound, hbase, hne, hdigits⟩ := eq_of_matchNumber hmatch
    obtain ⟨n, hn⟩ := exists_digits hne hdigits
    rw [hnot baseName ds hbase hfound] at hn
    cases hn
  case h_2 => rfl

/-! ## The search for a free number -/

/-- Up to the first free number the search counts up. -/
theorem freeNum_of_taken {num : Int} {k : Nat} (hnum : 0 ≤ num) (hlast : num + k < 2 ^ 31)
    (htaken : ∀ i < k, numbered baseName (num + (i : Int)) ∈ names)
    (hfree : numbered baseName (num + (k : Int)) ∉ names) :
    freeNum names baseName (k + 1) num = some (num + k) := by
  induction k generalizing num with
  | zero =>
    rw [Int.natCast_zero, Int.add_zero] at hfree ⊢
    rw [freeNum, if_neg hfree]
  | succ k ih =>
    have hfirst := htaken 0 (Nat.succ_pos k)
    rw [Int.natCast_zero, Int.add_zero] at hfirst
    have hnext : (num + 1).bmod (2 ^ 32) = num + 1 := Int.bmod_eq_of_le (by omega) (by omega)
    have hassoc : ∀ i : Nat, num + 1 + (i : Int) = num + ((i + 1 : Nat) : Int) := fun i => by omega
    rw [freeNum, if_pos hfirst, hnext, ih (by omega) (by omega), hassoc]
    · exact fun i hi => hassoc i ▸ htaken (i + 1) (Nat.succ_lt_succ hi)
    · exact hassoc k ▸ hfree

/-- A number that is free from some number on is found. -/
theorem exists_freeNum_of_free {num : Nat} (hle : carried ≤ num) (hlt : num < 2 ^ 31)
    (hfree : numbered baseName num ∉ names) :
    ∃ turns num', freeNum names baseName turns carried = some num' ∧ (carried : Int) ≤ num' := by
  have hexists : ∃ k : Nat, numbered baseName ((carried : Int) + k) ∉ names :=
    ⟨num - carried, by rwa [← Int.natCast_add, Nat.add_sub_cancel' hle]⟩
  classical
  have hfirst := Nat.find_spec hexists
  have htaken : ∀ i < Nat.find hexists,
      numbered baseName ((carried : Int) + (i : Int)) ∈ names := fun i hi =>
    not_not.mp (Nat.find_min hexists hi)
  have hbound : Nat.find hexists ≤ num - carried :=
    Nat.find_min' hexists (by rwa [← Int.natCast_add, Nat.add_sub_cancel' hle])
  refine ⟨Nat.find hexists + 1, _, freeNum_of_taken (by omega) (by omega) htaken hfirst, by omega⟩

/-- The number that is found is one of 32 bits. -/
theorem freeNum_lt {turns : Nat} {num num' : Int} (h : freeNum names baseName turns num = some num')
    (hnum : num < 2 ^ 31) : num' < 2 ^ 31 := by
  induction turns generalizing num with
  | zero => cases h
  | succ turns ih =>
    rw [freeNum] at h
    split at h
    case isTrue =>
      have hlt := @Int.bmod_lt (num + 1) (2 ^ 32) (by decide)
      exact ih h (by omega)
    case isFalse => exact Option.some.inj h ▸ hnum

/-! ## The name -/

theorem dash_not_mem_toDigits (n : Nat) : '-' ∉ Nat.toDigits 10 n := fun hmem =>
  absurd (Nat.isDigit_of_mem_toDigits (by decide) (by decide) hmem) (by decide)

/-- What stands before the digits of a name; a negative number has a dash of its own. -/
theorem rdropWhile_numbered (baseName : Text) (num : Int) :
    (numbered baseName num).rdropWhile (· ≠ '-') = baseName ++
    (if num < 0 then ['-', '-'] else ['-']) := by
  have hdigits :
      ∀ s : Text, (s ++ '-' :: Nat.toDigits 10 num.natAbs).rdropWhile (· ≠ '-') = s ++ ['-'] := by
    intro s
    have hnot : ∀ c ∈ (Nat.toDigits 10 num.natAbs).reverse, decide (c ≠ '-') = true := fun c hc =>
      decide_eq_true fun hdash => dash_not_mem_toDigits _ (hdash ▸ List.mem_reverse.mp hc)
    rw [List.rdropWhile, List.reverse_append, List.reverse_cons, List.append_assoc,
      List.dropWhile_append_of_pos hnot]
    simp
  rw [numbered, decimal]
  split
  case isTrue =>
    have hsplit : baseName ++ '-' :: '-' :: Nat.toDigits 10 num.natAbs =
        (baseName ++ ['-']) ++ '-' :: Nat.toDigits 10 num.natAbs := by simp
    rw [hsplit, hdigits, List.append_assoc]
    rfl
  case isFalse => exact hdigits baseName

/-- A name with a number says of what base it is made, up to a dash. -/
theorem length_of_numbered {other : Text} {num num' : Int} (hnum : 0 ≤ num)
    (h : numbered baseName num = numbered other num') : other.length ≤ baseName.length := by
  have hdrop := congrArg (fun s => (List.rdropWhile (· ≠ '-') s).length) h
  simp only [rdropWhile_numbered, if_neg (Int.not_lt.mpr hnum), List.length_append,
    List.length_singleton] at hdrop
  split at hdrop
  case isTrue =>
    rw [List.length_cons, List.length_singleton] at hdrop
    omega
  case isFalse =>
    rw [List.length_singleton] at hdrop
    omega

/-- How the code takes a name apart, said of the number that it carries. -/
theorem Carries.baseNameAndNum_eq (hdash : digit '-' = none)
    (h : Carries digit found baseName carried) :
    baseNameAndNum digit found =
      if baseName = found ∨ baseName.all (!isLineTerminator ·) = true then
        (if carried < 2 ^ 31 then some (baseName, (carried : Int)) else none)
      else some (found, 1) := by
  cases h with
  | nothing hnot =>
    rw [if_pos (.inl rfl), if_pos (by decide)]
    exact baseNameAndNum_nothing hnot
  | number hbase hdigits =>
    rw [baseNameAndNum_number hdash hbase hdigits]
    exact if_congr (by simp) rfl rfl

/-- **The name of a new rootfs is free, and keeps the base and at least the number of the one that
was found**, exactly when the base is told from the number, which has 31 bits, and a number of 31
bits from there on is free. -/
theorem named_iff (hdash : digit '-' = none) :
    Named digit names found ↔ Nameable digit names found := by
  constructor
  · rintro ⟨name, turns, hname, hnew, -, baseName, carried, num, hcarries, hle, rfl⟩
    obtain ⟨⟨base, first⟩, hbase, hnum⟩ := Option.bind_eq_some_iff.mp hname
    obtain ⟨num', hfree, hsame⟩ := Option.map_eq_some_iff.mp hnum
    rw [hcarries.baseNameAndNum_eq hdash] at hbase
    split at hbase
    case isTrue hline =>
      split at hbase
      case isFalse => cases hbase
      case isTrue hlt =>
        obtain ⟨rfl, rfl⟩ := Prod.mk.inj (Option.some.inj hbase)
        obtain rfl := numbered_injective hsame
        have hlt' := freeNum_lt hfree (by omega)
        obtain ⟨n, rfl⟩ := Int.eq_ofNat_of_zero_le (show 0 ≤ num' by omega)
        exact ⟨baseName, carried, hcarries, hline, n, by omega, by omega, hnew⟩
    case isFalse hline =>
      -- the base is the whole name, and longer than the one that was to be kept
      obtain ⟨rfl, rfl⟩ := Prod.mk.inj (Option.some.inj hbase)
      have hlength := length_of_numbered (by omega) hsame.symm
      cases hcarries with
      | nothing => exact absurd (.inl rfl) hline
      | number =>
        rw [List.length_append, List.length_cons] at hlength
        omega
  · rintro ⟨baseName, carried, hcarries, hline, num, hle, hlt, hfree⟩
    obtain ⟨turns, num', hsearch, hle'⟩ := exists_freeNum_of_free hle hlt hfree
    refine ⟨numbered baseName num', turns, ?_, freeNum_not_mem hsearch, ?_, baseName, carried, num',
      hcarries, hle', rfl⟩
    · rw [nameWithin, hcarries.baseNameAndNum_eq hdash, if_pos hline, if_pos (by omega),
        Option.bind_some]
      dsimp only
      rw [hsearch, Option.map_some]
    · exact RootfsChoice.current_ne_numbered baseName num'

theorem named_debian :
    Named asciiDigit ["debian-1".toList, "debian-2".toList] "debian-2".toList := by
  have hcarries : Carries asciiDigit ("debian".toList ++ '-' :: ['2']) "debian".toList 2 :=
    .number (by decide) (by decide)
  exact (named_iff rfl).mpr
    ⟨"debian".toList, 2, hcarries, .inr (by decide), 3, by decide, by decide, by decide⟩

/-- The date and time of a build are no number of 32 bits. -/
theorem not_named_dated : ¬ ∀ (names : List Name) (found : Text), Named asciiDigit names found := by
  intro hall
  obtain ⟨name, turns, hname, -⟩ := hall [] "debian-20240101123456".toList
  have hnone : baseNameAndNum asciiDigit "debian-20240101123456".toList = none := by decide
  rw [nameWithin, hnone] at hname
  cases hname

end WinEmulator.App.Rootfs
