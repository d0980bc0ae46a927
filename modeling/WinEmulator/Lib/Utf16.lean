import Mathlib.Data.List.Basic

/-!
# UTF-16

Characters as code units, one for those of the Basic Multilingual Plane and a pair of surrogates for
the others, and back. A surrogate that is not part of a pair is read as `?`, as an encoder does that
replaces what it cannot encode.
-/

set_option autoImplicit false

namespace WinEmulator.Lib.Utf16

abbrev Unit16 := UInt16

/-- A character of the Basic Multilingual Plane. -/
def Plain (c : Char) : Prop := c.toNat < 0x10000

instance : DecidablePred Plain := fun c => inferInstanceAs (Decidable (c.toNat < 0x10000))

def encodeChar (c : Char) : List Unit16 :=
  if Plain c then [UInt16.ofNat c.toNat]
  else [UInt16.ofNat (0xD800 + (c.toNat - 0x10000) / 0x400),
    UInt16.ofNat (0xDC00 + (c.toNat - 0x10000) % 0x400)]

def encode (cs : List Char) : List Unit16 := cs.flatMap encodeChar

def isHighSurrogate (u : Unit16) : Bool := 0xD800 ≤ u.toNat && u.toNat < 0xDC00

def isLowSurrogate (u : Unit16) : Bool := 0xDC00 ≤ u.toNat && u.toNat < 0xE000

/-- The character of a pair of surrogates. -/
def ofPair (high low : Unit16) : Char :=
  Char.ofNat (0x10000 + (high.toNat - 0xD800) * 0x400 + (low.toNat - 0xDC00))

def decode : List Unit16 → List Char
  | [] => []
  | [u] => [if isHighSurrogate u || isLowSurrogate u then '?' else Char.ofNat u.toNat]
  | u :: v :: us =>
    if isHighSurrogate u then
      if isLowSurrogate v then ofPair u v :: decode us else '?' :: decode (v :: us)
    else (if isLowSurrogate u then '?' else Char.ofNat u.toNat) :: decode (v :: us)

theorem encode_nil : encode [] = [] := rfl

theorem encode_cons (c : Char) (cs : List Char) : encode (c :: cs) = encodeChar c ++ encode cs :=
  List.flatMap_cons

theorem encode_append (as bs : List Char) : encode (as ++ bs) = encode as ++ encode bs :=
  List.flatMap_append

theorem toNat_valid (c : Char) : c.toNat < 0xD800 ∨ 0xDFFF < c.toNat ∧ c.toNat < 0x110000 := c.valid

/-- A unit that is no surrogate is a character. -/
theorem decode_cons_of_plain {u : Unit16} (hhigh : isHighSurrogate u = false)
    (hlow : isLowSurrogate u = false)
    (us : List Unit16) : decode (u :: us) = Char.ofNat u.toNat :: decode us := by
  cases us with
  | nil => simp [decode, hhigh, hlow]
  | cons v us => simp [decode, hhigh, hlow]

theorem ofNat_ne_nul {n : Nat} (hvalid : n.isValidChar) (hpos : n ≠ 0) : '\x00' ≠ Char.ofNat n := by
  intro h
  have hnat : (Char.ofNat n).toNat = n := by
    rw [Char.ofNat, dif_pos hvalid]
    rfl
  rw [← h] at hnat
  exact hpos hnat.symm

/-- Only the unit 0 is read as NUL. -/
theorem nul_not_mem_decode {us : List Unit16} (h : 0 ∉ us) : '\x00' ∉ decode us := by
  have hunit {u : Unit16} (hu : 0 ≠ u) (hhigh : ¬ isHighSurrogate u = true)
    (hlow : ¬ isLowSurrogate u = true) :
      '\x00' ≠ Char.ofNat u.toNat := by
    refine ofNat_ne_nul ?_ fun h => hu (UInt16.toNat_inj.mp h.symm)
    simp only [isLowSurrogate, isHighSurrogate, Bool.and_eq_true, decide_eq_true_eq] at hlow hhigh
    have hlt := u.toNat_lt
    simp only [Nat.isValidChar]
    omega
  have hpair {u v : Unit16} (hhigh : isHighSurrogate u = true) (hlow : isLowSurrogate v = true) :
      '\x00' ≠ ofPair u v := by
    simp only [isLowSurrogate, isHighSurrogate, Bool.and_eq_true, decide_eq_true_eq] at hlow hhigh
    refine ofNat_ne_nul ?_ (by omega)
    simp only [Nat.isValidChar]
    omega
  fun_induction decode us with
  | case1 => exact List.not_mem_nil
  | case2 u =>
    rw [List.mem_singleton] at h ⊢
    split
    · decide
    case isFalse hsurrogate =>
      rw [Bool.or_eq_true, not_or] at hsurrogate
      exact hunit h hsurrogate.1 hsurrogate.2
  | case3 u v us hhigh hlow ih =>
    simp only [List.mem_cons, not_or] at h ⊢
    exact ⟨hpair hhigh hlow, ih h.2.2⟩
  | case4 u v us hhigh hlow ih =>
    rw [List.mem_cons, not_or] at h ⊢
    exact ⟨by decide, ih h.2⟩
  | case5 u v us hhigh ih =>
    rw [List.mem_cons, not_or] at h ⊢
    refine ⟨?_, ih h.2⟩
    split
    · decide
    case isFalse hlow => exact hunit h.1 hhigh hlow

/-- A character is decoded from its units. -/
theorem decode_encodeChar (c : Char) (us : List Unit16) :
    decode (encodeChar c ++ us) = c :: decode us := by
  have hvalid := toNat_valid c
  unfold encodeChar
  split
  case isTrue hplain =>
    have hnat : (UInt16.ofNat c.toNat).toNat = c.toNat := UInt16.toNat_ofNat_of_lt' hplain
    rw [List.singleton_append, decode_cons_of_plain, hnat, Char.ofNat_toNat]
    · simp only [isHighSurrogate, hnat, Bool.and_eq_false_iff, decide_eq_false_iff_not]
      omega
    · simp only [isLowSurrogate, hnat, Bool.and_eq_false_iff, decide_eq_false_iff_not]
      omega
  case isFalse hplain =>
    have hge : 0x10000 ≤ c.toNat := Nat.le_of_not_lt hplain
    have hhigh : (UInt16.ofNat (0xD800 + (c.toNat - 0x10000) / 0x400)).toNat =
        0xD800 + (c.toNat - 0x10000) / 0x400 := UInt16.toNat_ofNat_of_lt' (by show _ < 65536; omega)
    have hlow : (UInt16.ofNat (0xDC00 + (c.toNat - 0x10000) % 0x400)).toNat =
        0xDC00 + (c.toNat - 0x10000) % 0x400 := UInt16.toNat_ofNat_of_lt' (by show _ < 65536; omega)
    have hishigh : isHighSurrogate (UInt16.ofNat (0xD800 + (c.toNat - 0x10000) / 0x400)) =
        true := by
      simp only [isHighSurrogate, hhigh, Bool.and_eq_true, decide_eq_true_eq]
      omega
    have hislow : isLowSurrogate (UInt16.ofNat (0xDC00 + (c.toNat - 0x10000) % 0x400)) = true := by
      simp only [isLowSurrogate, hlow, Bool.and_eq_true, decide_eq_true_eq]
      omega
    have hpair : ofPair (UInt16.ofNat (0xD800 + (c.toNat - 0x10000) / 0x400))
        (UInt16.ofNat (0xDC00 + (c.toNat - 0x10000) % 0x400)) = c := by
      rw [ofPair, hhigh, hlow]
      have : 0x10000 + (0xD800 + (c.toNat - 0x10000) / 0x400 - 0xD800) * 0x400 +
          (0xDC00 + (c.toNat - 0x10000) % 0x400 - 0xDC00) = c.toNat := by omega
      rw [this, Char.ofNat_toNat]
    simp only [List.cons_append, List.nil_append, decode, hishigh, hislow, if_true, hpair]

theorem decode_encode_append (cs : List Char) (us : List Unit16) :
    decode (encode cs ++ us) = cs ++ decode us := by
  induction cs with
  | nil => rfl
  | cons c cs ih => rw [encode_cons, List.append_assoc, decode_encodeChar, ih, List.cons_append]

/-- A text is decoded from its units. -/
theorem decode_encode (cs : List Char) : decode (encode cs) = cs := by
  simpa [decode] using decode_encode_append cs []

/-- A unit below the surrogates is a character by itself. -/
theorem of_mem_encode {u : Unit16} {cs : List Char} (hu : u.toNat < 0xD800) (h : u ∈ encode cs) :
    ∃ c ∈ cs, Plain c ∧ u = UInt16.ofNat c.toNat := by
  obtain ⟨c, hc, hmem⟩ := List.mem_flatMap.mp h
  refine ⟨c, hc, ?_⟩
  have hvalid := toNat_valid c
  unfold encodeChar at hmem
  split at hmem
  case isTrue hplain => exact ⟨hplain, List.mem_singleton.mp hmem⟩
  case isFalse hplain =>
    have hge : 0x10000 ≤ c.toNat := Nat.le_of_not_lt hplain
    simp only [List.mem_cons, List.not_mem_nil, or_false] at hmem
    rcases hmem with rfl | rfl
    · rw [UInt16.toNat_ofNat_of_lt' (by show _ < 65536; omega)] at hu
      omega
    · rw [UInt16.toNat_ofNat_of_lt' (by show _ < 65536; omega)] at hu
      omega

/-- Code units tell prefixes as characters do. -/
theorem encode_isPrefix {as bs : List Char} : encode as <+: encode bs ↔ as <+: bs := by
  constructor
  · rintro ⟨us, hus⟩
    refine ⟨decode us, ?_⟩
    rw [← decode_encode_append, hus, decode_encode]
  · rintro ⟨cs, rfl⟩
    exact ⟨encode cs, (encode_append as cs).symm⟩

theorem encode_eq_nil {cs : List Char} : encode cs = [] ↔ cs = [] := by
  constructor
  · intro h
    rw [← decode_encode cs, h]
    rfl
  · rintro rfl
    rfl

theorem length_encodeChar (c : Char) : (encodeChar c).length = if Plain c then 1 else 2 := by
  unfold encodeChar
  split <;> rfl

theorem length_le_length_encode (cs : List Char) : cs.length ≤ (encode cs).length := by
  induction cs with
  | nil => exact Nat.le_refl 0
  | cons c cs ih =>
    rw [encode_cons, List.length_append, length_encodeChar, List.length_cons]
    split <;> omega

/-- A text is as long in units as in characters when it stays in the plane, and only then. -/
theorem length_encode_eq_iff {cs : List Char} :
    (encode cs).length = cs.length ↔ ∀ c ∈ cs, Plain c := by
  induction cs with
  | nil => simp [encode]
  | cons c cs ih =>
    have hle := length_le_length_encode cs
    rw [encode_cons, List.length_append, length_encodeChar, List.length_cons,
      List.forall_mem_cons, ← ih]
    split
    case isTrue hc => simp only [hc, true_and]; omega
    case isFalse hc => simp only [hc, false_and, iff_false]; omega

/-! ## Written out and read again -/

/-- A text in front of anything but the second half of a pair is read by itself. -/
theorem decode_append {as bs : List Unit16} (h : ∀ u ∈ bs.head?, isLowSurrogate u = false) :
    decode (as ++ bs) = decode as ++ decode bs := by
  fun_induction decode as with
  | case1 => rfl
  | case2 u =>
    cases bs with
    | nil => simp [decode]
    | cons v bs =>
      have hlow : isLowSurrogate v = false := h v rfl
      by_cases hhigh : isHighSurrogate u = true
      · simp [decode, hhigh, hlow]
      · simp [decode, hhigh]
  | case3 u v us hhigh hlow ih => simp [decode, hhigh, hlow, ih]
  | case4 u v us hhigh hlow ih =>
    rw [List.cons_append, List.cons_append, decode, if_pos hhigh, if_neg hlow, ← List.cons_append,
      ih, List.cons_append]
  | case5 u v us hhigh ih =>
    rw [List.cons_append, List.cons_append, decode, if_neg hhigh, ← List.cons_append, ih,
      List.cons_append]

/-- The units after they were written out and read again. -/
def written (us : List Unit16) : List Unit16 := encode (decode us)

/-- Encoded text is written as it is. -/
theorem written_encode (cs : List Char) : written (encode cs) = encode cs := by
  rw [written, decode_encode]

/-- Writing goes part by part where no pair is cut. -/
theorem written_append {as bs : List Unit16} (h : ∀ u ∈ bs.head?, isLowSurrogate u = false) :
    written (as ++ bs) = written as ++ written bs := by
  rw [written, decode_append h, encode_append]
  rfl

theorem encodeChar_ofNat {u : Unit16} (hhigh : isHighSurrogate u = false)
    (hlow : isLowSurrogate u = false) :
    encodeChar (Char.ofNat u.toNat) = [u] := by
  simp only [isLowSurrogate, isHighSurrogate, Bool.and_eq_false_iff, decide_eq_false_iff_not]
    at hlow hhigh
  have hlt := u.toNat_lt
  have hvalid : u.toNat.isValidChar := by
    simp only [Nat.isValidChar]
    omega
  have hnat : (Char.ofNat u.toNat).toNat = u.toNat := by
    rw [Char.ofNat, dif_pos hvalid]
    rfl
  have hplain : Plain (Char.ofNat u.toNat) := by
    rw [Plain, hnat]
    exact hlt
  rw [encodeChar, if_pos hplain, hnat, UInt16.ofNat_toNat]

/-- Of the units that are no surrogates, a text that was written out has those it had, and marks for
what was not read. -/
theorem mem_written {u : Unit16} (hu : u.toNat < 0xD800) (hmark : u ≠ 0x3F) {us : List Unit16} :
    u ∈ written us ↔ u ∈ us := by
  have hsurrogate {v : Unit16} (hv : isHighSurrogate v = true ∨ isLowSurrogate v = true) :
      u ≠ v := by
    rintro rfl
    simp only [isLowSurrogate, isHighSurrogate, Bool.and_eq_true, decide_eq_true_eq] at hv
    omega
  have hlone : u ∉ encodeChar '?' := by
    rw [encodeChar, if_pos (by decide), List.mem_singleton]
    exact hmark
  have hpair {v w : Unit16} (hv : isHighSurrogate v = true) (hw : isLowSurrogate w = true) :
      u ∉ encodeChar (ofPair v w) := by
    intro hmem
    have hunits : u ∈ encode [ofPair v w] := by rwa [encode_cons, encode_nil, List.append_nil]
    obtain ⟨c, hc, hplain, -⟩ := of_mem_encode hu hunits
    rw [List.mem_singleton.mp hc] at hplain
    simp only [isLowSurrogate, isHighSurrogate, Bool.and_eq_true, decide_eq_true_eq] at hv hw
    have hvalid : (0x10000 + (v.toNat - 0xD800) * 0x400 + (w.toNat - 0xDC00)).isValidChar := by
      simp only [Nat.isValidChar]
      omega
    have hnat : (ofPair v w).toNat = 0x10000 + (v.toNat - 0xD800) * 0x400 + (w.toNat - 0xDC00) := by
      rw [ofPair, Char.ofNat, dif_pos hvalid]
      rfl
    simp only [Plain, hnat] at hplain
    omega
  show u ∈ encode (decode us) ↔ u ∈ us
  induction us using decode.induct with
  | case1 => exact Iff.rfl
  | case2 v =>
    rw [decode, encode_cons, encode_nil, List.append_nil, List.mem_singleton]
    split
    case isTrue hv =>
      rw [Bool.or_eq_true] at hv
      exact iff_of_false hlone (hsurrogate hv)
    case isFalse hv =>
      rw [Bool.or_eq_true, not_or, Bool.not_eq_true, Bool.not_eq_true] at hv
      rw [encodeChar_ofNat hv.1 hv.2, List.mem_singleton]
  | case3 v w us hv hw ih =>
    rw [decode, if_pos hv, if_pos hw, encode_cons, List.mem_append, or_iff_right (hpair hv hw), ih,
      List.mem_cons, List.mem_cons,
      or_iff_right (hsurrogate (.inl hv)), or_iff_right (hsurrogate (.inr hw))]
  | case4 v w us hv hw ih =>
    rw [decode, if_pos hv, if_neg hw, encode_cons, List.mem_append, or_iff_right hlone, ih]
    exact (List.mem_cons.trans (or_iff_right (hsurrogate (.inl hv)))).symm
  | case5 v w us hv ih =>
    rw [decode, if_neg hv, encode_cons, List.mem_append, ih]
    refine Iff.trans (or_congr_left ?_) List.mem_cons.symm
    split
    case isTrue hlow => exact iff_of_false hlone (hsurrogate (.inr hlow))
    case isFalse hlow =>
      rw [Bool.not_eq_true] at hv hlow
      rw [encodeChar_ofNat hv hlow, List.mem_singleton]

end WinEmulator.Lib.Utf16
