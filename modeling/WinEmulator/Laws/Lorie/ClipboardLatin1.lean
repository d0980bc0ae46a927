import WinEmulator.Laws.Lorie.ClipboardPasses

/-!
# Latin-1 there and back

The text of a `STRING` property is sent as UTF-8, and what is received is converted to Latin-1
again. The sizes of the arrays in between are computed in 32 bits, and the arrays stand on the
stack.
-/

set_option autoImplicit false

namespace WinEmulator.Lorie.ClipboardText

open WinEmulator.Lib WinEmulator.Lib.LeadBytes
open WinEmulator.Lorie.Clipboard (XA_STRING xaSTRING isContinuation cString latin1Bytes)

/-- The property that a selection is converted to when its target is `STRING`, of bytes that are no
NUL. -/
structure StringProperty extends PropertyRec where
  type_eq : type = xaSTRING
  format_eq : format = 8
  nul_free : 0 ∉ data

/-- The UTF-8 encoding of a text in Latin-1. -/
def utf8 (s : List UInt8) : List UInt8 :=
  s.flatMap fun b => String.utf8EncodeChar (Char.ofNat b.toNat)

def withoutCR (s : List UInt8) : List UInt8 := s.filter (· ≠ 13)

/-- The text is sent as UTF-8 without its carriage returns, and is the same text when it is
converted back. -/
def RoundTrips (stack : Stack) (prop : StringProperty) : Prop :=
  lorieHandleSelection stack xaSTRING (some prop.toPropertyRec) =
      some (.lorieSendClipboardData (utf8 (withoutCR prop.data))) ∧
    lorieUtf8ToLatin1 (utf8 (withoutCR prop.data) ++ [0]) = some (withoutCR prop.data)

variable {b : UInt8} {s rest : List UInt8}

/-! ## Bytes -/

/-- The two bytes of the encoder. -/
def lead (b : UInt8) : UInt8 := 0xc2 + if b > 0xbf then 1 else 0

def tail (b : UInt8) : UInt8 := (b &&& 0x3f) + 0x80

theorem utf8_cons (b : UInt8) (s : List UInt8) :
    utf8 (b :: s) = (if b < 128 then [b] else [lead b, tail b]) ++ utf8 s := by
  have hall :
      ∀ b : UInt8,
        String.utf8EncodeChar (Char.ofNat b.toNat) = if b < 128 then [b] else [lead b, tail b] :=
    forall_byte (by decide +kernel)
  rw [utf8, List.flatMap_cons, hall]
  rfl

theorem follows_ascii : ∀ b : UInt8, b < 128 → follows b = some 0 := forall_byte (by decide +kernel)

/-- The pair is a sequence, with no NUL in it. -/
theorem pair_facts : ∀ b : UInt8, ¬b < 128 →
    follows (lead b) = some 1 ∧ isContinuation (tail b) = true ∧ lead b ≠ 0 ∧ tail b ≠ 0 ∧
      lead b &&& 0x80 ≠ 0 ∧ lead b &&& 0xe0 = 0xc0 ∧
      (lead b &&& 0x1f).toUInt32 <<< 6 ||| (tail b &&& 0x3f).toUInt32 = b.toUInt32 ∧
        ¬0xd800 ≤ b.toUInt32 :=
  forall_byte (by decide +kernel)

theorem utf8_nul_free (hs : 0 ∉ s) : 0 ∉ utf8 s := by
  induction s with
  | nil => exact List.not_mem_nil
  | cons b s ih =>
    rw [List.mem_cons, not_or] at hs
    rw [utf8_cons, List.mem_append, not_or]
    refine ⟨?_, ih hs.2⟩
    split
    case isTrue => exact fun h => hs.1 (List.mem_singleton.mp h)
    case isFalse hb =>
      obtain ⟨-, -, hlead, htail, -⟩ := pair_facts b hb
      simp [hlead.symm, htail.symm]

/-- UTF-8 takes at most two bytes for a byte of Latin-1. -/
theorem utf8_length_le (s : List UInt8) : (utf8 s).length ≤ 2 * s.length := by
  induction s with
  | nil => exact le_rfl
  | cons b s ih =>
    rw [utf8_cons, List.length_append, List.length_cons]
    split <;> simp only [List.length_cons, List.length_nil] <;> omega

theorem cString_eq (hs : 0 ∉ s) : cString s = s := by
  apply List.takeWhile_eq_self_iff.mpr
  exact fun b hb => decide_eq_true fun h => hs (h ▸ hb)

/-! ## What is sent -/

theorem store_append (front rest : List UInt8) (old b : UInt8) :
    store (front ++ old :: rest) front.length b = some (front ++ [b] ++ rest) := by
  simp [store]

theorem store_past (front : List UInt8) (b : UInt8) : store front front.length b = none := by
  rw [store, if_neg (Nat.lt_irrefl _)]

theorem length_store {array array' : List UInt8} {i : Nat} (h : store array i b = some array') :
    array'.length = array.length := by
  unfold store at h
  split at h
  · cases h
    exact List.length_set
  · cases h

/-- The loop copies what is no carriage return and leaves the rest of the array. -/
theorem convertLF_eq (src front rest : List UInt8) (h : src.length ≤ rest.length) :
    convertLF src.length src front.length (front ++ rest) =
      some (front ++ withoutCR src ++ rest.drop (withoutCR src).length) := by
  induction src generalizing front rest with
  | nil => simp [convertLF, withoutCR]
  | cons b src ih =>
    rw [List.length_cons, convertLF]
    rw [List.length_cons] at h
    split
    case isTrue hb =>
      obtain ⟨old, rest, rfl⟩ := List.exists_cons_of_length_pos (show 0 < rest.length by omega)
      have hih := ih (front ++ [b]) rest (Nat.le_of_succ_le_succ h)
      rw [List.length_append, List.length_singleton] at hih
      rw [store_append, Option.bind_some, hih]
      simp [withoutCR, hb]
    case isFalse hb =>
      rw [ih front rest (by omega)]
      simp [withoutCR, not_not.mp hb]

theorem length_convertLF {bytes j : Nat} {src dst dst' : List UInt8}
    (h : convertLF bytes src j dst = some dst') :
    dst'.length = dst.length := by
  induction bytes generalizing src j dst with
  | zero =>
    cases h
    rfl
  | succ bytes ih =>
    cases src with
    | nil => cases h
    | cons b src =>
      rw [convertLF] at h
      split at h
      · obtain ⟨mid, hstore, h⟩ := Option.bind_eq_some_iff.mp h
        exact (ih h).trans (length_store hstore)
      · exact ih h

/-- The encoder writes as far as there is room. -/
theorem latin1ToUTF8_eq (hs : 0 ∉ s) (tail front rest : List UInt8) :
    latin1ToUTF8 (s ++ 0 :: tail) front.length (front ++ rest) =
      if (utf8 s).length ≤ rest.length then some (front ++ utf8 s ++ rest.drop (utf8 s).length)
        else none := by
  induction s generalizing front rest with
  | nil => simp [latin1ToUTF8, utf8]
  | cons b s ih =>
    rw [List.mem_cons, not_or] at hs
    rw [List.cons_append, latin1ToUTF8, if_neg (Ne.symm hs.1), utf8_cons]
    split
    case isTrue hb =>
      cases rest with
      | nil => rw [List.append_nil, store_past, if_neg (by simp)]; rfl
      | cons old rest =>
        have hih := ih hs.2 (front ++ [b]) rest
        rw [List.length_append, List.length_singleton] at hih
        rw [store_append, Option.bind_some, hih]
        simp
    case isFalse hb =>
      cases rest with
      | nil => rw [List.append_nil, store_past, if_neg (by simp)]; rfl
      | cons old rest =>
        rw [← lead, store_append, Option.bind_some, ← ClipboardText.tail]
        cases rest with
        | nil =>
          have hpast := store_past (front ++ [lead b]) (ClipboardText.tail b)
          rw [List.length_append, List.length_singleton] at hpast
          rw [List.append_nil, hpast, if_neg (by simp)]
          rfl
        | cons old' rest =>
          have hstore := store_append (front ++ [lead b]) rest old' (ClipboardText.tail b)
          have hih := ih hs.2 (front ++ [lead b] ++ [ClipboardText.tail b]) rest
          rw [List.length_append, List.length_singleton] at hstore
          rw [List.length_append, List.length_append, List.length_singleton, List.length_singleton]
            at hih
          rw [hstore, Option.bind_some, hih]
          simp

theorem StringProperty.length_data (prop : StringProperty) :
    prop.data.length = prop.size.toNat := by
  rw [prop.sized, prop.format_eq]
  exact Nat.mul_one _

theorem withoutCR_length_le (s : List UInt8) : (withoutCR s).length ≤ s.length :=
  List.length_filter_le ..

theorem withoutCR_nul_free (hs : 0 ∉ s) : 0 ∉ withoutCR s := fun h => hs (List.mem_filter.mp h).1

/-- The text as it is after the filter, with the terminator that is left of the array. -/
theorem lorieConvertLF_eq (prop : StringProperty) :
    ∃ rest, lorieConvertLF prop.data (List.replicate (prop.size.toNat + 1) 0) prop.size.toNat =
      some (withoutCR prop.data ++ 0 :: rest) := by
  have hle := withoutCR_length_le prop.data
  have hconvert := convertLF_eq prop.data [] (List.replicate (prop.size.toNat + 1) 0)
    (by rw [List.length_replicate, prop.length_data]; omega)
  rw [prop.length_data] at hle hconvert
  obtain ⟨k, hk⟩ := Nat.exists_eq_add_of_lt (Nat.lt_succ_of_le hle)
  refine ⟨List.replicate k 0, hconvert.trans ?_⟩
  rw [List.drop_replicate, show prop.size.toNat + 1 - (withoutCR prop.data).length = k + 1 by omega]
  rfl

theorem Stack.le_taken (stack : Stack) (size : Nat) : size ≤ stack.taken size := by
  have hdiv := Nat.div_add_mod (size + stack.align - 1) stack.align
  have hmod := Nat.mod_lt (size + stack.align - 1) stack.align_pos
  have halign := stack.align_pos
  unfold Stack.taken
  rw [Nat.mul_comm]
  omega

/-- What is sent of a `STRING` property. -/
theorem handle_string (stack : Stack) (prop : StringProperty) :
    lorieHandleSelection stack xaSTRING (some prop.toPropertyRec) =
      (stack.array (prop.size + 1)).bind fun (filtered, stack) =>
        (stack.array ((prop.size + 1) * 2)).bind fun (utf8, _) =>
          (lorieConvertLF prop.data filtered prop.size.toNat).bind fun filtered =>
            (lorieLatin1ToUTF8 utf8 filtered).bind fun utf8 =>
              (text utf8).map .lorieSendClipboardData := by
  have htargets :
      ¬(xaSTRING ≠ Clipboard.xaTARGETS ∧ xaSTRING ≠ xaSTRING ∧
        xaSTRING ≠ Clipboard.xaUTF8_STRING) := by decide
  have hne : ¬(xaSTRING = Clipboard.xaTARGETS ∧ prop.type = Clipboard.XA_ATOM ∧
      prop.format = 32) := fun h =>
    absurd h.1 (by decide)
  have hmap :
      ∀ o : Option (List UInt8), (o.bind fun data => some (Outcome.lorieSendClipboardData data)) =
      o.map .lorieSendClipboardData := fun o => by cases o <;> rfl
  unfold lorieHandleSelection
  rw [if_neg htargets]
  dsimp only
  rw [if_neg hne, if_pos ⟨rfl, prop.type_eq, prop.format_eq⟩]
  dsimp only [bind, pure]
  simp only [hmap]

/-- The arrays have room for the text and its terminator, and the stack has room for the arrays. -/
def HasRoom (stack : Stack) (prop : StringProperty) : Prop :=
  prop.data.length + 1 < 2 ^ 32 ∧
    (utf8 (withoutCR prop.data)).length < (prop.data.length + 1) * 2 % 2 ^ 32 ∧
      stack.taken (prop.data.length + 1) + stack.taken ((prop.data.length + 1) * 2 % 2 ^ 32) ≤
        stack.free

theorem size_succ (prop : StringProperty) (h : prop.data.length + 1 < 2 ^ 32) :
    (prop.size + 1).toNat = prop.size.toNat + 1 := by
  rw [prop.length_data] at h
  rw [UInt32.toNat_add]
  exact Nat.mod_eq_of_lt h

/-- The size of the second array is taken in 32 bits. -/
theorem size_utf8 (prop : StringProperty) :
    ((prop.size + 1) * 2).toNat = (prop.data.length + 1) * 2 % 2 ^ 32 := by
  rw [prop.length_data, UInt32.toNat_mul, UInt32.toNat_add, Nat.mod_mul_mod]
  rfl

/-- The encoded text is left with its terminator if there is room for both. -/
theorem text_lorieLatin1ToUTF8 (hs : 0 ∉ s) (tail : List UInt8) (room : Nat) :
    ((lorieLatin1ToUTF8 (List.replicate room 0) (s ++ 0 :: tail)).bind fun array =>
        (text array).map Outcome.lorieSendClipboardData) =
      if (utf8 s).length < room then some (.lorieSendClipboardData (utf8 s)) else none := by
  have hlatin1 := latin1ToUTF8_eq hs tail [] (List.replicate room 0)
  rw [List.nil_append, List.length_nil, List.length_replicate] at hlatin1
  rw [lorieLatin1ToUTF8, hlatin1]
  by_cases hle : (utf8 s).length ≤ room
  · rw [if_pos hle, Option.bind_some, List.nil_append, List.drop_replicate]
    obtain ⟨left, rfl⟩ := Nat.exists_eq_add_of_le hle
    rw [Nat.add_sub_cancel_left]
    cases left with
    | zero =>
      rw [List.replicate_zero, List.append_nil, text, if_neg (utf8_nul_free hs), Nat.add_zero,
        if_neg (Nat.lt_irrefl _)]
      rfl
    | succ left =>
      rw [List.replicate_succ, text_terminated, cString_eq (utf8_nul_free hs),
        if_pos (Nat.lt_add_of_pos_right (Nat.succ_pos _))]
      rfl
  · rw [if_neg hle, if_neg fun h => hle h.le]
    rfl

theorem sends_iff (stack : Stack) (prop : StringProperty) :
    lorieHandleSelection stack xaSTRING (some prop.toPropertyRec) =
        some (.lorieSendClipboardData (utf8 (withoutCR prop.data))) ↔ HasRoom stack prop := by
  have hnul := withoutCR_nul_free prop.nul_free
  rw [handle_string, HasRoom]
  unfold Stack.array
  rw [size_utf8]
  by_cases hsize : prop.data.length + 1 < 2 ^ 32
  · obtain ⟨rest, hconvert⟩ := lorieConvertLF_eq prop
    rw [and_iff_right hsize, size_succ prop hsize, ← prop.length_data]
    rw [← prop.length_data] at hconvert
    generalize (prop.data.length + 1) * 2 % 2 ^ 32 = room
    split
    case isTrue hfiltered =>
      rw [Option.bind_some]
      dsimp only
      change Option.bind (if stack.taken room ≤ _ then _ else _) _ = _ ↔ _
      split
      case isTrue hutf8 =>
        rw [Option.bind_some]
        dsimp only
        rw [hconvert, Option.bind_some, text_lorieLatin1ToUTF8 hnul, and_iff_left (by omega)]
        split
        case isTrue hlt => exact iff_of_true rfl hlt
        case isFalse hlt => exact iff_of_false nofun hlt
      case isFalse hutf8 => exact iff_of_false nofun fun h => hutf8 (by omega)
    case isFalse hfiltered => exact iff_of_false nofun fun h => hfiltered (by omega)
  · -- The size is the greatest one: both arrays are empty.
    refine iff_of_false ?_ fun h => hsize h.1
    have hlt := prop.size.toNat_lt
    have hzero : (prop.size + 1).toNat = 0 := by
      rw [prop.length_data] at hsize
      rw [UInt32.toNat_add, show prop.size.toNat = 2 ^ 32 - 1 by omega]
      rfl
    rw [hzero, List.replicate_zero]
    intro hsends
    obtain ⟨⟨array, left⟩, harray, hrest⟩ := Option.bind_eq_some_iff.mp hsends
    obtain ⟨⟨utf8, left'⟩, -, hrest'⟩ := Option.bind_eq_some_iff.mp hrest
    obtain ⟨filtered, hconvert, htext⟩ := Option.bind_eq_some_iff.mp hrest'
    split at harray
    · cases harray
      rw [List.eq_nil_of_length_eq_zero (length_convertLF hconvert)] at htext
      cases htext
    · cases harray

/-- On a stack of less than 2 GiB it is the stack alone that counts. -/
theorem hasRoom_iff_fits (stack : Stack) (hfree : stack.free < 2 ^ 31) (prop : StringProperty) :
    HasRoom stack prop ↔
      stack.taken (prop.data.length + 1) + stack.taken ((prop.data.length + 1) * 2) ≤
        stack.free := by
  have hle := stack.le_taken (prop.data.length + 1)
  have hutf8 := utf8_length_le (withoutCR prop.data)
  have hshorter := withoutCR_length_le prop.data
  unfold HasRoom
  by_cases hlength : prop.data.length + 1 < 2 ^ 31
  · rw [Nat.mod_eq_of_lt (by omega)]
    exact ⟨fun h => h.2.2, fun h => ⟨by omega, by omega, h⟩⟩
  · exact iff_of_false (fun h => by omega) fun h => by omega

/-! ## What is received -/

theorem sequence_byte (b : UInt8) :
    Sequence follows isContinuation (if b < 128 then [b] else [lead b, tail b]) := by
  split
  case isTrue hb => exact .inl ⟨follows_ascii b hb, nofun⟩
  case isFalse hb =>
    obtain ⟨hfollows, htail, -⟩ := pair_facts b hb
    refine .inl ⟨hfollows, fun t ht => ?_⟩
    rw [List.mem_singleton.mp ht]
    exact htail

/-- A text that was encoded is whole. -/
theorem not_cutAtEnd_utf8 (s : List UInt8) : ¬CutAtEnd follows isContinuation (utf8 s) := by
  induction s with
  | nil => exact not_cutAtEnd_nil
  | cons b s ih =>
    rw [utf8_cons, cutAtEnd_append (sequence_byte b)]
    exact ih

/-- An ASCII byte is read as itself. -/
theorem lorieUtf8ToUCS4_ascii (hb : b < 128) (rest : List UInt8) :
    Clipboard.lorieUtf8ToUCS4 b rest = (1, b.toUInt32) := by
  have hall :
      ∀ b : UInt8, b < 128 → b &&& 0x80 = 0 ∧ ¬0xd800 ≤ (b &&& 0xff).toUInt32 ∧
        (b &&& 0xff).toUInt32 = b.toUInt32 :=
    forall_byte (by decide +kernel)
  obtain ⟨hhigh, hsurrogate, heq⟩ := hall b hb
  unfold Clipboard.lorieUtf8ToUCS4 Clipboard.continuation
  rw [if_pos hhigh]
  dsimp only
  rw [if_neg fun h => hsurrogate h.1, heq]

/-- A pair of bytes is read as the character it encodes. -/
theorem lorieUtf8ToUCS4_pair (hb : ¬b < 128) (rest : List UInt8) :
    Clipboard.lorieUtf8ToUCS4 (lead b) (tail b :: rest) = (2, b.toUInt32) := by
  obtain ⟨-, htail, -, -, hhigh, htwo, hvalue, hsurrogate⟩ := pair_facts b hb
  unfold Clipboard.lorieUtf8ToUCS4
  rw [if_neg hhigh, if_pos htwo]
  dsimp only
  unfold Clipboard.continuation
  rw [List.headD_cons, List.tail_cons, if_pos htail, hvalue]
  unfold Clipboard.continuation
  dsimp only
  rw [if_neg fun h => hsurrogate h.1]

/-- A character of Latin-1 is written as it is. -/
theorem latin1_toUInt32 :
    ∀ b : UInt8, (if b.toUInt32 > 0xff then 0x3f else b.toUInt32.toUInt8) = b :=
  forall_byte (by decide +kernel)

/-- Reading back gives the bytes of the property. -/
theorem latin1Bytes_utf8 (s : List UInt8) {fuel : Nat} (hfuel : (utf8 s).length ≤ fuel) :
    latin1Bytes fuel (utf8 s) = s := by
  induction s generalizing fuel with
  | nil => cases fuel <;> rfl
  | cons b s ih =>
    rw [utf8_cons, List.length_append] at hfuel
    rw [utf8_cons]
    split at hfuel
    case isTrue hb =>
      rw [List.length_singleton] at hfuel
      obtain ⟨fuel, rfl⟩ := Nat.exists_eq_succ_of_ne_zero (show fuel ≠ 0 by omega)
      rw [if_pos hb, List.singleton_append, latin1Bytes, lorieUtf8ToUCS4_ascii hb]
      dsimp only
      rw [List.drop_succ_cons, List.drop_zero, latin1_toUInt32, ih (by omega)]
    case isFalse hb =>
      rw [List.length_cons, List.length_singleton] at hfuel
      obtain ⟨fuel, rfl⟩ := Nat.exists_eq_succ_of_ne_zero (show fuel ≠ 0 by omega)
      rw [if_neg hb, List.cons_append, List.singleton_append, latin1Bytes, lorieUtf8ToUCS4_pair hb]
      dsimp only
      rw [List.drop_succ_cons, List.drop_succ_cons, List.drop_zero, latin1_toUInt32, ih (by omega)]

/-- What was encoded is read back. -/
theorem lorieUtf8ToLatin1_utf8 (hs : 0 ∉ s) (hlength : (utf8 s).length < 2 ^ 32) :
    lorieUtf8ToLatin1 (utf8 s ++ [0]) = some s := by
  have heq := lorieUtf8ToLatin1_eq ⟨utf8 s, utf8_nul_free hs, by omega⟩ (not_cutAtEnd_utf8 s)
    (show (utf8 s).length ≤ 4294967295 by omega)
  rw [heq, Clipboard.lorieUtf8ToLatin1, latin1Bytes_utf8 s le_rfl, cString_eq hs]

/-- **A text in Latin-1 is sent as it is but for its carriage returns, within the arrays, and comes
back,** exactly if its encoding and the terminator have room in what `(prop->size + 1) * 2` is in 32
bits, and the stack has room for the arrays. -/
theorem latin1_roundTrips_iff (stack : Stack) (prop : StringProperty) :
    RoundTrips stack prop ↔ HasRoom stack prop := by
  rw [RoundTrips, sends_iff]
  refine and_iff_left_of_imp fun hroom => ?_
  apply lorieUtf8ToLatin1_utf8 (withoutCR_nul_free prop.nul_free)
  exact hroom.2.1.trans (Nat.mod_lt _ (by decide))

/-- The letter `A`, again and again. -/
def letters (n : UInt32) : StringProperty where
  type := xaSTRING
  format := 8
  size := n
  data := List.replicate n.toNat 0x41
  sized := List.length_replicate.trans (Nat.mul_one _).symm
  type_eq := rfl
  format_eq := rfl
  nul_free h := absurd (List.eq_of_mem_replicate h) (by decide)

/-- All of the megabyte that a thread's stack has by default. -/
def defaultStack : Stack := ⟨2 ^ 20, 16, by decide⟩

/-- Both arrays together are more than a megabyte; and twice as many bytes as 2147483648 are none in
32 bits, whatever the stack. -/
theorem letters_not_roundTrips :
    ¬RoundTrips defaultStack (letters 400000) ∧ ∀ stack,
      ¬RoundTrips stack (letters 2147483647) := by
  constructor
  · rintro ⟨hsends, -⟩
    have hfits := (hasRoom_iff_fits _ (by decide) _).mp ((sends_iff _ _).mp hsends)
    rw [(letters 400000).length_data] at hfits
    exact absurd hfits (by decide +kernel)
  · rintro stack ⟨hsends, -⟩
    have hroom := ((sends_iff stack _).mp hsends).2.1
    rw [(letters 2147483647).length_data] at hroom
    exact Nat.not_lt_zero _ hroom

end WinEmulator.Lorie.ClipboardText
