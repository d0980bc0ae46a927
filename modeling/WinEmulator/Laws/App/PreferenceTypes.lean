import WinEmulator.App.SettingsFile
import WinEmulator.Laws.App.ExportSettings

/-!
# Preferences keep their types

A value is written without its type, and read as the first type in a list that its token can be of.
A whole number can always be an `Int` or a `Float`, and `Long` comes after both. So a map is read
back as it was exactly when it has no `Long`.
-/

set_option autoImplicit false

namespace WinEmulator.App.PreferenceCodec

open WinEmulator.Lib
open WinEmulator.Lib.JavaString (text)
open WinEmulator.App.SettingsFile

/-! ## Strings that a file holds -/

/-- A character is white space as its units are. -/
theorem isWhitespace_encodeChar (c : Char) :
    (∃ u, Utf16.encodeChar c = [u] ∧ isWhitespace u = App.isWhitespace c) ∨
      ∃ high low, Utf16.encodeChar c = [high, low] ∧ isWhitespace high = false ∧
        isWhitespace low = false ∧
        App.isWhitespace c = false := by
  rw [Utf16.encodeChar]
  by_cases hplain : Utf16.Plain c
  · rw [if_pos hplain]
    refine .inl ⟨_, rfl, ?_⟩
    rw [isWhitespace, UInt16.toNat_ofNat_of_lt' hplain, Char.ofNat_toNat]
  · rw [if_neg hplain]
    have hvalid := Utf16.toNat_valid c
    have hlow : ¬ c.toNat < 0x10000 := hplain
    have hsurrogate : ∀ n, 0xD800 ≤ n → n < 0xE000 → isWhitespace (UInt16.ofNat n) = false := by
      intro n hge hlt
      have hnot : ¬ n.isValidChar := by
        simp only [Nat.isValidChar]
        omega
      rw [isWhitespace, UInt16.toNat_ofNat_of_lt' (Nat.lt_trans hlt (by decide)), Char.ofNat,
        dif_neg hnot]
      rfl
    refine .inr ⟨_, _, rfl, hsurrogate _ (by omega) (by omega),
      hsurrogate _ (by omega) (by omega), ?_⟩
    simp only [App.isWhitespace, Bool.or_eq_false_iff, Bool.and_eq_false_iff,
      decide_eq_false_iff_not]
    omega

theorem dropWhile_encode (cs : Text) :
    (Utf16.encode cs).dropWhile isWhitespace = Utf16.encode (cs.dropWhile App.isWhitespace) := by
  induction cs with
  | nil => rfl
  | cons c cs ih =>
    rw [Utf16.encode_cons, List.dropWhile_cons]
    obtain ⟨u, hunits, hspace⟩ | ⟨high, low, hunits, hhigh, -, hspace⟩ := isWhitespace_encodeChar c
    · rw [hunits, List.singleton_append, List.dropWhile_cons, hspace, ih]
      split
      · rfl
      · rw [Utf16.encode_cons, hunits, List.singleton_append]
    · rw [hunits, List.cons_append, List.dropWhile_cons, hhigh, hspace, if_neg (by decide),
        if_neg (by decide),
        Utf16.encode_cons, hunits, List.cons_append]
      rfl

theorem rdropWhile_encode (cs : Text) :
    (Utf16.encode cs).rdropWhile isWhitespace = Utf16.encode (cs.rdropWhile App.isWhitespace) := by
  induction cs using List.reverseRecOn with
  | nil => rfl
  | append_singleton cs c ih =>
    rw [Utf16.encode_append, List.rdropWhile_concat, Utf16.encode_cons, Utf16.encode_nil,
      List.append_nil]
    obtain ⟨u, hunits, hspace⟩ | ⟨high, low, hunits, -, hlow, hspace⟩ := isWhitespace_encodeChar c
    · rw [hunits, List.rdropWhile_concat, hspace, ih]
      split
      · rfl
      · rw [Utf16.encode_append, Utf16.encode_cons, Utf16.encode_nil, List.append_nil, hunits]
    · rw [hunits, show Utf16.encode cs ++ [high, low] = Utf16.encode cs ++ [high] ++ [low] by simp,
        List.rdropWhile_concat, hlow, hspace, if_neg (by decide), if_neg (by decide),
          Utf16.encode_append, Utf16.encode_cons,
        Utf16.encode_nil, List.append_nil, hunits]
      simp

/-- Trimming the units and trimming the characters agree. -/
theorem trim_encode (file : Text) : trim (Utf16.encode file) = Utf16.encode (App.trim file) := by
  rw [trim, dropWhile_encode, rdropWhile_encode]
  rfl

/-- Of the text of a file the codec reads what it reads of the file. -/
theorem deserializeFromJsonToMap_encode {json : Kotlinx} {decodeFromString : Decoder}
    (hdecode : ∀ file, decodeFromString (Utf16.encode file) = json.decodeFromString file)
    (file : Text) :
    deserializeFromJsonToMap json decodeFromString (Utf16.encode file) =
      SettingsFile.deserializeFromJsonToMap json file := by
  rw [deserializeFromJsonToMap, SettingsFile.deserializeFromJsonToMap, trim_encode, hdecode]
  exact if_congr Utf16.encode_eq_nil rfl rfl

/-! ## What is assumed of the library -/

/-- The tokens of values without a fraction. -/
inductive Token : JsonElement → Prop
  | string (content : KString) : Token (.string content)
  | boolean (value : Bool) : Token (.literal (text (if value then "true" else "false")))
  | number (n : Int) : Token (.literal (Utf16.encode (decimal n)))
  | strings (contents : List KString) : Token (.array (contents.map .string))

/-- Members with different names, of such tokens. -/
structure Tokens (members : List (KString × JsonElement)) : Prop where
  nodup : (members.map Prod.fst).Nodup
  tokens : ∀ member ∈ members, Token member.2

/-- The encoder and the decoder are faithful: what is written of such members is read back, and it
stands in braces. -/
structure FaithfulText (json : Kotlinx) (decodeFromString : Decoder) : Prop where
  decode : ∀ members, Tokens members → decodeFromString (json.encodeToString members) = some members
  braces : ∀ members, Tokens members →
    ∃ body, json.encodeToString members = 0x7B :: (body ++ [0x7D])

def IsInt (n : Int) : Prop := -2 ^ 31 ≤ n ∧ n < 2 ^ 31

def IsLong (n : Int) : Prop := -2 ^ 63 ≤ n ∧ n < 2 ^ 63

instance : DecidablePred IsInt := fun n => inferInstanceAs (Decidable (-2 ^ 31 ≤ n ∧ n < 2 ^ 31))

/-- Booleans and whole numbers are written as Kotlin prints them. A boolean is read of nothing else,
an `Int` of the numbers in its range, and a `Float` of every number. -/
structure FaithfulLiterals (json : Kotlinx) : Prop where
  ofInt : ∀ n, json.ofInt n = Utf16.encode (decimal n.toInt)
  ofLong : ∀ n, json.ofLong n = Utf16.encode (decimal n.toInt)
  boolean : ∀ value : Bool, json.booleanOrNull (text (if value then "true" else "false")) =
    some value
  notBoolean : ∀ n, json.booleanOrNull (Utf16.encode (decimal n)) = none
  intOrNull : ∀ n, IsLong n →
    json.intOrNull (Utf16.encode (decimal n)) = if IsInt n then some (Int32.ofInt n) else none
  toInt : ∀ n : Int32, json.toInt (Utf16.encode (decimal n.toInt)) = some n
  floatOrNull : ∀ n, IsLong n → (json.floatOrNull (Utf16.encode (decimal n))).isSome = true

/-! ## What is to hold -/

/-- The types that are neither `Float` nor `Double`. -/
def wholeKinds : List Kind := [.boolean, .string, .int, .long, .stringSet]

/-- What is written of a map is read as the same map: the same names, with the same values of the
same types. -/
def RoundTrips (json : Kotlinx) (decodeFromString : Decoder) (map : LinkedMap KString PrefValue) :
    Prop :=
  ∀ name, (deserializeFromJsonToMap json decodeFromString (serializeFromMapToJson json map)).get
    name = map.get name

variable {json : Kotlinx} {decodeFromString : Decoder}

/-! ## One value -/

/-- What the token of a value is read as. -/
def reread (json : Kotlinx) (value : PrefValue) : Option PrefValue :=
  (PrefValueSerializer.serialize json value).bind (PrefValueSerializer.deserialize json)

theorem isInt_toInt (n : Int32) : IsInt n.toInt := ⟨n.le_toInt, n.toInt_lt⟩

theorem isLong_of_isInt {n : Int} (h : IsInt n) : IsLong n := by
  unfold IsInt at h
  unfold IsLong
  omega

theorem isLong_toInt (n : Int64) : IsLong n.toInt := ⟨n.le_toInt, n.toInt_lt⟩

/-- A whole number is read as an `Int` or a `Float`. -/
theorem deserialize_number (hjson : FaithfulLiterals json) {n : Int} (h : IsLong n) :
    ∃ value, PrefValueSerializer.deserialize json (.literal (Utf16.encode (decimal n))) =
      some value ∧
      (IsInt n ∧ value = .int (Int32.ofInt n) ∨ ¬ IsInt n ∧ value.kind = .float) := by
  simp only [PrefValueSerializer.deserialize, hjson.notBoolean, hjson.intOrNull n h]
  by_cases hint : IsInt n
  · have htoInt := hjson.toInt (Int32.ofInt n)
    rw [Int32.toInt_ofInt_of_le hint.1 hint.2] at htoInt
    refine ⟨.int (Int32.ofInt n), ?_, .inl ⟨hint, rfl⟩⟩
    simp [hint, htoInt]
  · obtain ⟨bits, hbits⟩ := Option.isSome_iff_exists.mp (hjson.floatOrNull n h)
    refine ⟨.float bits, ?_, .inr ⟨hint, rfl⟩⟩
    simp [hint, hbits]

/-- Each value has a token, of which a value is read, the same exactly if it is no `Long`. -/
theorem exists_token (hjson : FaithfulLiterals json) {value : PrefValue}
    (hkind : value.kind ∈ wholeKinds) :
    ∃ element read, PrefValueSerializer.serialize json value = some element ∧ Token element ∧
      PrefValueSerializer.deserialize json element = some read ∧
        (read = value ↔ value.kind ≠ .long) := by
  cases value with
  | boolean value =>
    refine ⟨_, .boolean value, rfl, .boolean value, ?_, iff_of_true rfl fun h => by cases h⟩
    simp [PrefValueSerializer.deserialize, hjson.boolean]
  | string content =>
    exact ⟨_, .string content, rfl, .string content, rfl, iff_of_true rfl fun h => by cases h⟩
  | int n =>
    obtain ⟨read, hread, ⟨-, rfl⟩ | ⟨hnot, -⟩⟩ :=
      deserialize_number hjson (isLong_of_isInt (isInt_toInt n))
    · refine ⟨_, _, rfl, ?_, ?_,
        iff_of_true (congrArg PrefValue.int (Int32.ofInt_toInt n)) fun h => by cases h⟩
      · rw [hjson.ofInt]
        exact .number _
      · rw [hjson.ofInt]
        exact hread
    · exact absurd (isInt_toInt n) hnot
  | long n =>
    obtain ⟨read, hread, hkind⟩ := deserialize_number hjson (isLong_toInt n)
    refine ⟨_, read, rfl, ?_, ?_, iff_of_false ?_ (fun hne => hne rfl)⟩
    · rw [hjson.ofLong]
      exact .number _
    · rw [hjson.ofLong]
      exact hread
    · rintro rfl
      rcases hkind with ⟨-, hint⟩ | ⟨-, hfloat⟩
      · cases hint
      · cases hfloat
  | stringSet value =>
    refine ⟨_, .stringSet value, rfl, .strings value.elements, ?_,
      iff_of_true rfl fun h => by cases h⟩
    rw [PrefValueSerializer.deserialize, mapM_stringContent, Option.map_some, toSet_elements]
  | float bits => simp [wholeKinds, PrefValue.kind] at hkind
  | double bits => simp [wholeKinds, PrefValue.kind] at hkind

/-! ## A map -/

/-- A whole number is read back as it was unless it is a `Long`. -/
theorem reread_eq_some_iff (hjson : FaithfulLiterals json) {value : PrefValue}
    (hkind : value.kind ∈ wholeKinds) :
    reread json value = some value ↔ value.kind ≠ .long := by
  obtain ⟨element, read, hserialize, -, hdeserialize, hsame⟩ := exists_token hjson hkind
  rw [reread, hserialize, Option.bind_some, hdeserialize, Option.some.injEq, hsame]

theorem trim_braces (body : KString) :
    trim (0x7B :: (body ++ [0x7D])) = 0x7B :: (body ++ [0x7D]) := by
  have hopen : ¬ isWhitespace 0x7B = true := by decide
  have hclose : ¬ isWhitespace 0x7D = true := by decide
  rw [trim, List.dropWhile_cons_of_neg hopen, ← List.cons_append,
    List.rdropWhile_concat_neg _ _ _ hclose]

/-- The members that a map is written as. -/
theorem exists_written (hjson : FaithfulLiterals json) {entries : List (KString × PrefValue)}
    (hnodup : (entries.map Prod.fst).Nodup)
    (hkinds : ∀ entry ∈ entries, entry.2.kind ∈ wholeKinds) :
    ∃ members values, mapValues (PrefValueSerializer.serialize json) entries = some members ∧
      Tokens members ∧
      mapValues (PrefValueSerializer.deserialize json) members = some values := by
  have htoken :
      ∀ entry ∈ entries, ∃ element, PrefValueSerializer.serialize json entry.2 = some element ∧
      Token element ∧
          (PrefValueSerializer.deserialize json element).isSome := fun entry hentry => by
    obtain ⟨element, read, hserialize, htoken, hdeserialize, -⟩ :=
      exists_token hjson (hkinds entry hentry)
    exact ⟨element, hserialize, htoken, Option.isSome_iff_exists.mpr ⟨read, hdeserialize⟩⟩
  obtain ⟨members, hmembers, hnames, hall⟩ := exists_mapValues_of_forall htoken
  obtain ⟨values, hvalues⟩ := exists_mapValues fun member hmember => (hall member hmember).2
  exact ⟨members, values, hmembers,
    ⟨hnames ▸ hnodup, fun member hmember => (hall member hmember).1⟩, hvalues⟩

/-- A value that was written and read is what its token is read as. -/
theorem get_written (htext : FaithfulText json decodeFromString) (hjson : FaithfulLiterals json)
    {map : LinkedMap KString PrefValue} (hkinds : ∀ entry ∈ map.entries, entry.2.kind ∈ wholeKinds)
    (name : KString) :
    (deserializeFromJsonToMap json decodeFromString (serializeFromMapToJson json map)).get name =
      (map.get name).bind (reread json) := by
  obtain ⟨members, values, hmembers, htokens, hvalues⟩ := exists_written hjson map.nodup hkinds
  obtain ⟨body, hbody⟩ := htext.braces members htokens
  have htrim : trim (json.encodeToString members) = json.encodeToString members := by
    rw [hbody, trim_braces]
  have hnonempty : json.encodeToString members ≠ [] := by
    rw [hbody]
    exact nofun
  have hmap : map.get name = LinkedMap.lastValue name map.entries := by
    rw [← LinkedMap.get_ofList, LinkedMap.get_ofList_entries]
  calc (deserializeFromJsonToMap json decodeFromString (serializeFromMapToJson json map)).get name
      = (LinkedMap.ofList values).get name := by
        rw [serializeFromMapToJson, hmembers, deserializeFromJsonToMap, htrim, if_neg hnonempty,
          htext.decode members htokens, Option.bind_some, hvalues]
    _ = (LinkedMap.lastValue name members).bind (PrefValueSerializer.deserialize json) := by
        rw [LinkedMap.get_ofList]
        exact LinkedMap.lastValue_forall₂ (mapValues_eq_some_iff.mp hvalues) name
    _ = ((LinkedMap.lastValue name map.entries).bind (PrefValueSerializer.serialize json)).bind
          (PrefValueSerializer.deserialize json) := by
        rw [LinkedMap.lastValue_forall₂ (mapValues_eq_some_iff.mp hmembers) name]
    _ = (map.get name).bind (reread json) := by
        rw [hmap, Option.bind_assoc]
        rfl

/-- **A map of preferences is read back with the types of its values** exactly when none of them is
a `Long`. -/
theorem preferences_roundTrip_iff (htext : FaithfulText json decodeFromString)
    (hjson : FaithfulLiterals json)
    {map : LinkedMap KString PrefValue}
    (hkinds : ∀ entry ∈ map.entries, entry.2.kind ∈ wholeKinds) :
    RoundTrips json decodeFromString map ↔ ∀ entry ∈ map.entries, entry.2.kind ≠ .long := by
  constructor
  · intro hsame entry hentry
    have hget := map.get_of_mem hentry
    have hread := hsame entry.1
    rw [get_written htext hjson hkinds, hget, Option.bind_some] at hread
    exact (reread_eq_some_iff hjson (hkinds entry hentry)).mp hread
  · intro hnone name
    rw [get_written htext hjson hkinds]
    cases hget : map.get name with
    | none => rfl
    | some value =>
      have hentry := map.mem_of_get hget
      exact (reread_eq_some_iff hjson (hkinds _ hentry)).mpr (hnone _ hentry)

/-! ## A decoder of all strings -/

namespace UnitJson

open Utf16 (Unit16)

/-- Each unit as a character, also a surrogate. -/
def charOf (u : Unit16) : Char :=
  Char.ofNat (if Utf16.isHighSurrogate u ||
    Utf16.isLowSurrogate u then 0x10000 + u.toNat else u.toNat)

def unitOf (c : Char) : Unit16 := UInt16.ofNat c.toNat

def chars (s : KString) : Text := s.map charOf

def units (cs : Text) : KString := cs.map unitOf

def toValue : JsonElement → Json.Value
  | .string content => .string (chars content)
  | .literal content => .literal (chars content)
  | .array elements => .strings ((elements.filterMap PrefValueSerializer.stringContent).map chars)
  | .object _ => .strings []

def ofValue : Json.Value → JsonElement
  | .string s => .string (units s)
  | .literal cs => .literal (units cs)
  | .strings ss => .array (ss.map fun s => .string (units s))

def toMember (member : KString × JsonElement) : Json.Member := (chars member.1, toValue member.2)

def ofMember (member : Json.Member) : KString × JsonElement := (units member.1, ofValue member.2)

/-- `String.toFloatOrNull` of whole numbers. -/
def toFloat (content : KString) : Option UInt32 :=
  (ProotRootfs.toLong asciiDigit (Utf16.decode content)).map fun n => (Float32.ofInt n).toBits

def decoder : Decoder := fun s =>
  (Json.read (chars s)).map fun members => members.map ofMember

/-- The character that stands for a unit. -/
theorem toNat_charOf (u : Unit16) :
    (charOf u).toNat = if Utf16.isHighSurrogate u ||
      Utf16.isLowSurrogate u then 0x10000 + u.toNat else u.toNat := by
  have hlt := u.toNat_lt
  have hvalid :
      (if Utf16.isHighSurrogate u ||
        Utf16.isLowSurrogate u then 0x10000 + u.toNat else u.toNat).isValidChar := by
    split
    · exact .inr ⟨by omega, by omega⟩
    case isFalse h =>
      simp only [Utf16.isHighSurrogate, Utf16.isLowSurrogate, Bool.or_eq_true, Bool.and_eq_true,
        decide_eq_true_eq] at h
      simp only [Nat.isValidChar]
      omega
  rw [charOf, Char.ofNat, dif_pos hvalid]
  rfl

theorem unitOf_charOf (u : Unit16) : unitOf (charOf u) = u := by
  have hlt := u.toNat_lt
  apply UInt16.toNat_inj.mp
  rw [unitOf, UInt16.toNat_ofNat', toNat_charOf]
  split <;> omega

/-- Every string of units is the units of its characters. -/
theorem units_chars (s : KString) : units (chars s) = s := by
  rw [units, chars, List.map_map]
  exact (List.map_congr_left fun u _ => unitOf_charOf u).trans (List.map_id s)

/-- The characters that units stand for. -/
def Single (c : Char) : Prop := charOf (unitOf c) = c

theorem single_charOf (u : Unit16) : Single (charOf u) := by rw [Single, unitOf_charOf]

theorem single_of_ascii {c : Char} (h : c.toNat < 0x80) : Single c := by
  have hunit : (unitOf c).toNat = c.toNat := UInt16.toNat_ofNat_of_lt (Nat.lt_trans h (by decide))
  have hplain : (Utf16.isHighSurrogate (unitOf c) || Utf16.isLowSurrogate (unitOf c)) = false := by
    simp only [Utf16.isHighSurrogate, Utf16.isLowSurrogate, hunit, Bool.or_eq_false_iff,
      Bool.and_eq_false_iff,
      decide_eq_false_iff_not]
    omega
  rw [Single, charOf, hplain, if_neg (by decide), hunit, Char.ofNat_toNat]

/-- Characters of one unit each are read back. -/
theorem chars_units {cs : Text} (h : ∀ c ∈ cs, Single c) : chars (units cs) = cs := by
  rw [units, chars, List.map_map]
  exact (List.map_congr_left h).trans (List.map_id cs)

/-- What a string is printed as. -/
theorem single_escaped (s : KString) : ∀ c ∈ (chars s).flatMap Json.escapeChar, Single c := by
  intro c hc
  obtain ⟨other, hother, hin⟩ := List.mem_flatMap.mp hc
  rcases Json.ascii_or_eq_of_mem_escapeChar hin with hascii | rfl
  · exact single_of_ascii hascii
  · obtain ⟨u, -, rfl⟩ := List.mem_map.mp hother
    exact single_charOf u

/-- Tokens are read as they were written. -/
theorem ofValue_toValue {element : JsonElement} (h : Token element) :
    ofValue (toValue element) = element := by
  cases h with
  | string content => exact congrArg JsonElement.string (units_chars content)
  | boolean value => exact congrArg JsonElement.literal (units_chars _)
  | number n => exact congrArg JsonElement.literal (units_chars _)
  | strings contents =>
    simp only [toValue, ofValue, FlatJson.stringContents, List.map_map]
    exact congrArg JsonElement.array (List.map_congr_left fun content _ =>
      congrArg JsonElement.string (units_chars content))

theorem ofMember_toMember {members : List (KString × JsonElement)} (h : Tokens members) :
    (members.map toMember).map ofMember = members := by
  rw [List.map_map]
  refine (List.map_congr_left fun member hmember => ?_).trans (List.map_id members)
  exact Prod.ext (units_chars member.1) (ofValue_toValue (h.tokens member hmember))

/-- A text of the Basic Multilingual Plane, unit by unit. -/
theorem chars_encode {cs : Text} (h : ∀ c ∈ cs, c.toNat < 0x80) : chars (Utf16.encode cs) = cs := by
  have hunits : Utf16.encode cs = units cs := by
    induction cs with
    | nil => rfl
    | cons c cs ih =>
      obtain ⟨hc, hcs⟩ := List.forall_mem_cons.mp h
      have hplain : Utf16.Plain c := Nat.lt_trans hc (by decide)
      rw [Utf16.encode_cons, Utf16.encodeChar, if_pos hplain, ih hcs]
      rfl
  rw [hunits, chars_units fun c hc => single_of_ascii (h c hc)]

/-- A sign and digits. -/
def NumberChar (c : Char) : Prop := c.isDigit = true ∨ c = '-'

theorem numberChar_decimal (n : Int) : ∀ c ∈ decimal n, NumberChar c := by
  have hdigits : ∀ c ∈ Nat.toDigits 10 n.natAbs, NumberChar c :=
    fun c hc => .inl (JavaString.isDigit_of_mem_toDigits c hc)
  unfold decimal
  split
  · exact List.forall_mem_cons.mpr ⟨.inr rfl, hdigits⟩
  · exact hdigits

theorem decimal_ne_nil (n : Int) : decimal n ≠ [] := by
  unfold decimal
  split
  · exact nofun
  · exact Nat.toDigits_ne_nil

theorem NumberChar.ascii {c : Char} (h : NumberChar c) : c.toNat < 0x80 := by
  rcases h with hdigit | rfl
  · have := (JavaString.plain_of_isDigit hdigit).2
    omega
  · decide

theorem NumberChar.isLiteral {c : Char} (h : NumberChar c) : Json.isLiteral c = true := by
  rcases h with hdigit | rfl
  · simp [Json.isLiteral, Char.isAlphanum, hdigit]
  · decide

/-- The elements that the encoder writes are printable. -/
theorem printable_toValue {element : JsonElement} (h : Token element) :
    (toValue element).Printable := by
  cases h with
  | string content => trivial
  | boolean value =>
    rw [toValue, text, chars_encode (by cases value <;> exact Json.forall_mem_of_all (by decide))]
    cases value <;> simp [Json.Value.Printable, Json.isLiteral]
  | number n =>
    rw [toValue, chars_encode fun c hc => (numberChar_decimal n c hc).ascii]
    exact ⟨decimal_ne_nil n, fun c hc => (numberChar_decimal n c hc).isLiteral⟩
  | strings contents => trivial

theorem within_toValue {element : JsonElement} (h : Token element) :
    (toValue element).Within Single := by
  cases h with
  | string content => exact single_escaped content
  | boolean value =>
    intro c hc
    obtain ⟨u, -, rfl⟩ := List.mem_map.mp hc
    exact single_charOf u
  | number n =>
    intro c hc
    obtain ⟨u, -, rfl⟩ := List.mem_map.mp hc
    exact single_charOf u
  | strings contents =>
    intro s hs
    obtain ⟨content, -, rfl⟩ := List.mem_map.mp hs
    exact single_escaped content

/-- What is printed of tokens is the text of its units. -/
theorem chars_units_print {members : List (KString × JsonElement)} (h : Tokens members) :
    chars (units (Json.print (members.map toMember))) = Json.print (members.map toMember) := by
  have hascii : ∀ c ∈ Json.punctuation, c.toNat < 0x80 := Json.forall_mem_of_all (by decide)
  have hpunct : ∀ c ∈ Json.punctuation, Single c := fun c hc => single_of_ascii (hascii c hc)
  have hmembers :
      ∀ m ∈ members.map toMember, (∀ c ∈ m.1.flatMap Json.escapeChar, Single c) ∧
        m.2.Within Single :=
    List.forall_mem_map.mpr fun member hmember =>
      ⟨single_escaped member.1, within_toValue (h.tokens member hmember)⟩
  refine chars_units
    (List.forall_mem_cons.mpr ⟨single_of_ascii (by decide), List.forall_mem_append.mpr ⟨?_, ?_⟩⟩)
  · exact Json.forall_mem_printBody hpunct hmembers
  · exact List.forall_mem_singleton.mpr (single_of_ascii (by decide))

/-- What is printed is read. -/
theorem decoder_print {members : List (KString × JsonElement)} (h : Tokens members) :
    decoder (units (Json.print (members.map toMember))) = some members := by
  have hprintable : ∀ m ∈ members.map toMember, m.2.Printable :=
    List.forall_mem_map.mpr fun member hmember => printable_toValue (h.tokens member hmember)
  rw [decoder, chars_units_print h, Json.read_print hprintable, Option.map_some,
    ofMember_toMember h]

theorem asciiDigit_of_isDigit {c : Char} (h : c.isDigit = true) :
    asciiDigit c = some (c.toNat - '0'.toNat) := by
  simp only [Char.isDigit, Bool.and_eq_true, decide_eq_true_eq] at h
  exact if_pos h

/-- Reading decimal digits gives their number. -/
theorem foldl_asciiDigit {cs : Text} (h : ∀ c ∈ cs, c.isDigit = true) (n : Nat) :
    cs.foldl (fun n c => n.bind fun n => (asciiDigit c).map (10 * n + ·)) (some n) =
      some (Nat.ofDigitChars 10 cs n) := by
  induction cs generalizing n with
  | nil => rw [Nat.ofDigitChars_nil]; rfl
  | cons c cs ih =>
    obtain ⟨hc, hcs⟩ := List.forall_mem_cons.mp h
    rw [List.foldl_cons, Option.bind_some, asciiDigit_of_isDigit hc, Option.map_some, ih hcs,
      Nat.ofDigitChars_cons]

/-- A number is read back from its decimal digits. -/
theorem digits_toDigits (n : Nat) : ProotRootfs.digits asciiDigit (Nat.toDigits 10 n) = some n := by
  have hvalue := foldl_asciiDigit (JavaString.isDigit_of_mem_toDigits (n := n)) 0
  rw [Nat.ofDigitChars_ten_toDigits] at hvalue
  unfold ProotRootfs.digits
  split
  case h_1 heq => exact absurd heq Nat.toDigits_ne_nil
  case h_2 => exact hvalue

/-- A number in the range is read as itself. -/
theorem toLong_decimal {n : Int} (h : IsLong n) :
    ProotRootfs.toLong asciiDigit (decimal n) = some n := by
  have hrange : decide (-2 ^ 63 ≤ n ∧ n < 2 ^ 63) = true := decide_eq_true h
  unfold decimal
  split
  case isTrue hneg =>
    have hnat : -(n.natAbs : Int) = n := by omega
    simp only [ProotRootfs.toLong, digits_toDigits, Option.bind_eq_bind, Option.bind_some,
      Option.pure_def, Option.map_some,
      hnat]
    rw [Option.filter_some, if_pos hrange]
  case isFalse hpos =>
    have hnat : (n.natAbs : Int) = n := by omega
    have hdigits := digits_toDigits n.natAbs
    unfold ProotRootfs.toLong
    split
    case h_1 cs heq =>
      have hminus : ('-' : Char).isDigit = true :=
        JavaString.isDigit_of_mem_toDigits '-' (heq ▸ List.mem_cons_self)
      exact absurd hminus (by decide)
    case h_2 cs heq =>
      have hplus : ('+' : Char).isDigit = true :=
        JavaString.isDigit_of_mem_toDigits '+' (heq ▸ List.mem_cons_self)
      exact absurd hplus (by decide)
    case h_3 =>
      simp only [hdigits, Option.bind_eq_bind, Option.bind_some, Option.pure_def,
        Option.map_some, hnat]
      rw [Option.filter_some, if_pos hrange]

/-- The word of a boolean is no number. -/
theorem encode_decimal_ne (n : Int) (value : Bool) :
    Utf16.encode (decimal n) ≠ text (if value then "true" else "false") := by
  intro heq
  have hdecoded := congrArg Utf16.decode heq
  rw [Utf16.decode_encode, JavaString.decode_text] at hdecoded
  have hchars := numberChar_decimal n
  rw [hdecoded] at hchars
  cases value with
  | true => exact absurd (hchars 'r' (by decide)) (by simp [NumberChar])
  | false => exact absurd (hchars 'a' (by decide)) (by simp [NumberChar])

end UnitJson

/-- Objects of strings, lists of strings, booleans and whole numbers, without white space. -/
def unitJson : Kotlinx :=
  { flatJson with
    encodeToString := fun members => UnitJson.units (Json.print (members.map UnitJson.toMember))
    decodeFromString := fun file => UnitJson.decoder (Utf16.encode file)
    floatOrNull := UnitJson.toFloat }

/-- The flat format over units is an instance of the assumption on texts. -/
theorem faithfulText_unitJson : FaithfulText unitJson UnitJson.decoder where
  decode members hmembers := UnitJson.decoder_print hmembers
  braces members _ := ⟨UnitJson.units (Json.printBody (members.map UnitJson.toMember)), by
    show UnitJson.units _ = _
    simp only [Json.print, UnitJson.units, List.map_cons, List.map_append, List.map_nil]
    rfl⟩

/-- The flat format over units is an instance of the assumption on literals. -/
theorem faithfulLiterals_unitJson : FaithfulLiterals unitJson where
  ofInt _ := rfl
  ofLong _ := rfl
  boolean value := by cases value <;> decide +kernel
  notBoolean n := by
    have htrue : Utf16.encode (decimal n) ≠ text "true" := UnitJson.encode_decimal_ne n true
    have hfalse : Utf16.encode (decimal n) ≠ text "false" := UnitJson.encode_decimal_ne n false
    show FlatJson.toBoolean _ = _
    rw [FlatJson.toBoolean, if_neg htrue, if_neg hfalse]
  intOrNull n hn := by
    show FlatJson.toInt _ = _
    rw [FlatJson.toInt, Utf16.decode_encode, UnitJson.toLong_decimal hn]
    by_cases hint : IsInt n
    · have hrange : decide (-2 ^ 31 ≤ n ∧ n < 2 ^ 31) = true := decide_eq_true hint
      rw [if_pos hint, Option.filter_some, if_pos hrange, Option.map_some]
    · have hrange : ¬ decide (-2 ^ 31 ≤ n ∧ n < 2 ^ 31) = true :=
        fun h => hint (of_decide_eq_true h)
      rw [if_neg hint, Option.filter_some, if_neg hrange, Option.map_none]
  toInt n := by
    have hint := isInt_toInt n
    have hrange : decide (-2 ^ 31 ≤ n.toInt ∧ n.toInt < 2 ^ 31) = true := decide_eq_true hint
    show FlatJson.toInt _ = _
    rw [FlatJson.toInt, Utf16.decode_encode, UnitJson.toLong_decimal (isLong_of_isInt hint),
      Option.filter_some,
      if_pos hrange, Option.map_some, Int32.ofInt_toInt]
  floatOrNull n hn := by
    show (UnitJson.toFloat _).isSome = true
    rw [UnitJson.toFloat, Utf16.decode_encode, UnitJson.toLong_decimal hn]
    rfl

/-- A value of each type but `Long`. -/
def withoutLong : LinkedMap KString PrefValue :=
  .ofList [(text "a", .boolean true), (text "b", .string (text "1")), (text "c", .int (-5)),
    (text "d", .stringSet (toSet [text "x", text "true"]))]

theorem preferences_roundTrip_withoutLong :
    RoundTrips unitJson UnitJson.decoder withoutLong ↔ ∀ entry ∈ withoutLong.entries,
      entry.2.kind ≠ .long :=
  preferences_roundTrip_iff faithfulText_unitJson faithfulLiterals_unitJson (by decide +kernel)

/-- The smallest of all `Long`s that are not negative. -/
def longZero : LinkedMap KString PrefValue := .ofList [(text "a", .long 0)]

theorem longZero_not_roundTrip : ¬ RoundTrips unitJson UnitJson.decoder longZero := by
  intro hsame
  have hread := hsame (text "a")
  revert hread
  decide +kernel

end WinEmulator.App.PreferenceCodec
