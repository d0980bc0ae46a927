import WinEmulator.App.SettingsFile
import WinEmulator.Lib.Json

/-!
# What an import stores

The value that an import stores has the type that its token in the file has: a decoder finds it out,
and nothing compares it with the type of the key. So the store stays well typed exactly when the
file says a string for each setting that is a string, and an array for each that is a set; a value
that cannot be decoded anywhere in the file leaves the store as it is.
-/

set_option autoImplicit false

namespace WinEmulator.App.SettingsFile

open WinEmulator.Lib
open WinEmulator.Lib.JavaString (text)

/-- What is stored for a setting has the type of its key. -/
def WellTyped (preference : Preferences) : Prop :=
  ∀ item ∈ allItems, ∀ value, preference item.name = some value → value.kind = item.kind

/-- The type that a token is decoded to. -/
def JsonElement.kind (json : Kotlinx) : JsonElement → Kind
  | .string _ => .string
  | .literal content =>
    if (json.booleanOrNull content).isSome then .boolean
    else if (json.intOrNull content).isSome then .int
    else if (json.floatOrNull content).isSome then .float
    else if (json.longOrNull content).isSome then .long
    else if (json.doubleOrNull content).isSome then .double
    else .string
  | .array _ | .object _ => .stringSet

/-- The members of the object that the file is, if it is one and all their values can be decoded. -/
def Decodes (json : Kotlinx) (file : Text) (members : List (KString × JsonElement)) : Prop :=
  trim (readFromUri file) ≠ [] ∧ json.decodeFromString (trim (readFromUri file)) = some members ∧
    ∀ member ∈ members, (PrefValueSerializer.deserialize json member.2).isSome

/-- The token of each setting in the file, the last one if there are several, is of the type of the
setting. -/
def Suits (json : Kotlinx) (file : Text) : Prop :=
  ∀ members, Decodes json file members →
    ∀ item ∈ allItems, ∀ element, LinkedMap.lastValue item.name members = some element →
      element.kind json = item.kind

variable {json : Kotlinx} {preference : Preferences} {name : KString} {item : Item}

/-! ## Settings -/

theorem kind_item (prefInAssets : LinkedMap KString PrefValue) (name : KString)
    (default : PrefValue) :
    (SettingsFile.item prefInAssets name default).kind = default.kind := by
  unfold SettingsFile.item Item.kind
  cases hvalue : (prefInAssets.get name).filter fun value => value.kind = default.kind with
  | none => rfl
  | some value => exact of_decide_eq_true (Option.filter_eq_some_iff.mp hvalue).2

/-- A setting is a string or a set of strings. -/
theorem kind_of_mem (h : item ∈ allItems) : item.kind = .string ∨ item.kind = .stringSet := by
  simp only [allItems, List.mem_cons, List.not_mem_nil, or_false] at h
  rcases h with rfl | rfl | rfl | rfl | rfl
  · exact .inl (kind_item _ _ _)
  · exact .inl (kind_item _ _ _)
  · exact .inr (kind_item _ _ _)
  · exact .inr (kind_item _ _ _)
  · exact .inl (kind_item _ _ _)

/-- What is read of a well-typed store is of the right type. -/
theorem get_of_wellTyped (h : WellTyped preference) (hitem : item ∈ allItems) :
    item.get preference = some (item.effective preference) := by
  refine if_pos ?_
  unfold Item.effective
  cases hvalue : preference item.name with
  | none => rfl
  | some value => exact h item hitem value hvalue

/-- And what is read of an ill-typed one is an exception. -/
theorem wellTyped_iff_get :
    WellTyped preference ↔ ∀ item ∈ allItems, (item.get preference).isSome = true := by
  refine ⟨fun h item hitem => ?_, fun h item hitem value hvalue => ?_⟩
  · rw [get_of_wellTyped h hitem]
    rfl
  · have hget := h item hitem
    unfold Item.get Item.effective at hget
    rw [hvalue, Option.getD_some] at hget
    split at hget
    case isTrue hkind => exact hkind
    case isFalse => cases hget

/-! ## Maps -/

/-- A function on the values that throws on none of them. -/
theorem mapValues_eq_some_iff {α β : Type} {f : α → Option β} {entries : List (KString × α)}
    {values : List (KString × β)} :
    mapValues f entries = some values ↔
      List.Forall₂ (fun entry value => f entry.2 = some value.2 ∧ entry.1 = value.1) entries
        values := by
  induction entries generalizing values with
  | nil =>
    simp only [mapValues, List.mapM_nil, List.forall₂_nil_left_iff]
    exact ⟨fun h => (Option.some.inj h).symm, fun h => congrArg some h.symm⟩
  | cons entry entries ih =>
    simp only [mapValues] at ih ⊢
    rw [List.mapM_cons]
    constructor
    · intro h
      obtain ⟨first, hfirst, hothers⟩ := Option.bind_eq_some_iff.mp h
      obtain ⟨rest, hrest, heq⟩ := Option.bind_eq_some_iff.mp hothers
      obtain ⟨value, hvalue, rfl⟩ := Option.map_eq_some_iff.mp hfirst
      obtain rfl := Option.some.inj heq
      exact .cons ⟨hvalue, rfl⟩ (ih.mp hrest)
    · intro h
      cases h with
      | cons hfirst hrest =>
        obtain ⟨hvalue, hname⟩ := hfirst
        refine Option.bind_eq_some_iff.mpr ⟨_, Option.map_eq_some_iff.mpr ⟨_, hvalue, rfl⟩, ?_⟩
        refine Option.bind_eq_some_iff.mpr ⟨_, ih.mpr hrest, ?_⟩
        rw [hname]
        rfl

/-- A function that throws on no value, and what holds of all that it gives. -/
theorem exists_mapValues_of_forall {α β : Type} {f : α → Option β} {Q : β → Prop}
    {entries : List (KString × α)}
    (h : ∀ entry ∈ entries, ∃ value, f entry.2 = some value ∧ Q value) :
    ∃ values, mapValues f entries = some values ∧ values.map Prod.fst = entries.map Prod.fst ∧
      ∀ value ∈ values, Q value.2 := by
  simp only [mapValues_eq_some_iff]
  induction entries with
  | nil => exact ⟨[], .nil, rfl, nofun⟩
  | cons entry entries ih =>
    obtain ⟨⟨value, hvalue, hfirst⟩, hrest⟩ := List.forall_mem_cons.mp h
    obtain ⟨values, hvalues, hnames, hall⟩ := ih hrest
    refine ⟨(entry.1, value) :: values, .cons ⟨hvalue, rfl⟩ hvalues, ?_,
      List.forall_mem_cons.mpr ⟨hfirst, hall⟩⟩
    rw [List.map_cons, List.map_cons, hnames]

/-- A function that throws on no value. -/
theorem exists_mapValues {α β : Type} {f : α → Option β} {entries : List (KString × α)}
    (h : ∀ entry ∈ entries, (f entry.2).isSome) : ∃ values, mapValues f entries = some values := by
  have hsome : ∀ entry ∈ entries, ∃ value, f entry.2 = some value ∧ True := fun entry hentry =>
    (Option.isSome_iff_exists.mp (h entry hentry)).imp fun _ hvalue => ⟨hvalue, trivial⟩
  obtain ⟨values, hvalues, -⟩ := exists_mapValues_of_forall hsome
  exact ⟨values, hvalues⟩

/-! ## The import -/

/-- One entry of the file sets its own name, when that is the name of an item. -/
theorem importEntry_apply (entry : KString × PrefValue) :
    importEntry preference entry name =
      if name = entry.1 ∧ name ∈ allItems.map Item.name then some entry.2 else preference name := by
  unfold importEntry
  cases hfind : allItems.find? fun item => item.name = entry.1 with
  | none =>
    rw [List.find?_eq_none] at hfind
    refine (if_neg ?_).symm
    rintro ⟨rfl, hname⟩
    obtain ⟨item, hitem, hname⟩ := List.mem_map.mp hname
    exact hfind item hitem (decide_eq_true hname)
  | some item =>
    have hname : item.name = entry.1 := by simpa using List.find?_some hfind
    have hmem : entry.1 ∈ allItems.map Item.name :=
      hname ▸ List.mem_map_of_mem (List.mem_of_find?_eq_some hfind)
    show Function.update preference item.name (some entry.2) name = _
    rw [Function.update_apply, hname]
    by_cases heq : name = entry.1
    · rw [if_pos heq, if_pos ⟨heq, heq ▸ hmem⟩]
    · rw [if_neg heq, if_neg fun h => heq h.1]

/-- The entries of the file set the items they name; the other settings stay. -/
theorem importEntries_apply {entries : List (KString × PrefValue)}
    (hnodup : (entries.map Prod.fst).Nodup) :
    entries.foldl importEntry preference name =
      if name ∈ allItems.map Item.name then ((LinkedMap.mk entries hnodup).get name).or
        (preference name)
      else preference name := by
  induction entries generalizing preference with
  | nil => exact (ite_self _).symm
  | cons entry entries ih =>
    obtain ⟨hnew, hrest⟩ := List.nodup_cons.mp hnodup
    rw [List.foldl_cons, ih hrest, importEntry_apply, LinkedMap.get_cons]
    by_cases hname : name ∈ allItems.map Item.name
    · simp only [hname, if_true, and_true]
      by_cases heq : name = entry.1
      · have hnone : (LinkedMap.mk entries hrest).get name = none :=
          LinkedMap.get_eq_none (heq ▸ hnew)
        rw [hnone, if_pos heq, if_pos heq]
        rfl
      · rw [if_neg heq, if_neg heq]
    · simp only [hname, and_false, if_false]

/-- A setting that the file has a value for gets it, and every other preference stays. -/
theorem importSettings_apply (file : Text) :
    importSettings json file preference name =
      if name ∈ allItems.map Item.name then
        ((deserializeFromJsonToMap json (readFromUri file)).get name).or (preference name)
      else preference name := by
  unfold importSettings
  exact importEntries_apply (deserializeFromJsonToMap json (readFromUri file)).nodup

/-- A token is decoded to a value of its type. -/
theorem kind_of_deserialize {element : JsonElement} {value : PrefValue}
    (h : PrefValueSerializer.deserialize json element = some value) :
    value.kind = element.kind json := by
  cases element with
  | string content =>
    cases h
    rfl
  | array elements =>
    obtain ⟨contents, -, rfl⟩ := Option.map_eq_some_iff.mp h
    rfl
  | object members => cases h
  | literal content =>
    simp only [PrefValueSerializer.deserialize] at h
    unfold JsonElement.kind
    split at h
    case h_1 hboolean =>
      cases h
      simp [hboolean, PrefValue.kind]
    case h_2 hboolean =>
      split at h
      case isTrue hint =>
        obtain ⟨n, -, rfl⟩ := Option.map_eq_some_iff.mp h
        simp [hboolean, hint, PrefValue.kind]
      case isFalse hint =>
        split at h
        case h_1 hfloat =>
          cases h
          simp [hboolean, hint, hfloat, PrefValue.kind]
        case h_2 hfloat =>
          split at h
          case isTrue hlong =>
            obtain ⟨n, -, rfl⟩ := Option.map_eq_some_iff.mp h
            simp [hboolean, hint, hfloat, hlong, PrefValue.kind]
          case isFalse hlong =>
            split at h
            case h_1 hdouble =>
              cases h
              simp [hboolean, hint, hfloat, hlong, hdouble, PrefValue.kind]
            case h_2 hdouble =>
              cases h
              simp [hboolean, hint, hfloat, hlong, hdouble, PrefValue.kind]

/-- A file whose values are all decoded has no value that is not. -/
theorem isSome_of_mapValues {members : List (KString × JsonElement)}
    {values : List (KString × PrefValue)}
    (h : mapValues (PrefValueSerializer.deserialize json) members = some values) :
    ∀ member ∈ members, (PrefValueSerializer.deserialize json member.2).isSome := by
  induction mapValues_eq_some_iff.mp h with
  | nil => exact fun member hmember => absurd hmember List.not_mem_nil
  | cons hfirst hrest ih =>
    refine List.forall_mem_cons.mpr ⟨Option.isSome_iff_exists.mpr ⟨_, hfirst.1⟩, ih ?_⟩
    exact mapValues_eq_some_iff.mpr hrest

/-- The value that is imported under a name is the last one the file gives it. -/
theorem get_of_decodes {file : Text} {members : List (KString × JsonElement)}
    (h : Decodes json file members) :
    (deserializeFromJsonToMap json (readFromUri file)).get name =
      (LinkedMap.lastValue name members).bind (PrefValueSerializer.deserialize json) := by
  obtain ⟨hnonempty, hdecode, hall⟩ := h
  obtain ⟨values, hvalues⟩ := exists_mapValues hall
  rw [deserializeFromJsonToMap, if_neg hnonempty, hdecode, Option.bind_some, hvalues]
  exact (LinkedMap.get_ofList name values).trans
    (LinkedMap.lastValue_forall₂ (mapValues_eq_some_iff.mp hvalues) name)

/-- A file that does not decode changes nothing. -/
theorem importSettings_of_not_decodes {file : Text} (h : ∀ members, ¬Decodes json file members) :
    importSettings json file preference = preference := by
  have hempty : deserializeFromJsonToMap json (readFromUri file) = .empty := by
    unfold deserializeFromJsonToMap
    split
    case isTrue => rfl
    case isFalse hnonempty =>
      cases hdecode : json.decodeFromString (trim (readFromUri file)) with
      | none => rfl
      | some members =>
        rw [Option.bind_some]
        cases hvalues : mapValues (PrefValueSerializer.deserialize json) members with
        | none => rfl
        | some values => exact absurd ⟨hnonempty, hdecode, isSome_of_mapValues hvalues⟩ (h members)
  rw [importSettings, hempty]
  rfl

/-- **An import stores no value of a wrong type** exactly when the file suits the settings. -/
theorem importSettings_wellTyped_iff (h : WellTyped preference) (file : Text) :
    (importSettings json file preference = preference ∨
      WellTyped (importSettings json file preference)) ↔
      Suits json file := by
  constructor
  · intro hresult members hdecodes item hitem element helement
    have hmember := LinkedMap.mem_of_lastValue helement
    obtain ⟨value, hvalue⟩ := Option.isSome_iff_exists.mp (hdecodes.2.2 _ hmember)
    have hstored : importSettings json file preference item.name = some value := by
      rw [importSettings_apply, if_pos (List.mem_map_of_mem hitem), get_of_decodes hdecodes,
        helement, Option.bind_some,
        hvalue]
      rfl
    rw [← kind_of_deserialize hvalue]
    rcases hresult with hsame | hwell
    · exact h item hitem value (hsame ▸ hstored)
    · exact hwell item hitem value hstored
  · intro hsuits
    by_cases hdecodes : ∃ members, Decodes json file members
    · obtain ⟨members, hdecodes⟩ := hdecodes
      refine .inr fun item hitem value hvalue => ?_
      rw [importSettings_apply, if_pos (List.mem_map_of_mem hitem), get_of_decodes hdecodes]
        at hvalue
      cases helement : LinkedMap.lastValue item.name members with
      | none =>
        rw [helement] at hvalue
        exact h item hitem value hvalue
      | some element =>
        have hmember := LinkedMap.mem_of_lastValue helement
        obtain ⟨stored, hstored⟩ := Option.isSome_iff_exists.mp (hdecodes.2.2 _ hmember)
        rw [helement, Option.bind_some, hstored] at hvalue
        obtain rfl := Option.some.inj hvalue
        rw [kind_of_deserialize hstored]
        exact hsuits members hdecodes item hitem element helement
    · exact .inl
        (importSettings_of_not_decodes fun members hmembers => hdecodes ⟨members, hmembers⟩)

/-! ## A decoder -/

namespace FlatJson

def toValue : JsonElement → Json.Value
  | .string content => .string (Utf16.decode content)
  | .literal content => .literal (Utf16.decode content)
  | .array elements =>
    .strings ((elements.filterMap PrefValueSerializer.stringContent).map Utf16.decode)
  | .object _ => .strings []

def ofValue : Json.Value → JsonElement
  | .string s => .string (Utf16.encode s)
  | .literal cs => .literal (Utf16.encode cs)
  | .strings ss => .array (ss.map fun s => .string (Utf16.encode s))

def toMember (member : KString × JsonElement) : Json.Member :=
  (Utf16.decode member.1, toValue member.2)

def ofMember (member : Json.Member) : KString × JsonElement :=
  (Utf16.encode member.1, ofValue member.2)

def toBoolean (content : KString) : Option Bool :=
  if content = text "true" then some true else if content = text "false" then some false else none

def toInt (content : KString) : Option Int32 :=
  ((ProotRootfs.toLong asciiDigit (Utf16.decode content)).filter fun n => -2 ^ 31 ≤ n ∧
    n < 2 ^ 31).map Int32.ofInt

def toLong (content : KString) : Option Int64 :=
  (ProotRootfs.toLong asciiDigit (Utf16.decode content)).map Int64.ofInt

end FlatJson

/-- Objects of strings, lists of strings, booleans and whole numbers without white space: enough to
read a file that was exported. -/
def flatJson : Kotlinx where
  encodeToString members := Utf16.encode (Json.print (members.map FlatJson.toMember))
  decodeFromString file := (Json.read file).map fun members => members.map FlatJson.ofMember
  ofInt n := Utf16.encode (decimal n.toInt)
  ofLong n := Utf16.encode (decimal n.toInt)
  ofFloat _ := none
  ofDouble _ := none
  booleanOrNull := FlatJson.toBoolean
  intOrNull := FlatJson.toInt
  floatOrNull _ := none
  longOrNull := FlatJson.toLong
  doubleOrNull _ := none
  toInt := FlatJson.toInt
  toLong := FlatJson.toLong

/-- Nothing was stored yet. -/
def unset : Preferences := fun _ => none

theorem wellTyped_unset : WellTyped unset := fun _ _ _ h => nomatch h

theorem importSettings_wellTyped_unset :
    (importSettings flatJson "\x7b\"general_resolution\":\"800x600\"\x7d".toList unset = unset ∨
        WellTyped (importSettings flatJson "\x7b\"general_resolution\":\"800x600\"\x7d".toList
          unset)) ↔
      Suits flatJson "\x7b\"general_resolution\":\"800x600\"\x7d".toList :=
  importSettings_wellTyped_iff wellTyped_unset _

/-- A boolean for the resolution. -/
def booleanResolution : Text := "\x7b\"general_resolution\":true\x7d".toList

theorem booleanResolution_not_wellTyped :
    ¬(importSettings flatJson booleanResolution unset = unset ∨
      WellTyped (importSettings flatJson booleanResolution unset)) := by
  have hstored :
      importSettings flatJson booleanResolution unset general_resolution.name =
        some (.boolean true) := by
    decide +kernel
  rintro (hsame | hwell)
  · rw [hsame] at hstored
    exact absurd hstored nofun
  · exact absurd (hwell general_resolution List.mem_cons_self _ hstored) (by decide +kernel)

end WinEmulator.App.SettingsFile
