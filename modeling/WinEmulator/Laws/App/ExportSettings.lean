import WinEmulator.Laws.App.ImportSettings

/-!
# What was exported is imported

The file says of each setting the value that it has, stored or default, as a token that tells its
type: the settings are strings and sets of strings, and both are told apart from each other and from
the numbers. That the lines of the file are joined does no harm, since the file is one line.
-/

set_option autoImplicit false

namespace WinEmulator.App.SettingsFile

open WinEmulator.Lib
open WinEmulator.Lib.JavaString (text)

theorem wellFormed_text (s : String) : WellFormed (text s) :=
  congrArg Utf16.encode (JavaString.decode_text s)

/-- The strings of a value can be written as UTF-8. -/
def PrefValue.WellFormed : PrefValue → Prop
  | .string value => SettingsFile.WellFormed value
  | .stringSet value => ∀ element ∈ value.elements, SettingsFile.WellFormed element
  | .boolean _ | .int _ | .float _ | .long _ | .double _ => True

/-- A string, a boolean or a list of strings, that can be written as UTF-8. -/
inductive JsonElement.Plain : JsonElement → Prop
  | string {content : KString} (h : SettingsFile.WellFormed content) : Plain (.string content)
  | boolean (value : Bool) : Plain (.literal (text (if value then "true" else "false")))
  | strings {contents : List KString} (h : ∀ content ∈ contents, SettingsFile.WellFormed content) :
      Plain (.array (contents.map .string))

/-- Members with different names, of such values. -/
structure PlainMembers (members : List (KString × JsonElement)) : Prop where
  nodup : (members.map Prod.fst).Nodup
  names : ∀ member ∈ members, SettingsFile.WellFormed member.1
  values : ∀ member ∈ members, member.2.Plain

/-- What is assumed of the encoder and the decoder: what is written of them, as UTF-8, is read back,
and it is one line in braces. -/
structure Faithful (json : Kotlinx) : Prop where
  decode : ∀ members, PlainMembers members →
    json.decodeFromString (Utf16.decode (json.encodeToString members)) = some members
  line : ∀ members, PlainMembers members →
    ∃ body, Utf16.decode (json.encodeToString members) = '{' :: (body ++ ['}']) ∧ Json.Line body

variable {json : Kotlinx} {preference : Preferences} {name : KString} {item : Item}

/-! ## The file -/

/-- Reading the file by lines gives its text back. -/
theorem readLines_line {line file : Text} (h : Json.Line file) :
    (readLines line file).flatten = line ++ file := by
  induction file generalizing line with
  | nil =>
    rw [readLines]
    split
    case isTrue hempty =>
      rw [hempty]
      rfl
    case isFalse => simp
  | cons c cs ih =>
    obtain ⟨⟨hnewline, hreturn⟩, hrest⟩ := Json.line_cons.mp h
    rw [readLines]
    · rw [if_neg (not_or.mpr ⟨hreturn, hnewline⟩), ih hrest, List.append_assoc]
      rfl
    · exact fun _ heq => absurd heq hreturn

/-- A file of one line is read as it is. -/
theorem readFromUri_line {file : Text} (h : Json.Line file) : readFromUri file = file :=
  readLines_line h

theorem trim_braces (body : Text) : trim ('{' :: (body ++ ['}'])) = '{' :: (body ++ ['}']) := by
  have hopen : isWhitespace '{' = false := by decide
  have hclose : isWhitespace '}' = false := by decide
  simp [trim, trimBy, hopen, hclose]

/-! ## Values -/

/-- A set written as its elements is read back as the same set. -/
theorem toSet_elements (value : StringSet) : toSet value.elements = value := by
  obtain ⟨elements, hnodup⟩ := value
  have hdedup : elements.reverse.dedup = elements.reverse := (List.nodup_reverse.mpr hnodup).dedup
  simp only [toSet, hdedup, List.reverse_reverse]

theorem mapM_stringContent (contents : List KString) :
    (contents.map JsonElement.string).mapM PrefValueSerializer.stringContent = some contents := by
  induction contents with
  | nil => rfl
  | cons content contents ih =>
    rw [List.map_cons, List.mapM_cons, ih]
    rfl

/-- The token of a string or of a set of strings is decoded to it. -/
theorem exists_serialize {value : PrefValue}
    (hkind : value.kind = .string ∨ value.kind = .stringSet)
    (hwell : value.WellFormed) :
    ∃ element, PrefValueSerializer.serialize json value = some element ∧ element.Plain ∧
      PrefValueSerializer.deserialize json element = some value := by
  cases value with
  | string content => exact ⟨_, rfl, .string hwell, rfl⟩
  | stringSet value =>
    refine ⟨_, rfl, .strings hwell, ?_⟩
    rw [PrefValueSerializer.deserialize, mapM_stringContent, Option.map_some, toSet_elements]
  | boolean value => exact absurd hkind (by simp [PrefValue.kind])
  | int value => exact absurd hkind (by simp [PrefValue.kind])
  | float value => exact absurd hkind (by simp [PrefValue.kind])
  | long value => exact absurd hkind (by simp [PrefValue.kind])
  | double value => exact absurd hkind (by simp [PrefValue.kind])

/-! ## Settings -/

theorem names_nodup : (allItems.map Item.name).Nodup := by
  decide +kernel

theorem wellFormed_name (hitem : item ∈ allItems) : SettingsFile.WellFormed item.name := by
  simp only [allItems, List.mem_cons, List.not_mem_nil, or_false] at hitem
  rcases hitem with rfl | rfl | rfl | rfl | rfl
  · exact wellFormed_text _
  · exact wellFormed_text _
  · exact wellFormed_text _
  · exact wellFormed_text _
  · exact wellFormed_text _

instance : ∀ value : PrefValue, Decidable value.WellFormed
  | .string value => inferInstanceAs (Decidable (SettingsFile.WellFormed value))
  | .stringSet value =>
    inferInstanceAs (Decidable (∀ element ∈ value.elements, SettingsFile.WellFormed element))
  | .boolean _ | .int _ | .float _ | .long _ | .double _ => inferInstanceAs (Decidable True)

theorem wellFormed_default (hitem : item ∈ allItems) : item.default.WellFormed := by
  have hall : ∀ item ∈ allItems, item.default.WellFormed := by decide +kernel
  exact hall item hitem

/-- What an export writes of the settings. -/
def exported (preference : Preferences) : LinkedMap KString PrefValue :=
  .ofList (allItems.map fun item => (item.name, item.effective preference))

/-- The exported members hold, under each item's name, its value in effect. -/
theorem get_exported (hitem : item ∈ allItems) :
    (exported preference).get item.name = some (item.effective preference) := by
  have hnodup :
      ((allItems.map fun item => (item.name, item.effective preference)).map Prod.fst).Nodup := by
    rw [List.map_map]
    exact names_nodup
  rw [exported, LinkedMap.get_ofList]
  exact LinkedMap.lastValue_of_nodup hnodup
    (List.mem_map_of_mem (f := fun item => (item.name, item.effective preference)) hitem)

/-- It writes nothing else. -/
theorem exists_item_of_mem_exported {entry : KString × PrefValue}
    (h : entry ∈ (exported preference).entries) :
    ∃ item ∈ allItems, entry = (item.name, item.effective preference) := by
  have hget := (exported preference).get_of_mem h
  rw [exported, LinkedMap.get_ofList] at hget
  obtain ⟨item, hitem, heq⟩ := List.mem_map.mp (LinkedMap.mem_of_lastValue hget)
  exact ⟨item, hitem, heq.symm⟩

/-- A well-typed store gives every item a value of its own kind. -/
theorem kind_effective (htyped : WellTyped preference) (hitem : item ∈ allItems) :
    (item.effective preference).kind = item.kind := by
  have hget := get_of_wellTyped htyped hitem
  unfold Item.get at hget
  split at hget
  case isTrue hkind => exact hkind
  case isFalse => cases hget

/-- The value an item has in effect is well formed when the stored ones are. -/
theorem wellFormed_effective (hwell : ∀ name value, preference name = some value → value.WellFormed)
    (hitem : item ∈ allItems) : (item.effective preference).WellFormed := by
  unfold Item.effective
  cases hvalue : preference item.name with
  | none => exact wellFormed_default hitem
  | some value => exact hwell item.name value hvalue

/-- Values that are written as plain members are read back. -/
theorem exists_members_of_forall {entries : List (KString × PrefValue)}
    (h : ∀ entry ∈ entries, ∃ element, PrefValueSerializer.serialize json entry.2 = some element ∧
      element.Plain ∧
      PrefValueSerializer.deserialize json element = some entry.2) :
    ∃ members, mapValues (PrefValueSerializer.serialize json) entries = some members ∧
      members.map Prod.fst = entries.map Prod.fst ∧ (∀ member ∈ members, member.2.Plain) ∧
      mapValues (PrefValueSerializer.deserialize json) members = some entries := by
  simp only [mapValues_eq_some_iff]
  induction entries with
  | nil => exact ⟨[], .nil, rfl, fun member hmember => absurd hmember List.not_mem_nil, .nil⟩
  | cons entry entries ih =>
    obtain ⟨hfirst, hrest⟩ := List.forall_mem_cons.mp h
    obtain ⟨element, hserialize, hplain, hdeserialize⟩ := hfirst
    obtain ⟨members, hwritten, hnames, hplains, hread⟩ := ih hrest
    refine ⟨(entry.1, element) :: members, .cons ⟨hserialize, rfl⟩ hwritten, ?_, ?_,
      .cons ⟨hdeserialize, rfl⟩ hread⟩
    · rw [List.map_cons, List.map_cons, hnames]
    · exact List.forall_mem_cons.mpr ⟨hplain, hplains⟩

/-- The members that are written, and what they are decoded to. -/
theorem exists_members (json : Kotlinx) (htyped : WellTyped preference)
    (hwell : ∀ name value, preference name = some value → value.WellFormed) :
    ∃ members, mapValues (PrefValueSerializer.serialize json) (exported preference).entries =
      some members ∧
      PlainMembers members ∧
      mapValues (PrefValueSerializer.deserialize json) members =
        some (exported preference).entries := by
  have helements : ∀ entry ∈ (exported preference).entries,
      ∃ element, PrefValueSerializer.serialize json entry.2 = some element ∧ element.Plain ∧
        PrefValueSerializer.deserialize json element = some entry.2 := fun entry hentry => by
    obtain ⟨item, hitem, rfl⟩ := exists_item_of_mem_exported hentry
    have hkind :
        (item.effective preference).kind = .string ∨
          (item.effective preference).kind = .stringSet := by
      rw [kind_effective htyped hitem]
      exact kind_of_mem hitem
    exact exists_serialize hkind (wellFormed_effective hwell hitem)
  obtain ⟨members, hwritten, hnames, hplains, hread⟩ := exists_members_of_forall helements
  refine ⟨members, hwritten, ⟨?_, fun member hmember => ?_, hplains⟩, hread⟩
  · rw [hnames]
    exact (exported preference).nodup
  · have hname : member.1 ∈ (exported preference).entries.map Prod.fst :=
      hnames ▸ List.mem_map_of_mem hmember
    obtain ⟨entry, hentry, hkey⟩ := List.mem_map.mp hname
    obtain ⟨item, hitem, rfl⟩ := exists_item_of_mem_exported hentry
    exact hkey ▸ wellFormed_name hitem

/-- **Export and import restore all settings**, and the import leaves every other preference as it
is. -/
theorem importSettings_exportSettings (hjson : Faithful json) {s s' : Preferences}
    (htyped : WellTyped s)
    (hwell : ∀ name value, s name = some value → value.WellFormed) :
    (∀ item ∈ allItems,
      item.effective (importSettings json (exportSettings json s) s') = item.effective s) ∧
      ∀ item ∈ Local.items, importSettings json (exportSettings json s) s' item.name =
        s' item.name := by
  obtain ⟨members, hmembers, hplain, hvalues⟩ := exists_members json htyped hwell
  have hfile : exportSettings json s = Utf16.decode (json.encodeToString members) := by
    show writeToUri (serializeFromMapToJson json (exported s)) = _
    rw [serializeFromMapToJson, hmembers]
    rfl
  obtain ⟨body, hbody, hline⟩ := hjson.line members hplain
  have hread : readFromUri (exportSettings json s) = exportSettings json s := by
    refine readFromUri_line ?_
    rw [hfile, hbody]
    exact Json.line_cons.mpr
      ⟨by decide, Json.line_append.mpr ⟨hline, Json.line_cons.mpr ⟨by decide, nofun⟩⟩⟩
  have htrim : trim (exportSettings json s) = exportSettings json s := by
    rw [hfile, hbody, trim_braces]
  have hmap :
      ∀ name, (deserializeFromJsonToMap json (readFromUri (exportSettings json s))).get name =
      (exported s).get name := fun name => by
    have hnonempty : exportSettings json s ≠ [] := by
      rw [hfile, hbody]
      exact nofun
    rw [hread, deserializeFromJsonToMap, htrim, if_neg hnonempty, hfile,
      hjson.decode members hplain, Option.bind_some,
      hvalues]
    exact (exported s).get_ofList_entries name
  constructor
  · intro item hitem
    rw [Item.effective, importSettings_apply, if_pos (List.mem_map_of_mem hitem), hmap,
      get_exported hitem]
    rfl
  · intro item hitem
    have hlocal : ∀ item ∈ Local.items, item.name ∉ allItems.map Item.name := by decide +kernel
    rw [importSettings_apply, if_neg (hlocal item hitem)]

/-! ## The decoder of flat objects -/

namespace FlatJson

variable {element : JsonElement} {members : List (KString × JsonElement)}

theorem stringContents (contents : List KString) :
    (contents.map JsonElement.string).filterMap PrefValueSerializer.stringContent = contents := by
  rw [List.filterMap_map]
  exact List.filterMap_some

/-- A plain element survives the encoding as a flat value. -/
theorem ofValue_toValue (h : element.Plain) : ofValue (toValue element) = element := by
  cases h with
  | string hwell => exact congrArg JsonElement.string hwell
  | boolean value => exact congrArg JsonElement.literal (wellFormed_text _)
  | strings hwell =>
    simp only [toValue, ofValue, stringContents, List.map_map]
    exact congrArg JsonElement.array (List.map_congr_left fun content hcontent =>
      congrArg JsonElement.string (hwell content hcontent))

/-- Plain elements are printable. -/
theorem printable_toValue (h : element.Plain) : (toValue element).Printable := by
  cases h with
  | string hwell => trivial
  | boolean value =>
    rw [toValue, JavaString.decode_text]
    cases value with
    | false => simp [Json.Value.Printable, Json.isLiteral]
    | true => simp [Json.Value.Printable, Json.isLiteral]
  | strings hwell => trivial

theorem ofMember_toMember (h : PlainMembers members) :
    (members.map toMember).map ofMember = members := by
  rw [List.map_map]
  refine (List.map_congr_left fun member hmember => ?_).trans (List.map_id members)
  exact Prod.ext (h.names member hmember) (ofValue_toValue (h.values member hmember))

theorem printable_members (h : PlainMembers members) :
    ∀ member ∈ members.map toMember, member.2.Printable :=
  List.forall_mem_map.mpr fun member hmember => printable_toValue (h.values member hmember)

end FlatJson

/-- The flat format is an instance of the assumption on the encoder. -/
theorem faithful_flatJson : Faithful flatJson where
  decode members hmembers := by
    show (Json.read (Utf16.decode (Utf16.encode (Json.print (members.map FlatJson.toMember))))).map
      _ = _
    rw [Utf16.decode_encode, Json.read_print (FlatJson.printable_members hmembers), Option.map_some,
      FlatJson.ofMember_toMember hmembers]
  line members hmembers :=
    ⟨_, Utf16.decode_encode _, Json.line_printBody (FlatJson.printable_members hmembers)⟩

/-- A resolution of two lines and an option that looks like a number. -/
def twoLines : Preferences :=
  Function.update (Function.update unset general_resolution.name (some (.string (text "800\n600"))))
    proot_bool_options.name (some (.stringSet (toSet [text "12", text "-L"])))

theorem wellTyped_twoLines : WellTyped twoLines := wellTyped_iff_get.mpr (by decide +kernel)

theorem wellFormed_twoLines (name : KString) (value : PrefValue) (h : twoLines name = some value) :
    value.WellFormed := by
  simp only [twoLines, Function.update_apply] at h
  split at h
  · obtain rfl := Option.some.inj h
    decide +kernel
  split at h
  · obtain rfl := Option.some.inj h
    decide +kernel
  · cases h

theorem importSettings_exportSettings_twoLines :
    (∀ item ∈ allItems,
      item.effective (importSettings flatJson (exportSettings flatJson twoLines) unset) =
        item.effective twoLines) ∧
      ∀ item ∈ Local.items,
        importSettings flatJson (exportSettings flatJson twoLines) unset item.name =
          unset item.name :=
  importSettings_exportSettings faithful_flatJson wellTyped_twoLines wellFormed_twoLines

end WinEmulator.App.SettingsFile
