import WinEmulator.Laws.X11.BooleanPreferences
import WinEmulator.Laws.X11.PreferenceLines

/-!
# The list of the preferences as a request

The printed answer to `list` asks for the value of each preference again, if each of them is read as
it was printed. What it asks for is accepted if it is a value that can be set, and the additional
keys are not made visible after their visibility was set.
-/

set_option autoImplicit false

namespace WinEmulator.X11.LoriePreferences

open WinEmulator.Lib
open WinEmulator.Lib.JavaString
open Receiver (Extras Ended line println putLine unquote)

/-- The answer to `list` is a request that is accepted and changes no preference, in whatever order
its extras come. -/
def FeedsBack (device : Device) (p : PrefsProto) : Prop :=
  ∃ asked, Receiver.main none [text "list"] = .ok asked ∧
    ∃ result, (p.onReceive device asked).1 = ⟨0, 2, result⟩ ∧
      ∃ request, Receiver.main (some (println result)) [] = .ok request ∧
        ∀ extras : Extras, extras.entries.Perm request.entries →
          (p.onReceive device extras).1 = ⟨0, 2, text "Done"⟩ ∧
            ∀ pref ∈ keys, (p.onReceive device extras).2.value pref = p.value pref

structure Restorable (device : Device) (p : PrefsProto) : Prop where
  resolution : ∀ s, p.value displayResolutionCustom = .ok (.string s) →
    ∃ size, parseResolution s = .ok size
  string : ∀ key defValue, .string key defValue ∈ keys →
    ∀ s, p.value (.string key defValue) = .ok (.string s) →
    unit '=' ∉ s ∧ Utf16.written s = s
  list : ∀ key defValue entries values, .list key defValue entries values ∈ keys → ∀ s,
    p.value (.list key defValue entries values) = .ok (.string s) → s ∈ values.strings
  permission : p.value enableAccessibilityServiceAutomatically = .ok (.boolean true) →
    device.writeSecureSettings = true
  visible : p.value showAdditionalKbd = .ok (.boolean true) →
    p.value additionalKbdVisible = .ok (.boolean true)

variable {p : PrefsProto} {key : JString} {device : Device} {pref : Preference}

/-! ## What is stored -/

theorem ne_key {other : Preference} (hpref : pref ∈ keys) (hother : other ∈ keys)
    (h : pref ≠ other) :
    pref.key ≠ other.key := fun heq => h (eq_of_key hpref hother heq)

theorem mem_additionalKbdVisible : additionalKbdVisible ∈ keys := by simp [keys]

theorem mem_showAdditionalKbd : showAdditionalKbd ∈ keys := by simp [keys]

theorem extra_keys_config_ne_displayResolutionCustom :
    extra_keys_config.key ≠ displayResolutionCustom.key := by
  show text "extra_keys_config" ≠ text "displayResolutionCustom"
  simp

theorem extra_keys_config_ne_enableAccessibilityService :
    extra_keys_config.key ≠ enableAccessibilityServiceAutomatically.key := by
  show text "extra_keys_config" ≠ text "enableAccessibilityServiceAutomatically"
  simp

theorem find?_key (hpref : pref ∈ keys) :
    keys.find? (fun other => other.key = pref.key) = some pref := by
  cases hfind : keys.find? fun other => other.key = pref.key with
  | none => exact absurd (List.find?_eq_none.mp hfind pref hpref) (by simp)
  | some other =>
    exact congrArg some (eq_of_key (of_find?_key hfind).1 hpref (of_find?_key hfind).2)

/-- The two preferences with strings. -/
theorem string_cases {defValue : JString} (hpref : .string key defValue ∈ keys) :
    Preference.string key defValue = displayResolutionCustom ∨
      Preference.string key defValue = extra_keys_config := by
  simpa [keys, displayResolutionMode, displayScale, displayResolutionExact, displayResolutionCustom,
    adjustResolution,
    hideCutout, showAdditionalKbd, additionalKbdVisible, enableAccessibilityServiceAutomatically,
    storeSecondaryDisplayPreferencesSeparately, extra_keys_config] using hpref

/-- A text is taken as it is. -/
theorem newPreference_string {defValue s : JString} {value : PrefValue}
    (hpref : .string key defValue ∈ keys)
    (h : Receiver.newPreference device key s = .ok value) : value = .string s :=
  Receiver.takes_of_newPreference hpref h

/-- The resolutions that are taken. -/
theorem exists_newPreference_resolution {s : JString} :
    (∃ value, Receiver.newPreference device displayResolutionCustom.key s = .ok value) ↔
    ∃ size, parseResolution s = .ok size := by
  rw [Receiver.newPreference, if_pos rfl]
  split
  case h_1 size hsize => exact iff_of_true ⟨_, rfl⟩ ⟨size, hsize⟩
  case h_2 herror => exact iff_of_false nofun fun ⟨_, hsize⟩ => nomatch herror.symm.trans hsize
  case h_3 herror => exact iff_of_false nofun fun ⟨_, hsize⟩ => nomatch herror.symm.trans hsize

/-- The service can be enabled only with the permission. -/
theorem exists_newPreference_permission {s : JString} :
    (∃ value, Receiver.newPreference device enableAccessibilityServiceAutomatically.key s =
      .ok value) ↔
      (s = text "true" → device.writeSecureSettings = true) := by
  rw [Receiver.newPreference,
    if_neg (ne_key mem_enableAccessibilityServiceAutomatically mem_displayResolutionCustom nofun),
      if_pos rfl]
  split
  case isTrue h => exact iff_of_false nofun fun hsecure => by simp [hsecure h.1] at h
  case isFalse h => exact iff_of_true ⟨_, rfl⟩ fun hs => by simpa [hs] using h

/-- A number is taken from its digits. -/
theorem newPreference_int {defValue n : Int32} {s : JString} (hpref : .int key defValue ∈ keys)
    (h : parseInt s = some n) : Receiver.newPreference device key s = .ok (.int n) := by
  have hresolution : key ≠ displayResolutionCustom.key :=
    ne_key hpref mem_displayResolutionCustom nofun
  have hpermission : key ≠ enableAccessibilityServiceAutomatically.key :=
    ne_key hpref mem_enableAccessibilityServiceAutomatically nofun
  have hextra : key ≠ extra_keys_config.key := ne_key hpref mem_extra_keys_config nofun
  have hfind : keys.find? (fun other => other.key = key) = some (.int key defValue) :=
    find?_key hpref
  rw [Receiver.newPreference, if_neg hresolution, if_neg hpermission, if_neg hextra, hfind]
  simp only [h]

/-- A choice is taken by its entry or its value. -/
theorem newPreference_list {defValue s value : JString} {entries values : StringArray}
    (hpref : .list key defValue entries values ∈ keys)
    (h : (Receiver.indexOf entries values s).bind (fun index => values.strings[index]?) =
      some value) :
    Receiver.newPreference device key s = .ok (.string value) := by
  have hresolution : key ≠ displayResolutionCustom.key :=
    ne_key hpref mem_displayResolutionCustom nofun
  have hpermission : key ≠ enableAccessibilityServiceAutomatically.key :=
    ne_key hpref mem_enableAccessibilityServiceAutomatically nofun
  have hextra : key ≠ extra_keys_config.key := ne_key hpref mem_extra_keys_config nofun
  have hfind :
      keys.find? (fun other => other.key = key) = some (.list key defValue entries values) :=
        find?_key hpref
  obtain ⟨index, hindex, hvalue⟩ := Option.bind_eq_some_iff.mp h
  rw [Receiver.newPreference, if_neg hresolution, if_neg hpermission, if_neg hextra, hfind]
  simp only [hindex, hvalue]

/-- Every text is taken for a flag, but for the permission. -/
theorem exists_newPreference_boolean {defValue : Bool} {s : JString}
    (hpref : .boolean key defValue ∈ keys)
    (h : key = enableAccessibilityServiceAutomatically.key → s = text "true" →
      device.writeSecureSettings = true) :
    ∃ value, Receiver.newPreference device key s = .ok value := by
  by_cases hpermission : key = enableAccessibilityServiceAutomatically.key
  · rw [hpermission]
    exact exists_newPreference_permission.mpr (h hpermission)
  · have hresolution : key ≠ displayResolutionCustom.key :=
      ne_key hpref mem_displayResolutionCustom nofun
    have hextra : key ≠ extra_keys_config.key := ne_key hpref mem_extra_keys_config nofun
    have hfind : keys.find? (fun other => other.key = key) = some (.boolean key defValue) :=
      find?_key hpref
    rw [Receiver.newPreference, if_neg hresolution, if_neg hpermission, if_neg hextra, hfind]
    exact ⟨_, rfl⟩

theorem Asks.not_list {asked : Preference → JString} {extras : Extras} (h : Asks asked extras) :
    (extras.get (some (text "list"))).join = none := by
  cases hlist : (extras.get (some (text "list"))).join with
  | none => rfl
  | some newValue =>
    obtain ⟨pref, hpref, hkey⟩ := h.only _ newValue (Option.join_eq_some_iff.mp hlist)
    exact absurd hkey (passes_keys pref hpref).2

/-- A request that asks a value for each preference is accepted if each can be changed to what it
asks. -/
theorem Asks.accepts_iff {asked : Preference → JString} {extras : Extras} (h : Asks asked extras) :
    Receiver.Accepts device extras ↔
      ∀ pref ∈ keys, ∃ value, Receiver.newPreference device pref.key (asked pref) = .ok value := by
  constructor
  · rintro ⟨-, hkeys⟩ pref hpref
    exact hkeys pref.key (asked pref) (h.get pref hpref)
  · refine fun hkeys => ⟨h.not_list, fun key newValue hget => ?_⟩
    obtain ⟨pref, hpref, rfl⟩ := h.only key newValue hget
    obtain rfl := Option.some.inj (Option.some.inj ((h.get pref hpref).symm.trans hget))
    exact hkeys pref hpref

/-- What is not accepted is answered as a failure. -/
theorem status_of_newPreference {s : JString} {response : Response}
    (h : Receiver.newPreference device key s = .error response) : response.status = 1 := by
  unfold Receiver.newPreference at h
  split at h
  case isTrue =>
    split at h
    case h_1 => cases h
    case h_2 =>
      obtain rfl := Except.error.inj h
      rfl
    case h_3 =>
      obtain rfl := Except.error.inj h
      rfl
  split at h
  case isTrue =>
    split at h
    case isTrue =>
      obtain rfl := Except.error.inj h
      rfl
    case isFalse => cases h
  split at h
  case isTrue => cases h
  split at h
  case h_1 => cases h
  case h_2 =>
    split at h
    case h_1 => cases h
    case h_2 =>
      obtain rfl := Except.error.inj h
      rfl
  case h_3 =>
    split at h
    case h_1 =>
      split at h
      case h_1 => cases h
      case h_2 =>
        obtain rfl := Except.error.inj h
        rfl
    case h_2 =>
      obtain rfl := Except.error.inj h
      rfl
  case h_4 =>
    obtain rfl := Except.error.inj h
    rfl

/-- A request that fails answers with status 1. -/
theorem status_of_changes {edit : SharedPreferences}
    {extras : List (Option JString × Option JString)}
    {response : Response} (h : Receiver.changes device edit extras = .error response) :
    response.status = 1 := by
  induction extras generalizing edit with
  | nil => cases h
  | cons extra extras ih =>
    rcases Receiver.extra_cases device extra with ⟨changed, newValue, rfl⟩ | ⟨-, hskip⟩
    · rw [Receiver.changes, Receiver.change] at h
      cases hvalue : Receiver.newPreference device changed newValue with
      | error failure =>
        rw [hvalue] at h
        obtain rfl := Except.error.inj h
        exact status_of_newPreference hvalue
      | ok value =>
        rw [hvalue] at h
        exact ih h
    · exact ih (hskip edit extras ▸ h)

/-- The answer to a request that is not for a list says whether it was accepted. -/
theorem done_iff_accepts {extras : Extras} (hlist : (extras.get (some (text "list"))).join = none) :
    (p.onReceive device extras).1 = ⟨0, 2, text "Done"⟩ ↔ Receiver.Accepts device extras := by
  constructor
  · intro hdone
    refine ⟨hlist, fun key newValue hget => ?_⟩
    have hanswer : (Receiver.onReceive device p.stores.builtInDisplayPreferences p.get extras).1 =
      ⟨0, 2, text "Done"⟩ := hdone
    rw [Receiver.onReceive, hlist, Option.isSome_none, if_neg Bool.false_ne_true] at hanswer
    cases hchanges : Receiver.changes device p.get extras.entries with
    | ok edit =>
      exact Receiver.exists_changes_iff.mp ⟨edit, hchanges⟩ key newValue (extras.mem_of_get hget)
    | error response =>
      rw [hchanges] at hanswer
      have hstatus := status_of_changes hchanges
      rw [show response = _ from hanswer] at hstatus
      cases hstatus
  · intro haccepts
    obtain ⟨edit, hedit, -⟩ :=
      Receiver.onReceive_of_accepts p.stores.builtInDisplayPreferences p.get haccepts
    exact congrArg Prod.fst hedit

theorem SharedPreferences.getString_of_some {preferences : SharedPreferences} {s : JString}
    (h : preferences key = some (.string s)) (d : JString) :
    preferences.getString key d = .ok s := by
  rw [SharedPreferences.getString, h]

theorem SharedPreferences.getInt_of_some {preferences : SharedPreferences} {n : Int32}
    (h : preferences key = some (.int n)) (d : Int32) : preferences.getInt key d = .ok n := by
  rw [SharedPreferences.getInt, h]

/-- The value of a preference is the one that is stored. -/
theorem value_of_get {value : PrefValue}
    (hflag : pref.key ≠ storeSecondaryDisplayPreferencesSeparately.key)
    (h : p.get pref.key = some value) (hfits : pref.Fits value) : p.value pref = .ok value := by
  cases pref with
  | string key defValue =>
    cases value with
    | string s =>
      have hget : p.get.getString key defValue = .ok s :=
        SharedPreferences.getString_of_some h defValue
      exact congrArg (Except.map PrefValue.string) hget
    | boolean b => exact hfits.elim
    | int n => exact hfits.elim
  | int key defValue =>
    cases value with
    | int n =>
      have hget : p.get.getInt key defValue = .ok n := SharedPreferences.getInt_of_some h defValue
      exact congrArg (Except.map PrefValue.int) hget
    | boolean b => exact hfits.elim
    | string s => exact hfits.elim
  | boolean key defValue =>
    cases value with
    | boolean b =>
      have hget : BooleanPreference.get p key defValue = .ok b :=
        (if_neg hflag).trans (SharedPreferences.getBoolean_of_some h defValue)
      exact congrArg (Except.map PrefValue.boolean) hget
    | int n => exact hfits.elim
    | string s => exact hfits.elim
  | list key defValue entries values =>
    cases value with
    | string s =>
      have hget : p.get.getString key defValue = .ok s :=
        SharedPreferences.getString_of_some h defValue
      exact congrArg (Except.map PrefValue.string) hget
    | boolean b => exact hfits.elim
    | int n => exact hfits.elim

theorem value_flag : p.value storeSecondaryDisplayPreferencesSeparately =
    (p.stores.builtInDisplayPreferences.getBoolean storeSecondaryDisplayPreferencesSeparately.key
      false).map
      PrefValue.boolean := by
  show (BooleanPreference.get p storeSecondaryDisplayPreferencesSeparately.key false).map
    PrefValue.boolean = _
  rw [BooleanPreference.get, if_pos rfl]

/-- A preference after an accepted request that asks a value for each. -/
theorem Asks.value_after {asked : Preference → JString} {extras : Extras} (h : Asks asked extras)
    (haccepts : Receiver.Accepts device extras) (hpref : pref ∈ keys)
    (hvisible : pref ≠ additionalKbdVisible)
    {value : PrefValue} (hvalue : Receiver.newPreference device pref.key (asked pref) = .ok value) :
    (p.onReceive device extras).2.value pref = .ok value ∨
      pref = storeSecondaryDisplayPreferencesSeparately ∧
        (p.onReceive device extras).2.value pref = p.value pref := by
  have hstored : (p.onReceive device extras).2.get pref.key = some value := by
    obtain ⟨edit, hedit, -, hkeys⟩ :=
      Receiver.onReceive_of_accepts p.stores.builtInDisplayPreferences p.get haccepts
    rw [PrefsProto.get_onReceive, hedit]
    refine (hkeys pref.key (ne_key hpref mem_additionalKbdVisible hvisible)).trans ?_
    rw [Receiver.requested, h.get pref hpref, Option.join_some]
    simp only [hvalue]
  obtain ⟨other, hother, hkey, hfits⟩ := Receiver.newPreference_fits hvalue
  obtain rfl := eq_of_key hother hpref hkey
  by_cases hflag : other = storeSecondaryDisplayPreferencesSeparately
  · subst hflag
    rw [value_flag, value_flag, PrefsProto.builtIn_onReceive]
    by_cases hsecondary : p.isSecondaryDisplayPreferences = true
    · rw [if_pos hsecondary]
      exact .inr ⟨rfl, rfl⟩
    · rw [if_neg hsecondary]
      obtain ⟨b, rfl⟩ : ∃ b, value = .boolean b := by
        cases value with
        | boolean b => exact ⟨b, rfl⟩
        | int n => exact hfits.elim
        | string s => exact hfits.elim
      exact .inl (congrArg (Except.map PrefValue.boolean)
        (SharedPreferences.getBoolean_of_some hstored false))
  · refine .inl (value_of_get ?_ hstored hfits)
    exact ne_key hpref mem_storeSecondaryDisplayPreferencesSeparately hflag

/-- The visibility of the additional keys after it. -/
theorem Asks.visible_after {asked : Preference → JString} {extras : Extras} (h : Asks asked extras)
    (haccepts : Receiver.Accepts device extras) :
    (p.onReceive device extras).2.value additionalKbdVisible =
      .ok (.boolean (asked additionalKbdVisible = text "true" ∨ Receiver.ShownAfter extras)) := by
  refine value_of_get (by simp) ?_ trivial
  rw [PrefsProto.get_onReceive]
  exact Receiver.onReceive_visible haccepts (h.get _ mem_additionalKbdVisible)

/-! ## The answer as a request -/

/-- The extras that the printed answer is read as, if it is. -/
def requestOf (device : Device) (p : PrefsProto) : Extras :=
  device.keysValues.foldl (fun i pref => i.set (some pref.key) (some (some (askedOf p pref))))
    (LinkedMap.empty.set none (some none))

/-- The shell reads the list back line by line. -/
theorem nextLines_list (hread : p.Readable) (hlines : p.OneLined) :
    nextLines false [] (println
      (device.keysValues.map fun pref =>
        line pref.key (shownOf p pref) ++ text "\n").flatten.dropLast) =
      device.keysValues.map fun pref => line pref.key (Utf16.written (shownOf p pref)) := by
  have hmem {pref : Preference} (hpref : pref ∈ device.keysValues) : pref ∈ keys :=
    device.perm.mem_iff.mp hpref
  have hdrop :
      (device.keysValues.map fun pref =>
        line pref.key (shownOf p pref) ++ text "\n").flatten.dropLast ++
      text "\n" = (device.keysValues.map fun pref =>
          line pref.key (shownOf p pref) ++ text "\n").flatten := by
    cases hprefs : device.keysValues using List.reverseRecOn with
    | nil =>
      have hlength := device.perm.length_eq
      rw [hprefs] at hlength
      cases hlength
    | append_singleton prefs last _ =>
      rw [List.map_append, List.flatten_append, List.map_singleton, List.flatten_singleton,
        ← List.append_assoc,
        show text "\n" = [0x0A] by decide, List.dropLast_concat]
  rw [println, hdrop, written_flatten fun pref hpref => (passes_keys pref (hmem hpref)).1.2.2]
  have hmap :
      (device.keysValues.map fun pref =>
        line pref.key (Utf16.written (shownOf p pref)) ++ text "\n") =
      (device.keysValues.map fun pref => line pref.key (Utf16.written (shownOf p pref))).map
          (· ++ text "\n") := by
    rw [List.map_map]
    rfl
  rw [hmap, nextLines_flatten]
  intro s hs
  obtain ⟨pref, hpref, rfl⟩ := List.mem_map.mp hs
  have hkey : OneLine pref.key := (passes_keys pref (hmem hpref)).1.1
  have hvalue := oneLine_written (oneLine_shownOf hread hlines pref (hmem hpref))
  intro u hu
  rw [line] at hu
  simp only [List.mem_append] at hu
  rcases hu with (((hu | hu) | hu) | hu) | hu
  · exact (show OneLine (text "\"") by decide) u hu
  · exact hkey u hu
  · exact (show OneLine (text "\"=\"") by decide) u hu
  · exact hvalue u hu
  · exact (show OneLine (text "\"") by decide) u hu

/-- The answer is a request for what is read of each value, if that is read at all. -/
theorem main_list (hread : p.Readable) (hlines : p.OneLined) (request : Extras) :
    Receiver.main (some (println
      (device.keysValues.map fun pref =>
        line pref.key (shownOf p pref) ++ text "\n").flatten.dropLast)) [] =
        .ok request ↔
      (∀ pref ∈ keys, fed (Utf16.written (shownOf p pref)) = .ok (askedOf p pref)) ∧
        request = requestOf device p := by
  have hmem {pref : Preference} (hpref : pref ∈ device.keysValues) : pref ∈ keys :=
    device.perm.mem_iff.mp hpref
  have hkeys : ∀ pref ∈ device.keysValues, unit '=' ∉ pref.key :=
    fun pref hpref => (passes_keys pref (hmem hpref)).1.2.1
  have hmain : Receiver.main (some (println
      (device.keysValues.map fun pref =>
        line pref.key (shownOf p pref) ++ text "\n").flatten.dropLast)) [] =
      (device.keysValues.map fun pref => line pref.key (Utf16.written (shownOf p pref))).foldlM
        putLine
        (LinkedMap.empty.set none (some none)) := by
    rw [Receiver.main, Option.map_some, Option.getD_some, nextLines_list hread hlines]
    cases (device.keysValues.map fun pref => line pref.key (Utf16.written (shownOf p pref))).foldlM
      putLine
      (LinkedMap.empty.set none (some none)) with
    | error ended => rfl
    | ok request => rfl
  rw [hmain]
  constructor
  · intro h
    have hfed : ∀ pref ∈ keys,
        fed (Utf16.written (shownOf p pref)) = .ok (askedOf p pref) := fun pref hpref => by
      obtain ⟨v, hv⟩ := exists_fed_of_foldlM hkeys h pref (device.perm.mem_iff.mpr hpref)
      rw [askedOf, hv]
    rw [foldlM_putLine hkeys fun pref hpref => hfed pref (hmem hpref)] at h
    exact ⟨hfed, (Except.ok.inj h).symm⟩
  · rintro ⟨hfed, rfl⟩
    exact foldlM_putLine hkeys (fun pref hpref => hfed pref (hmem hpref)) _

/-- Feeding the list back restores the preferences if each value survives its own line. -/
theorem feedsBack_iff_asked (hread : p.Readable) (hlines : p.OneLined) :
    FeedsBack device p ↔
      (∀ pref ∈ keys, fed (Utf16.written (shownOf p pref)) = .ok (askedOf p pref)) ∧
        ∀ extras : Extras, extras.entries.Perm (requestOf device p).entries →
          Receiver.Accepts device extras ∧ ∀ pref ∈ keys,
            (p.onReceive device extras).2.value pref = p.value pref := by
  have hasked : ∃ asked, Receiver.main none [text "list"] = .ok asked ∧
      (asked.get (some (text "list"))).join.isSome = true := ⟨_, rfl, rfl⟩
  obtain ⟨asked, hmain, hasks⟩ := hasked
  have hanswer : (p.onReceive device asked).1 =
      ⟨0, 2, (device.keysValues.map fun pref =>
          line pref.key (shownOf p pref) ++ text "\n").flatten.dropLast⟩ := by
    rw [PrefsProto.onReceive, Receiver.onReceive, if_pos hasks, list_eq (exists_listed hread)]
  have hdone {extras : Extras} (hperm : extras.entries.Perm (requestOf device p).entries) :
      (p.onReceive device extras).1 = ⟨0, 2, text "Done"⟩ ↔ Receiver.Accepts device extras :=
    done_iff_accepts ((asks_foldl (askedOf p)).of_perm hperm).not_list
  constructor
  · rintro ⟨asked', hmain', result, hresult, request, hrequest, hextras⟩
    obtain rfl := Except.ok.inj (hmain.symm.trans hmain')
    obtain rfl := congrArg Response.text (hanswer.symm.trans hresult)
    obtain ⟨hfed, rfl⟩ := (main_list hread hlines request).mp hrequest
    exact ⟨hfed, fun extras hperm => (hextras extras hperm).imp_left (hdone hperm).mp⟩
  · rintro ⟨hfed, hextras⟩
    refine ⟨asked, hmain, _, hanswer, _, (main_list hread hlines _).mpr ⟨hfed, rfl⟩,
      fun extras hperm => ?_⟩
    exact (hextras extras hperm).imp_left (hdone hperm).mpr

theorem askedOf_eq {s : JString} (h : fed (Utf16.written (shownOf p pref)) = .ok s) :
    askedOf p pref = s := by
  rw [askedOf, h]

theorem ofBool_eq_true_iff {b : Bool} : ofBool b = text "true" ↔ b = true := by
  cases b with
  | false => exact iff_of_false (by decide) nofun
  | true => exact iff_of_true rfl rfl

/-- What is read as a string is the string itself, if the request leaves it unchanged. -/
theorem asked_string {defValue s : JString} (hpref : .string key defValue ∈ keys)
    (hvalue : p.value (.string key defValue) = .ok (.string s)) {extras : Extras}
    (hasks : Asks (askedOf p) extras)
    (haccepts : Receiver.Accepts device extras)
    (hsame : (p.onReceive device extras).2.value (.string key defValue) = p.value
      (.string key defValue)) :
    askedOf p (.string key defValue) = s := by
  obtain ⟨value, hnew⟩ := hasks.accepts_iff.mp haccepts _ hpref
  obtain rfl := newPreference_string hpref hnew
  rcases hasks.value_after haccepts hpref nofun hnew with hafter | ⟨hflag, -⟩
  · simpa using (hafter.symm.trans hsame).trans hvalue
  · cases hflag

/-- Some order of the extras turns the additional keys on after it says that they are not
visible. -/
theorem exists_shownAfter {request : Extras}
    (hvisible : ∃ s, (some additionalKbdVisible.key, some s) ∈ request.entries)
    (hshown : (some showAdditionalKbd.key, some (text "true")) ∈ request.entries) :
    ∃ extras : Extras, extras.entries.Perm request.entries ∧ Receiver.ShownAfter extras := by
  obtain ⟨s, hs⟩ := hvisible
  have hperm := List.perm_cons_erase hs
  refine ⟨⟨_, (hperm.map Prod.fst).nodup_iff.mp request.nodup⟩, hperm.symm, ?_⟩
  rw [Receiver.ShownAfter, List.dropWhile_cons_of_neg (by simp)]
  exact hperm.mem_iff.mp hshown

/-- Preferences that come back value by value are restorable. -/
theorem restorable_of_asked
    (hfed : ∀ pref ∈ keys, fed (Utf16.written (shownOf p pref)) = .ok (askedOf p pref))
    (hextras : ∀ extras : Extras, extras.entries.Perm (requestOf device p).entries →
      Receiver.Accepts device extras ∧ ∀ pref ∈ keys,
        (p.onReceive device extras).2.value pref = p.value pref) :
    Restorable device p := by
  have hasks : Asks (askedOf p) (requestOf device p) := asks_foldl (askedOf p)
  obtain ⟨haccepts, hsame⟩ := hextras (requestOf device p) (.refl _)
  have hnew := hasks.accepts_iff.mp haccepts
  have htrue {key : JString} {defValue : Bool} (hpref : .boolean key defValue ∈ keys)
      (hvalue : p.value (.boolean key defValue) = .ok (.boolean true)) :
      askedOf p (.boolean key defValue) = text "true" := by
    obtain ⟨b, hb, hlisted⟩ := value_boolean hvalue
    obtain rfl : true = b := by simpa using hb
    refine askedOf_eq ?_
    rw [shownOf_eq hlisted]
    exact fed_written_eq_iff.mpr (passes_ofBool true).2
  constructor
  case resolution =>
    intro s hs
    obtain rfl :=
      asked_string mem_displayResolutionCustom hs hasks haccepts
      (hsame _ mem_displayResolutionCustom)
    exact exists_newPreference_resolution.mp (hnew _ mem_displayResolutionCustom)
  case string =>
    intro key defValue hpref s hs
    obtain ⟨s', hs', hlisted⟩ := value_string hs
    obtain rfl : s = s' := by simpa using hs'
    have hasked := asked_string hpref hs hasks haccepts (hsame _ hpref)
    have hread := hfed _ hpref
    rw [hasked, shownOf_eq hlisted] at hread
    exact fed_written_eq_iff.mp hread
  case list =>
    intro key defValue entries values hpref s hs
    obtain ⟨value, hvalue⟩ := hnew _ hpref
    obtain ⟨other, hother, hkey, hfits⟩ := Receiver.newPreference_fits hvalue
    obtain rfl := eq_of_key hother hpref hkey
    rcases hasks.value_after haccepts hpref nofun hvalue with hafter | ⟨hflag, -⟩
    · obtain rfl : value = .string s := Except.ok.inj ((hafter.symm.trans (hsame _ hpref)).trans hs)
      exact hfits
    · cases hflag
  case permission =>
    intro hs
    exact exists_newPreference_permission.mp (hnew _ mem_enableAccessibilityServiceAutomatically)
      (htrue mem_enableAccessibilityServiceAutomatically hs)
  case visible =>
    intro hs
    have hshown := hasks.get _ mem_showAdditionalKbd
    rw [show askedOf p showAdditionalKbd = text "true" from htrue mem_showAdditionalKbd hs]
      at hshown
    have hvisible := hasks.get _ mem_additionalKbdVisible
    obtain ⟨extras, hperm, hafter⟩ :=
      exists_shownAfter ⟨_, LinkedMap.mem_of_get _ hvisible⟩ (LinkedMap.mem_of_get _ hshown)
    obtain ⟨haccepts', hsame'⟩ := hextras extras hperm
    have hvisible := (hasks.of_perm hperm).visible_after (p := p) haccepts'
    rw [hsame' _ mem_additionalKbdVisible] at hvisible
    simpa [hafter] using hvisible

/-- What is shown of a preference that can be restored is read as itself, and as the value it
has. -/
theorem Restorable.asked (h : Restorable device p) (hread : p.Readable) (hpref : pref ∈ keys) :
    ∃ value, p.value pref = .ok value ∧
      fed (Utf16.written (shownOf p pref)) = .ok (shownOf p pref) ∧
      Receiver.newPreference device pref.key (shownOf p pref) = .ok value := by
  obtain ⟨value, hvalue⟩ := hread pref hpref
  refine ⟨value, hvalue, ?_⟩
  cases pref with
  | string key defValue =>
    obtain ⟨s, rfl, hlisted⟩ := value_string hvalue
    rw [shownOf_eq hlisted]
    refine ⟨fed_written_eq_iff.mpr (h.string key defValue hpref s hvalue), ?_⟩
    obtain ⟨stored, hnew⟩ : ∃ stored, Receiver.newPreference device key s = .ok stored := by
      rcases string_cases hpref with heq | heq
      · rw [show key = displayResolutionCustom.key from congrArg Preference.key heq]
        exact exists_newPreference_resolution.mpr (h.resolution s (heq ▸ hvalue))
      · rw [show key = extra_keys_config.key from congrArg Preference.key heq,
          Receiver.newPreference,
          if_neg extra_keys_config_ne_displayResolutionCustom,
          if_neg extra_keys_config_ne_enableAccessibilityService, if_pos rfl]
        exact ⟨_, rfl⟩
    obtain rfl := newPreference_string hpref hnew
    exact hnew
  | int key defValue =>
    obtain ⟨n, rfl, hlisted⟩ := value_int hvalue
    rw [shownOf_eq hlisted]
    exact ⟨fed_written_eq_iff.mpr (passes_ofInt n).2, newPreference_int hpref (parseInt_toString n)⟩
  | boolean key defValue =>
    obtain ⟨b, rfl, hlisted⟩ := value_boolean hvalue
    rw [shownOf_eq hlisted]
    refine ⟨fed_written_eq_iff.mpr (passes_ofBool b).2, ?_⟩
    obtain ⟨stored, hnew⟩ : ∃ stored,
        Receiver.newPreference device key (ofBool b) = .ok stored := by
      refine exists_newPreference_boolean hpref fun hkey htrue => ?_
      obtain rfl := ofBool_eq_true_iff.mp htrue
      exact h.permission (eq_of_key hpref mem_enableAccessibilityServiceAutomatically hkey ▸ hvalue)
    obtain rfl := Receiver.newPreference_boolean hpref hnew
    refine hnew.trans (congrArg (fun b => Except.ok (PrefValue.boolean b)) ?_)
    exact Bool.eq_iff_iff.mpr (decide_eq_true_iff.trans ofBool_eq_true_iff)
  | list key defValue entries values =>
    obtain ⟨s, rfl, hlisted⟩ := value_list hpref hvalue
    rw [shownOf_eq hlisted]
    have hlabels : Labels entries values := labels_keys _ hpref
    obtain ⟨hpasses, hindex⟩ := hlabels.2.2 s (h.list key defValue entries values hpref s hvalue)
    refine ⟨fed_written_eq_iff.mpr ?_, newPreference_list hpref hindex⟩
    rcases label_eq_or hlabels s with hsame | hlabel
    · exact hsame.symm ▸ hpasses.2
    · exact hlabel.2

/-- **The answer to `list` can be fed back** exactly if every value can be restored. -/
theorem feedsBack_iff_restorable (hread : p.Readable) (hlines : p.OneLined) :
    FeedsBack device p ↔ Restorable device p := by
  rw [feedsBack_iff_asked hread hlines]
  constructor
  · rintro ⟨hfed, hextras⟩
    exact restorable_of_asked hfed hextras
  · intro h
    have hasked : ∀ pref ∈ keys, askedOf p pref = shownOf p pref := fun pref hpref => by
      obtain ⟨-, -, hfed, -⟩ := h.asked hread hpref
      exact askedOf_eq hfed
    refine ⟨fun pref hpref => ?_, fun extras hperm => ?_⟩
    · obtain ⟨-, -, hfed, -⟩ := h.asked hread hpref
      rw [hasked pref hpref]
      exact hfed
    have hasks : Asks (askedOf p) extras := (asks_foldl (askedOf p)).of_perm hperm
    have haccepts : Receiver.Accepts device extras := hasks.accepts_iff.mpr fun pref hpref => by
      obtain ⟨value, -, -, hnew⟩ := h.asked hread hpref
      exact ⟨value, hasked pref hpref ▸ hnew⟩
    refine ⟨haccepts, fun pref hpref => ?_⟩
    obtain ⟨value, hvalue, -, hnew⟩ := h.asked hread hpref
    rw [← hasked pref hpref] at hnew
    by_cases hvisible : pref = additionalKbdVisible
    · subst hvisible
      obtain ⟨b, rfl, hlisted⟩ := value_boolean hvalue
      have hb : askedOf p additionalKbdVisible = text "true" ↔ b = true := by
        rw [hasked _ hpref, show shownOf p additionalKbdVisible = ofBool b from shownOf_eq hlisted,
          ofBool_eq_true_iff]
      have hshown : Receiver.ShownAfter extras → b = true := fun hafter => by
        have hmem := extras.get_of_mem ((List.dropWhile_sublist _).mem hafter)
        have htrue :=
          Option.some.inj (Option.some.inj ((hasks.get _ mem_showAdditionalKbd).symm.trans hmem))
        obtain ⟨c, hc, -, -⟩ := h.asked hread mem_showAdditionalKbd
        obtain ⟨c, rfl, hshows⟩ := value_boolean hc
        rw [hasked _ mem_showAdditionalKbd,
          show shownOf p showAdditionalKbd = ofBool c from shownOf_eq hshows,
          ofBool_eq_true_iff] at htrue
        subst htrue
        simpa using (h.visible hc).symm.trans hvalue
      have hvisible :
          decide (askedOf p additionalKbdVisible = text "true" ∨ Receiver.ShownAfter extras) = b :=
        Bool.eq_iff_iff.mpr
          (decide_eq_true_iff.trans
          ⟨fun hor => hor.elim hb.mp hshown, fun htrue => .inl (hb.mpr htrue)⟩)
      rw [hasks.visible_after haccepts, hvalue, hvisible]
    · rcases hasks.value_after haccepts hpref hvisible hnew with hafter | ⟨-, hsame⟩
      · exact hafter.trans hvalue.symm
      · exact hsame

/-- Stores of values with their types can be read. -/
theorem readable_of_wellTyped (hbuiltIn : WellTyped p.stores.builtInDisplayPreferences)
    (h : WellTyped p.get) :
    p.Readable := by
  intro pref hpref
  cases pref with
  | string key defValue =>
    obtain ⟨s, hs⟩ := exists_getString h hpref
    exact ⟨_, congrArg (Except.map PrefValue.string) hs⟩
  | int key defValue =>
    obtain ⟨n, hn⟩ := exists_getInt h hpref
    exact ⟨_, congrArg (Except.map PrefValue.int) hn⟩
  | boolean key defValue =>
    obtain ⟨b, hb⟩ := exists_getBoolean h hpref
    obtain ⟨c, hc⟩ := exists_getBoolean hbuiltIn hpref
    show ∃ value, (BooleanPreference.get p key defValue).map PrefValue.boolean = .ok value
    unfold BooleanPreference.get
    split
    case isTrue => exact ⟨_, congrArg (Except.map PrefValue.boolean) hc⟩
    case isFalse => exact ⟨_, congrArg (Except.map PrefValue.boolean) hb⟩
  | list key defValue entries values =>
    obtain ⟨s, -, hs⟩ := exists_getString_list h hpref
    exact ⟨_, congrArg (Except.map PrefValue.string) hs⟩

/-- No default has a line break. -/
theorem oneLine_default : ∀ pref ∈ keys, ∀ s, pref.default = .string s → OneLine s := by
  intro pref hpref s hs
  cases pref with
  | string key defValue =>
    obtain rfl := PrefValue.string.inj hs
    rcases string_cases hpref with heq | heq
    · have hdefault : defValue = text "1280x1024" := (Preference.string.inj heq).2
      rw [hdefault]
      decide
    · have hdefault := congrArg Preference.default heq
      rw [PrefValue.string.inj hdefault]
      decide +kernel
  | int key defValue => cases hs
  | boolean key defValue => cases hs
  | list key defValue entries values =>
    obtain rfl := PrefValue.string.inj hs
    have hlabels : Labels entries values := labels_keys _ hpref
    exact (hlabels.2.2 defValue (fits_default _ hpref)).1.1

theorem getString_cases {preferences : SharedPreferences} {defValue s : JString}
    (h : preferences.getString key defValue = .ok s) :
    preferences key = some (.string s) ∨ s = defValue := by
  unfold SharedPreferences.getString at h
  split at h
  case h_1 => exact .inr (Except.ok.inj h).symm
  case h_2 hstored => exact .inl (Except.ok.inj h ▸ hstored)
  case h_3 => cases h

/-- Strings that are stored on one line are read on one line. -/
theorem oneLined_of_stored (h : ∀ key s, p.get key = some (.string s) → OneLine s) :
    p.OneLined := by
  intro pref hpref s hs
  have hdefault := oneLine_default pref hpref
  cases pref with
  | string key defValue =>
    have hmap : (p.get.getString key defValue).map PrefValue.string = .ok (.string s) := hs
    obtain ⟨stored, hstored, heq⟩ := exists_of_map hmap
    obtain rfl := PrefValue.string.inj heq
    exact (getString_cases hstored).elim (h key s) fun heq =>
      hdefault s (congrArg PrefValue.string heq.symm)
  | int key defValue =>
    have hmap : (p.get.getInt key defValue).map PrefValue.int = .ok (.string s) := hs
    obtain ⟨n, -, heq⟩ := exists_of_map hmap
    cases heq
  | boolean key defValue =>
    have hmap : (BooleanPreference.get p key defValue).map PrefValue.boolean = .ok (.string s) := hs
    obtain ⟨b, -, heq⟩ := exists_of_map hmap
    cases heq
  | list key defValue entries values =>
    have hmap : (p.get.getString key defValue).map PrefValue.string = .ok (.string s) := hs
    obtain ⟨stored, hstored, heq⟩ := exists_of_map hmap
    obtain rfl := PrefValue.string.inj heq
    exact (getString_cases hstored).elim (h key s) fun heq =>
      hdefault s (congrArg PrefValue.string heq.symm)

/-- The extra keys are set, and nothing else is. -/
def withExtraKeys (config : String) : PrefsProto where
  stores := ⟨SharedPreferences.put (fun _ => none) extra_keys_config.key (.string (text config)),
    fun _ => none⟩
  isSecondaryDisplayPreferences := false
  isExternalDisplay := false

theorem readable_withExtraKeys (config : String) : (withExtraKeys config).Readable := by
  have htyped :
      WellTyped (SharedPreferences.put (fun _ => none) extra_keys_config.key
        (.string (text config))) :=
    wellTyped_put extra_keys_config (fun _ _ _ hnone => nomatch hnone) mem_extra_keys_config trivial
  exact readable_of_wellTyped htyped htyped

theorem oneLined_withExtraKeys {config : String} (h : OneLine (text config)) :
    (withExtraKeys config).OneLined := by
  refine oneLined_of_stored fun key s hs => ?_
  have hput :
      SharedPreferences.put (fun _ => none) extra_keys_config.key (.string (text config)) key =
        some (.string s) := hs
  rw [SharedPreferences.put_apply] at hput
  split at hput
  case isTrue => exact PrefValue.string.inj (Option.some.inj hput) ▸ h
  case isFalse => cases hput

theorem feedsBack_escape :
    FeedsBack phone (withExtraKeys "[['ESC']]") ↔ Restorable phone (withExtraKeys "[['ESC']]") :=
  feedsBack_iff_restorable (readable_withExtraKeys _) (oneLined_withExtraKeys (by decide))

theorem not_feedsBack_equals :
    ¬∀ (device : Device) (p : PrefsProto), p.Readable → p.OneLined → FeedsBack device p := by
  intro hall
  have hread := readable_withExtraKeys "[['=']]"
  have hlines : (withExtraKeys "[['=']]").OneLined := oneLined_withExtraKeys (by decide)
  obtain ⟨hfed, hextras⟩ := (feedsBack_iff_asked hread hlines).mp (hall phone _ hread hlines)
  have hvalue :
      (withExtraKeys "[['=']]").value extra_keys_config = .ok (.string (text "[['=']]")) := rfl
  have hequals := ((restorable_of_asked hfed hextras).string _ _ mem_extra_keys_config _ hvalue).1
  exact hequals (by decide)

end WinEmulator.X11.LoriePreferences
