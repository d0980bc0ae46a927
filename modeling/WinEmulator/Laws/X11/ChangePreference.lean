import WinEmulator.X11.LoriePreferences

/-!
# What a request to change preferences stores

A request is accepted if each of its keys with a string is, and then each of them has what its
string is read as; a request that is not accepted stores nothing. What is stored always has the type
of its preference.
-/

set_option autoImplicit false

namespace WinEmulator.X11.LoriePreferences

open WinEmulator.Lib
open WinEmulator.Lib.JavaString

/-- A value that a preference can have. -/
def Preference.Fits : Preference → PrefValue → Prop
  | .string _ _, .string _ | .int _ _, .int _ | .boolean _ _, .boolean _ => True
  | .list _ _ _ values, .string value => value ∈ values.strings
  | _, _ => False

def Preference.default : Preference → PrefValue
  | .string _ defValue | .list _ defValue _ _ => .string defValue
  | .int _ defValue => .int defValue
  | .boolean _ defValue => .boolean defValue

instance : ∀ (pref : Preference) (value : PrefValue), Decidable (pref.Fits value)
  | .string _ _, .string _ | .int _ _, .int _ | .boolean _ _, .boolean _ =>
    inferInstanceAs (Decidable True)
  | .list _ _ _ values, .string value => inferInstanceAs (Decidable (value ∈ values.strings))
  | .string _ _, .int _ | .string _ _, .boolean _ | .int _ _, .string _ | .int _ _, .boolean _
  | .boolean _ _, .string _
  | .boolean _ _, .int _ | .list _ _ _ _, .int _ | .list _ _ _ _, .boolean _ =>
    inferInstanceAs (Decidable False)

/-- What is stored has the type of its preference. -/
def WellTyped (p : SharedPreferences) : Prop :=
  ∀ pref ∈ keys, ∀ value, p pref.key = some value → pref.Fits value

/-- Every key with a string is one that can be changed to it, and the request is not for a list. -/
def Receiver.Accepts (device : Device) (extras : LinkedMap (Option JString) (Option JString)) :
    Prop :=
  (extras.get (some (text "list"))).join = none ∧
    ∀ key newValue, extras.get (some key) = some (some newValue) →
      ∃ value, Receiver.newPreference device key newValue = .ok value

/-- What the store holds after a request that is accepted. -/
def Receiver.requested (device : Device) (p : SharedPreferences)
    (extras : LinkedMap (Option JString) (Option JString)) : SharedPreferences := fun key =>
  match (extras.get (some key)).join with
  | some newValue =>
    match newPreference device key newValue with
    | .ok value => some value
    | .error _ => none
  | none => p key

/-- The request turns the additional keys on after it says whether they are visible. -/
def Receiver.ShownAfter (extras : LinkedMap (Option JString) (Option JString)) : Prop :=
  (some showAdditionalKbd.key, some (text "true")) ∈
    extras.entries.dropWhile fun extra => extra.1 ≠ some additionalKbdVisible.key

instance (extras : LinkedMap (Option JString) (Option JString)) :
    Decidable (Receiver.ShownAfter extras) :=
  inferInstanceAs (Decidable (_ ∈ _))

variable {builtIn p : SharedPreferences} {pref : Preference} {key : JString} {value : PrefValue}

/-! ## The keys -/

@[simp] theorem key_displayResolutionMode :
    displayResolutionMode.key = text "displayResolutionMode" := rfl

@[simp] theorem key_displayScale : displayScale.key = text "displayScale" := rfl

@[simp] theorem key_displayResolutionCustom :
    displayResolutionCustom.key = text "displayResolutionCustom" := rfl

@[simp] theorem key_hideCutout : hideCutout.key = text "hideCutout" := rfl

@[simp] theorem key_showAdditionalKbd : showAdditionalKbd.key = text "showAdditionalKbd" := rfl

@[simp] theorem key_additionalKbdVisible : additionalKbdVisible.key = text "additionalKbdVisible" :=
  rfl

theorem mem_displayResolutionMode : displayResolutionMode ∈ keys := by simp [keys]

theorem mem_displayScale : displayScale ∈ keys := by simp [keys]

theorem mem_displayResolutionExact : displayResolutionExact ∈ keys := by simp [keys]

theorem mem_displayResolutionCustom : displayResolutionCustom ∈ keys := by simp [keys]

theorem mem_adjustResolution : adjustResolution ∈ keys := by simp [keys]

theorem mem_enableAccessibilityServiceAutomatically :
    enableAccessibilityServiceAutomatically ∈ keys := by simp [keys]

theorem mem_extra_keys_config : extra_keys_config ∈ keys := by simp [keys]

/-- No key stands twice in the list. -/
theorem keys_nodup : (keys.map Preference.key).Nodup := by
  decide +kernel

/-- Every default is one of the values of its preference. -/
theorem fits_default : ∀ pref ∈ keys, pref.Fits pref.default := by
  decide +kernel

theorem eq_of_key {other : Preference} (hpref : pref ∈ keys) (hother : other ∈ keys)
    (h : pref.key = other.key) :
    pref = other :=
  List.inj_on_of_nodup_map keys_nodup hpref hother h

theorem of_find?_key (h : keys.find? (fun pref => pref.key = key) = some pref) :
    pref ∈ keys ∧ pref.key = key :=
  ⟨List.mem_of_find?_eq_some h, by simpa using List.find?_some h⟩

/-! ## Stores -/

theorem SharedPreferences.put_apply (p : SharedPreferences) (key : JString) (value : PrefValue)
    (other : JString) :
    p.put key value other = if other = key then some value else p other :=
  Function.update_apply p key (some value) other

/-- A value that fits its preference keeps the store well typed. -/
theorem wellTyped_put (pref : Preference) (h : WellTyped p) (hpref : pref ∈ keys)
    (hfits : pref.Fits value) :
    WellTyped (p.put pref.key value) := by
  intro other hother stored hstored
  rw [SharedPreferences.put_apply] at hstored
  split at hstored
  case isTrue hkey =>
    obtain rfl := eq_of_key hother hpref hkey
    exact Option.some.inj hstored ▸ hfits
  case isFalse => exact h other hother stored hstored

theorem Preference.getString_congr {q : SharedPreferences} (h : p pref.key = q pref.key) :
    pref.getString p = pref.getString q := by
  cases pref with
  | string key defValue =>
    exact congrArg (fun stored => SharedPreferences.getString (fun _ => stored) key defValue) h
  | list key defValue entries values =>
    exact congrArg (fun stored => SharedPreferences.getString (fun _ => stored) key defValue) h
  | int key defValue => rfl
  | boolean key defValue => rfl

theorem Preference.getInt_congr {q : SharedPreferences} (h : p pref.key = q pref.key) :
    pref.getInt p = pref.getInt q := by
  cases pref with
  | int key defValue =>
    exact congrArg (fun stored => SharedPreferences.getInt (fun _ => stored) key defValue) h
  | string key defValue => rfl
  | list key defValue entries values => rfl
  | boolean key defValue => rfl

theorem Stores.get_put (stores : Stores) (written read : Bool) (preferences : SharedPreferences) :
    (stores.put written preferences).get read = if read = written then preferences
      else stores.get read := by
  cases written <;> cases read <;> rfl

/-- What is read of a list is one of its values. -/
theorem exists_getString_list {defValue : JString} {entries values : StringArray} (h : WellTyped p)
    (hpref : .list key defValue entries values ∈ keys) :
    ∃ stored ∈ values.strings, (Preference.list key defValue entries values).getString p =
      .ok stored := by
  show ∃ stored ∈ values.strings, p.getString key defValue = .ok stored
  unfold SharedPreferences.getString
  cases hvalue : p key with
  | none => exact ⟨defValue, fits_default _ hpref, rfl⟩
  | some value =>
    have hfits := h _ hpref value hvalue
    cases value with
    | string stored => exact ⟨stored, hfits, rfl⟩
    | boolean stored => exact hfits.elim
    | int stored => exact hfits.elim

/-- A well-typed store gives every text. -/
theorem exists_getString {defValue : JString} (h : WellTyped p)
    (hpref : .string key defValue ∈ keys) :
    ∃ stored, (Preference.string key defValue).getString p = .ok stored := by
  show ∃ stored, p.getString key defValue = .ok stored
  unfold SharedPreferences.getString
  cases hvalue : p key with
  | none => exact ⟨defValue, rfl⟩
  | some value =>
    have hfits := h _ hpref value hvalue
    cases value with
    | string stored => exact ⟨stored, rfl⟩
    | boolean stored => exact hfits.elim
    | int stored => exact hfits.elim

/-- A well-typed store gives every number. -/
theorem exists_getInt {defValue : Int32} (h : WellTyped p) (hpref : .int key defValue ∈ keys) :
    ∃ stored, (Preference.int key defValue).getInt p = .ok stored := by
  show ∃ stored, p.getInt key defValue = .ok stored
  unfold SharedPreferences.getInt
  cases hvalue : p key with
  | none => exact ⟨defValue, rfl⟩
  | some value =>
    have hfits := h _ hpref value hvalue
    cases value with
    | int stored => exact ⟨stored, rfl⟩
    | boolean stored => exact hfits.elim
    | string stored => exact hfits.elim

/-- A well-typed store gives every flag. -/
theorem exists_getBoolean {defValue : Bool} (h : WellTyped p)
    (hpref : .boolean key defValue ∈ keys) :
    ∃ stored, (Preference.boolean key defValue).getBoolean p = .ok stored := by
  show ∃ stored, p.getBoolean key defValue = .ok stored
  unfold SharedPreferences.getBoolean
  cases hvalue : p key with
  | none => exact ⟨defValue, rfl⟩
  | some value =>
    have hfits := h _ hpref value hvalue
    cases value with
    | boolean stored => exact ⟨stored, rfl⟩
    | int stored => exact hfits.elim
    | string stored => exact hfits.elim

/-! ## New values -/

/-- The value that a preference takes for a string. -/
def Preference.Takes : Preference → JString → PrefValue → Prop
  | .string _ _, s, value => value = .string s
  | .int _ _, s, value => ∃ n, parseInt s = some n ∧ value = .int n
  | .boolean _ _, s, value => value = .boolean (s = text "true")
  | .list _ _ entries values, s, value => ∃ index stored,
      Receiver.indexOf entries values s = some index ∧ values.strings[index]? = some stored ∧
        value = .string stored

theorem Preference.Takes.fits {s : JString} (h : pref.Takes s value) : pref.Fits value := by
  cases pref with
  | string pkey defValue =>
    obtain rfl : value = .string s := h
    trivial
  | int pkey defValue =>
    obtain ⟨n, -, rfl⟩ := h
    trivial
  | boolean pkey defValue =>
    obtain rfl : value = .boolean (s = text "true") := h
    trivial
  | list pkey defValue entries values =>
    obtain ⟨index, stored, -, hstored, rfl⟩ := h
    exact List.mem_of_getElem? hstored

/-! ## The receiver -/

namespace Receiver

variable {device : Device} {newValue : JString}

/-- Only keys of preferences can be changed, and to what they take for the string. -/
theorem newPreference_takes (h : newPreference device key newValue = .ok value) :
    ∃ pref ∈ keys, pref.key = key ∧ pref.Takes newValue value := by
  unfold newPreference at h
  split at h
  case isTrue hkey =>
    split at h
    case h_1 =>
      exact ⟨displayResolutionCustom, mem_displayResolutionCustom, hkey.symm,
        (Except.ok.inj h).symm⟩
    case h_2 => cases h
    case h_3 => cases h
  split at h
  case isTrue hkey =>
    split at h
    case isTrue => cases h
    case isFalse =>
      exact ⟨_, mem_enableAccessibilityServiceAutomatically, hkey.symm, (Except.ok.inj h).symm⟩
  split at h
  case isTrue hkey =>
    exact ⟨extra_keys_config, mem_extra_keys_config, hkey.symm, (Except.ok.inj h).symm⟩
  split at h
  case h_1 hfind =>
    exact ⟨_, (of_find?_key hfind).1, (of_find?_key hfind).2, (Except.ok.inj h).symm⟩
  case h_2 hfind =>
    split at h
    case h_1 n hn =>
      exact ⟨_, (of_find?_key hfind).1, (of_find?_key hfind).2, n, hn, (Except.ok.inj h).symm⟩
    case h_2 => cases h
  case h_3 hfind =>
    split at h
    case h_1 index hindex =>
      split at h
      case h_1 stored hstored =>
        exact ⟨_, (of_find?_key hfind).1, (of_find?_key hfind).2, index, stored, hindex, hstored,
          (Except.ok.inj h).symm⟩
      case h_2 => cases h
    case h_2 => cases h
  case h_4 => cases h

/-- What is taken for the key of a preference is taken by it. -/
theorem takes_of_newPreference (hpref : pref ∈ keys)
    (h : newPreference device pref.key newValue = .ok value) :
    pref.Takes newValue value := by
  obtain ⟨other, hother, hkey, htakes⟩ := newPreference_takes h
  obtain rfl := eq_of_key hother hpref hkey
  exact htakes

/-- What the receiver makes of a text fits the preference. -/
theorem newPreference_fits (h : newPreference device key newValue = .ok value) :
    ∃ pref ∈ keys, pref.key = key ∧ pref.Fits value := by
  obtain ⟨pref, hpref, hkey, htakes⟩ := newPreference_takes h
  exact ⟨pref, hpref, hkey, htakes.fits⟩

/-- What one extra changes. -/
theorem change_eq {edit edit' : SharedPreferences}
    (h : change device edit key newValue = .ok edit') :
    ∃ value, newPreference device key newValue = .ok value ∧
      edit' = if key = showAdditionalKbd.key ∧ newValue = text "true" then
        (edit.put key value).put additionalKbdVisible.key (.boolean true)
          else edit.put key value := by
  unfold change at h
  cases hvalue : newPreference device key newValue with
  | error response =>
    rw [hvalue] at h
    cases h
  | ok value =>
    rw [hvalue] at h
    exact ⟨value, rfl, (Except.ok.inj h).symm⟩

/-- One extra keeps the store well typed. -/
theorem wellTyped_change {edit edit' : SharedPreferences} (hwell : WellTyped edit)
    (h : change device edit key newValue = .ok edit') : WellTyped edit' := by
  obtain ⟨value, hvalue, rfl⟩ := change_eq h
  obtain ⟨pref, hpref, rfl, hfits⟩ := newPreference_fits hvalue
  split
  case isTrue =>
    exact wellTyped_put additionalKbdVisible (wellTyped_put pref hwell hpref hfits)
      (by simp [keys]) trivial
  case isFalse => exact wellTyped_put pref hwell hpref hfits

theorem change_apply {edit edit' : SharedPreferences} {other : JString}
    (hother : other ≠ additionalKbdVisible.key)
    (h : change device edit key newValue = .ok edit') :
    ∃ value, newPreference device key newValue = .ok value ∧
      edit' other = if other = key then some value else edit other := by
  obtain ⟨value, hvalue, rfl⟩ := change_eq h
  refine ⟨value, hvalue, ?_⟩
  split
  case isTrue => rw [SharedPreferences.put_apply, if_neg hother, SharedPreferences.put_apply]
  case isFalse => rw [SharedPreferences.put_apply]

/-- An extra that has a key and a string, or one that is skipped. -/
theorem extra_cases (device : Device) (extra : Option JString × Option JString) :
    (∃ key newValue, extra = (some key, some newValue)) ∨
      (extra.1 = none ∨ extra.2 = none) ∧
        ∀ edit extras, changes device edit (extra :: extras) = changes device edit extras := by
  obtain ⟨key, newValue⟩ := extra
  cases key with
  | none => exact .inr ⟨.inl rfl, fun _ _ => rfl⟩
  | some key =>
    cases newValue with
    | none => exact .inr ⟨.inr rfl, fun _ _ => rfl⟩
    | some newValue => exact .inl ⟨key, newValue, rfl⟩

theorem changes_cons_ok {extras : List (Option JString × Option JString)}
    {edit edit' : SharedPreferences}
    (h : changes device edit ((some key, some newValue) :: extras) = .ok edit') :
    ∃ mid, change device edit key newValue = .ok mid ∧ changes device mid extras = .ok edit' := by
  rw [changes] at h
  cases hmid : change device edit key newValue with
  | error response =>
    rw [hmid] at h
    cases h
  | ok mid =>
    rw [hmid] at h
    exact ⟨mid, rfl, h⟩

/-- **The extras of a request keep the store well typed.** -/
theorem wellTyped_changes {extras : List (Option JString × Option JString)}
    {edit edit' : SharedPreferences}
    (hwell : WellTyped edit) (h : changes device edit extras = .ok edit') : WellTyped edit' := by
  induction extras generalizing edit with
  | nil =>
    obtain rfl := Except.ok.inj h
    exact hwell
  | cons extra extras ih =>
    rcases extra_cases device extra with ⟨key, newValue, rfl⟩ | ⟨-, hskip⟩
    · obtain ⟨mid, hmid, hrest⟩ := changes_cons_ok h
      exact ih (wellTyped_change hwell hmid) hrest
    · exact ih hwell (hskip edit extras ▸ h)

/-- What a loop over extras that are all accepted makes of a key. -/
theorem changes_apply {extras : List (Option JString × Option JString)}
    {edit edit' : SharedPreferences}
    (hnodup : (extras.map Prod.fst).Nodup) (hkey : key ≠ additionalKbdVisible.key)
    (h : changes device edit extras = .ok edit') :
    edit' key = requested device edit ⟨extras, hnodup⟩ key := by
  induction extras generalizing edit with
  | nil =>
    obtain rfl := Except.ok.inj h
    rfl
  | cons extra extras ih =>
    obtain ⟨hnew, hrest⟩ := List.nodup_cons.mp hnodup
    have hlater : some key = extra.1 →
        (LinkedMap.mk extras hrest).get (some key) = none := fun hsame =>
      LinkedMap.get_eq_none (hsame ▸ hnew)
    unfold requested
    rw [LinkedMap.get_cons]
    rcases extra_cases device extra with ⟨changed, newValue, rfl⟩ | ⟨hnone, hskip⟩
    · obtain ⟨mid, hmid, hchanges⟩ := changes_cons_ok h
      obtain ⟨value, hvalue, hmidkey⟩ := change_apply hkey hmid
      rw [ih hrest hchanges, requested, hmidkey]
      by_cases hsame : key = changed
      · rw [hlater (congrArg some hsame), if_pos hsame, if_pos (congrArg some hsame)]
        subst hsame
        simp only [Option.join_none, Option.join_some, hvalue]
      · rw [if_neg hsame, if_neg fun heq => hsame (Option.some.inj heq)]
    · rw [ih hrest (hskip edit extras ▸ h), requested]
      by_cases hsame : some key = extra.1
      · have hvalue : extra.2 = none := hnone.resolve_left (hsame ▸ nofun)
        rw [hlater hsame, if_pos hsame, hvalue]
        rfl
      · rw [if_neg hsame]

/-- A change that makes the additional keys visible, or says so itself. -/
theorem change_visible {edit edit' : SharedPreferences} (hkey : key ≠ additionalKbdVisible.key)
    (h : change device edit key newValue = .ok edit') :
    edit' additionalKbdVisible.key =
      if key = showAdditionalKbd.key ∧ newValue = text "true" then some (.boolean true)
      else edit additionalKbdVisible.key := by
  obtain ⟨value, -, rfl⟩ := change_eq h
  split
  case isTrue => rw [SharedPreferences.put_apply, if_pos rfl]
  case isFalse => rw [SharedPreferences.put_apply, if_neg hkey.symm]

/-- The visibility after extras that say nothing about it. -/
theorem changes_visible {extras : List (Option JString × Option JString)}
    {edit edit' : SharedPreferences}
    (habsent : ∀ newValue, (some additionalKbdVisible.key, some newValue) ∉ extras)
    (h : changes device edit extras = .ok edit') :
    edit' additionalKbdVisible.key =
      if (some showAdditionalKbd.key, some (text "true")) ∈ extras then some (.boolean true)
      else edit additionalKbdVisible.key := by
  induction extras generalizing edit with
  | nil =>
    obtain rfl := Except.ok.inj h
    rfl
  | cons extra extras ih =>
    have hrest : ∀ newValue,
        (some additionalKbdVisible.key, some newValue) ∉ extras := fun newValue hmem =>
      habsent newValue (List.mem_cons_of_mem extra hmem)
    rcases extra_cases device extra with ⟨changed, changedTo, rfl⟩ | ⟨hnone, hskip⟩
    · have hhead : changed ≠ additionalKbdVisible.key := by
        rintro rfl
        exact habsent changedTo List.mem_cons_self
      obtain ⟨mid, hmid, hchanges⟩ := changes_cons_ok h
      rw [ih hrest hchanges, change_visible hhead hmid]
      by_cases hshown : changed = showAdditionalKbd.key ∧ changedTo = text "true"
      · rw [if_pos hshown, ite_self, if_pos (hshown.1 ▸ hshown.2 ▸ List.mem_cons_self)]
      · have hother :
            (some showAdditionalKbd.key, some (text "true")) ≠
              (some changed, some changedTo) := fun heq =>
          hshown (by simpa [eq_comm] using heq)
        rw [if_neg hshown, if_congr (List.mem_cons.trans (or_iff_right hother)) rfl rfl]
    · have hother : (some showAdditionalKbd.key, some (text "true")) ≠ extra := by
        rintro rfl
        exact hnone.elim nofun nofun
      rw [ih hrest (hskip edit extras ▸ h),
        if_congr (List.mem_cons.trans (or_iff_right hother)) rfl rfl]

/-- Extras are handled one after the other. -/
theorem changes_append_ok {before after : List (Option JString × Option JString)}
    {edit edit' : SharedPreferences}
    (h : changes device edit (before ++ after) = .ok edit') :
    ∃ mid, changes device edit before = .ok mid ∧ changes device mid after = .ok edit' := by
  induction before generalizing edit with
  | nil => exact ⟨edit, rfl, h⟩
  | cons extra before ih =>
    rcases extra_cases device extra with ⟨changed, changedTo, rfl⟩ | ⟨-, hskip⟩
    · obtain ⟨next, hnext, hrest⟩ := changes_cons_ok h
      obtain ⟨mid, hmid, hafter⟩ := ih hrest
      refine ⟨mid, ?_, hafter⟩
      rw [changes, hnext]
      exact hmid
    · rw [List.cons_append, hskip] at h
      rw [hskip]
      exact ih h

/-- The visibility after a loop over extras that say something about it. -/
theorem changes_visible_of_get {extras : LinkedMap (Option JString) (Option JString)}
    {edit edit' : SharedPreferences}
    (hvisible : extras.get (some additionalKbdVisible.key) = some (some newValue))
    (h : changes device edit extras.entries = .ok edit') :
    edit' additionalKbdVisible.key =
      some (.boolean (newValue = text "true" ∨ ShownAfter extras)) := by
  obtain ⟨before, after, hentries⟩ := List.append_of_mem (extras.mem_of_get hvisible)
  have hnodup := extras.nodup
  rw [hentries, List.map_append, List.map_cons, List.nodup_append] at hnodup
  obtain ⟨-, hlater, hbefore⟩ := hnodup
  have hdrop : extras.entries.dropWhile (fun extra => extra.1 ≠ some additionalKbdVisible.key) =
      (some additionalKbdVisible.key, some newValue) :: after := by
    rw [hentries, List.dropWhile_append_of_pos fun extra hmem => ?_,
      List.dropWhile_cons_of_neg (by simp)]
    exact decide_eq_true (hbefore extra.1 (List.mem_map_of_mem hmem) _ List.mem_cons_self)
  rw [hentries] at h
  obtain ⟨mid, -, hmid⟩ := changes_append_ok h
  obtain ⟨next, hnext, hafter⟩ := changes_cons_ok hmid
  obtain ⟨value, hvalue, hput⟩ := change_eq hnext
  obtain rfl : PrefValue.boolean (newValue = text "true") = value := Except.ok.inj hvalue
  rw [if_neg (by simp)] at hput
  have hshown : ShownAfter extras ↔ (some showAdditionalKbd.key, some (text "true")) ∈ after := by
    rw [ShownAfter, hdrop, List.mem_cons, or_iff_right (by simp)]
  have habsent : ∀ newValue, (some additionalKbdVisible.key, some newValue) ∉ after := fun _ hmem =>
    (List.nodup_cons.mp hlater).1 (List.mem_map.mpr ⟨_, hmem, rfl⟩)
  rw [changes_visible habsent hafter, hput, SharedPreferences.put_apply, if_pos rfl]
  by_cases hlast : ShownAfter extras
  · rw [if_pos (hshown.mp hlast)]
    simp only [hlast, or_true, decide_true]
  · rw [if_neg fun hmem => hlast (hshown.mpr hmem)]
    simp only [hlast, or_false]

/-- The loop ends with a store exactly if every key with a string can be changed. -/
theorem exists_changes_iff {extras : List (Option JString × Option JString)}
    {edit : SharedPreferences} :
    (∃ edit', changes device edit extras = .ok edit') ↔
      ∀ key newValue, (some key, some newValue) ∈ extras →
        ∃ value, newPreference device key newValue = .ok value := by
  induction extras generalizing edit with
  | nil => exact ⟨fun _ key newValue hmem => absurd hmem List.not_mem_nil, fun _ => ⟨edit, rfl⟩⟩
  | cons extra extras ih =>
    rcases extra_cases device extra with ⟨changed, changedTo, rfl⟩ | ⟨hnone, hskip⟩
    · constructor
      · rintro ⟨edit', h⟩ key newValue hmem
        obtain ⟨mid, hmid, hchanges⟩ := changes_cons_ok h
        rcases List.mem_cons.mp hmem with heq | hin
        · obtain ⟨rfl, rfl⟩ : key = changed ∧ newValue = changedTo := by simpa using heq
          obtain ⟨value, hvalue, -⟩ := change_eq hmid
          exact ⟨value, hvalue⟩
        · exact ih.mp ⟨edit', hchanges⟩ key newValue hin
      · intro h
        obtain ⟨value, hvalue⟩ := h changed changedTo List.mem_cons_self
        rw [changes, change, hvalue]
        exact ih.mpr fun key newValue hin => h key newValue (List.mem_cons_of_mem _ hin)
    · rw [exists_congr fun edit' => by rw [hskip edit extras], ih]
      refine forall_congr' fun key => forall_congr' fun newValue => ?_
      have hne : (some key, some newValue) ≠ extra := by
        rintro rfl
        exact hnone.elim nofun nofun
      rw [List.mem_cons, or_iff_right hne]

/-- **An accepted request** stores what it asks for, and its answer is a success. -/
theorem onReceive_of_accepts (builtIn p : SharedPreferences)
    {extras : LinkedMap (Option JString) (Option JString)} (h : Accepts device extras) :
    ∃ edit, onReceive device builtIn p extras = (⟨0, 2, text "Done"⟩, edit) ∧
      (WellTyped p → WellTyped edit) ∧
      ∀ key, key ≠ additionalKbdVisible.key → edit key = requested device p extras key := by
  obtain ⟨hlist, hkeys⟩ := h
  obtain ⟨edit, hedit⟩ :=
    exists_changes_iff.mpr fun key newValue hmem => hkeys key newValue (extras.get_of_mem hmem)
  refine ⟨edit, ?_, fun hwell => wellTyped_changes hwell hedit,
    fun key hkey => changes_apply extras.nodup hkey hedit⟩
  rw [onReceive, hlist, hedit]
  rfl

/-- The visibility of the additional keys after an accepted request that says something about it. -/
theorem onReceive_visible {extras : LinkedMap (Option JString) (Option JString)}
    (h : Accepts device extras)
    (hvisible : extras.get (some additionalKbdVisible.key) = some (some newValue)) :
    (onReceive device builtIn p extras).2 additionalKbdVisible.key =
      some (.boolean (newValue = text "true" ∨ ShownAfter extras)) := by
  obtain ⟨hlist, hkeys⟩ := h
  obtain ⟨edit, hedit⟩ :=
    exists_changes_iff.mpr fun key newValue hmem => hkeys key newValue (extras.get_of_mem hmem)
  rw [onReceive, hlist, hedit]
  exact changes_visible_of_get hvisible hedit

/-- A request that is not accepted stores nothing. -/
theorem onReceive_of_not_accepts {extras : LinkedMap (Option JString) (Option JString)}
    (h : ¬Accepts device extras) :
    (onReceive device builtIn p extras).2 = p := by
  unfold onReceive
  split
  case isTrue =>
    split
    · rfl
    · rfl
  case isFalse hlist =>
    have hnone : (extras.get (some (text "list"))).join = none := by simpa using hlist
    split
    case h_1 edit hedit =>
      refine absurd ⟨hnone, fun key newValue hget => ?_⟩ h
      exact exists_changes_iff.mp ⟨edit, hedit⟩ key newValue (extras.mem_of_get hget)
    case h_2 => rfl

end Receiver

end WinEmulator.X11.LoriePreferences
