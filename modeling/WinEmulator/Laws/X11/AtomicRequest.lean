import WinEmulator.Laws.X11.PreferenceList

/-!
# A request is stored as a whole

A request to change preferences is answered as a failure and stores nothing, or it is done and
stores each value it gives. One that asks for the list stores nothing, whatever values it gives.
-/

set_option autoImplicit false

namespace WinEmulator.X11.LoriePreferences

open WinEmulator.Lib
open WinEmulator.Lib.JavaString
open Receiver (Extras)

/-- The value that a string is for a preference, if it is one. -/
def Preference.parse : Preference → JString → Option PrefValue
  | .string _ _, s => some (.string s)
  | .int _ _, s => (parseInt s).map .int
  | .boolean _ _, s => some (.boolean (s = text "true"))
  | .list _ _ entries values, s =>
    if s ∈ entries.strings then values.strings[entries.strings.idxOf s]?.map .string
    else if s ∈ values.strings then some (.string s) else none

/-- The request turns the additional keys on, which makes them visible. -/
def TurnsOn (extras : Extras) : Prop :=
  extras.get (some showAdditionalKbd.key) = some (some (text "true"))

/-- The preferences `p'` are `p` with all that a request gives. -/
structure Stored (extras : Extras) (p p' : PrefsProto) : Prop where
  given : ∀ key newValue, extras.get (some key) = some (some newValue) →
    (key = additionalKbdVisible.key → ¬TurnsOn extras) →
      ∃ pref ∈ keys, pref.key = key ∧ ∃ value, pref.parse newValue = some value ∧
        p'.get key = some value
  unchanged : ∀ key, (extras.get (some key)).join = none →
    (key = additionalKbdVisible.key → ¬TurnsOn extras) →
    p'.get key = p.get key
  visible : TurnsOn extras → p'.get additionalKbdVisible.key = some (.boolean true) ∨
    ∃ newValue, extras.get (some additionalKbdVisible.key) = some (some newValue) ∧
      p'.get additionalKbdVisible.key = additionalKbdVisible.parse newValue
  other : ∀ secondary, secondary ≠ p.isSecondaryDisplayPreferences →
    p'.stores.get secondary = p.stores.get secondary
  isSecondaryDisplayPreferences : p'.isSecondaryDisplayPreferences = p.isSecondaryDisplayPreferences

/-- A request is a failure that stores nothing, or a success that stores everything. -/
def Atomic (device : Device) (extras : Extras) (p : PrefsProto) : Prop :=
  ((p.onReceive device extras).1.status = 1 ∧ (p.onReceive device extras).2 = p) ∨
    ((p.onReceive device extras).1.status = 0 ∧ Stored extras p (p.onReceive device extras).2)

variable {p : PrefsProto} {key newValue : JString} {device : Device} {value : PrefValue}
  {extras : Extras}

theorem PrefsProto.put_get (p : PrefsProto) :
    { p with stores := p.stores.put p.isSecondaryDisplayPreferences p.get } = p := by
  obtain ⟨stores, secondary, external⟩ := p
  cases secondary with
  | false => rfl
  | true => rfl

/-- What a preference takes is what the string says, by its place or by itself. -/
theorem Preference.Takes.parse {pref : Preference} (h : pref.Takes newValue value) :
    pref.parse newValue = some value := by
  cases pref with
  | string pkey defValue => exact congrArg some (Eq.symm h)
  | boolean pkey defValue => exact congrArg some (Eq.symm h)
  | int pkey defValue =>
    obtain ⟨n, hn, rfl⟩ := h
    exact congrArg (Option.map PrefValue.int) hn
  | list pkey defValue entries values =>
    obtain ⟨index, stored, hindex, hstored, rfl⟩ := h
    rw [Preference.parse]
    unfold Receiver.indexOf at hindex
    split at hindex
    case isTrue hentry =>
      obtain rfl := Option.some.inj hindex
      rw [if_pos hentry, hstored, Option.map_some]
    case isFalse hentry =>
      rw [if_neg hentry]
      split at hindex
      case isTrue hvalue =>
        -- the value is found by itself
        obtain rfl := Option.some.inj hindex
        rw [if_pos hvalue.2]
        rw [List.getElem?_idxOf hvalue.2] at hstored
        exact congrArg (fun stored => some (PrefValue.string stored)) (Option.some.inj hstored)
      case isFalse => cases hindex

namespace Receiver

/-- What a new value is stored as is what it says for the preference. -/
theorem newPreference_parse (h : newPreference device key newValue = .ok value) :
    ∃ pref ∈ keys, pref.key = key ∧ pref.parse newValue = some value := by
  obtain ⟨pref, hpref, hkey, htakes⟩ := newPreference_takes h
  exact ⟨pref, hpref, hkey, htakes.parse⟩

/-- The visibility of the additional keys after a request that says nothing about it. -/
theorem onReceive_visible_absent (builtIn preferences : SharedPreferences)
    (h : Accepts device extras)
    (habsent : (extras.get (some additionalKbdVisible.key)).join = none) :
    (onReceive device builtIn preferences extras).2 additionalKbdVisible.key =
      if (some showAdditionalKbd.key, some (text "true")) ∈ extras.entries then some (.boolean true)
      else preferences additionalKbdVisible.key := by
  obtain ⟨hlist, hkeys⟩ := h
  obtain ⟨edit, hedit⟩ :=
    exists_changes_iff.mpr fun key newValue hmem => hkeys key newValue (extras.get_of_mem hmem)
  rw [onReceive, hlist, hedit]
  apply changes_visible _ hedit
  intro newValue hmem
  rw [extras.get_of_mem hmem] at habsent
  cases habsent

/-- A request turns the keyboard on exactly when it says so. -/
theorem turnsOn_iff_mem :
    TurnsOn extras ↔ (some showAdditionalKbd.key, some (text "true")) ∈ extras.entries :=
  ⟨extras.mem_of_get, extras.get_of_mem⟩

theorem ShownAfter.turnsOn (h : ShownAfter extras) : TurnsOn extras :=
  turnsOn_iff_mem.mpr ((List.dropWhile_suffix _).subset h)

/-- An answer to a request that is not for a list is a failure, unless it is accepted. -/
theorem status_of_not_accepts (builtIn preferences : SharedPreferences)
    (hlist : (extras.get (some (text "list"))).join = none) (h : ¬Accepts device extras) :
    (onReceive device builtIn preferences extras).1.status = 1 := by
  rw [onReceive, hlist, Option.isSome_none, if_neg Bool.false_ne_true]
  cases hchanges : changes device preferences extras.entries with
  | ok edit =>
    refine absurd ⟨hlist, fun key newValue hget => ?_⟩ h
    exact exists_changes_iff.mp ⟨edit, hchanges⟩ key newValue (extras.mem_of_get hget)
  | error response => exact status_of_changes hchanges

end Receiver

namespace PrefsProto

/-- A request that is not accepted changes nothing. -/
theorem onReceive_of_not_accepts (h : ¬Receiver.Accepts device extras) :
    (p.onReceive device extras).2 = p := by
  show { p with stores := p.stores.put _ (Receiver.onReceive device _ p.get extras).2 } = p
  rw [Receiver.onReceive_of_not_accepts h, put_get]

/-- An accepted request stores all that it gives. -/
theorem stored_onReceive (h : Receiver.Accepts device extras) :
    Stored extras p (p.onReceive device extras).2 where
  given := by
    intro key newValue hget hvisible
    rw [get_onReceive]
    obtain ⟨value, hvalue⟩ := h.2 key newValue hget
    obtain ⟨pref, hpref, hkey, hparse⟩ := Receiver.newPreference_parse hvalue
    refine ⟨pref, hpref, hkey, value, hparse, ?_⟩
    by_cases heq : key = additionalKbdVisible.key
    · subst heq
      obtain rfl := Receiver.newPreference_boolean mem_additionalKbdVisible hvalue
      rw [Receiver.onReceive_visible h hget]
      have hafter : ¬Receiver.ShownAfter extras := fun hafter => hvisible rfl hafter.turnsOn
      simp only [hafter, or_false]
    · obtain ⟨edit, hedit, -, hkeys⟩ :=
        Receiver.onReceive_of_accepts p.stores.builtInDisplayPreferences p.get h
      rw [hedit]
      refine (hkeys key heq).trans ?_
      rw [Receiver.requested, hget, Option.join_some]
      simp only [hvalue]
  unchanged := by
    intro key hget hvisible
    rw [get_onReceive]
    by_cases heq : key = additionalKbdVisible.key
    · subst heq
      rw [Receiver.onReceive_visible_absent _ _ h hget,
        if_neg fun hmem => hvisible rfl (Receiver.turnsOn_iff_mem.mpr hmem)]
    · exact Receiver.onReceive_absent _ _ h heq hget
  visible := by
    intro hon
    rw [get_onReceive]
    cases hget : (extras.get (some additionalKbdVisible.key)).join with
    | none =>
      refine .inl ?_
      rw [Receiver.onReceive_visible_absent _ _ h hget, if_pos (Receiver.turnsOn_iff_mem.mp hon)]
    | some newValue =>
      have hgiven := Option.join_eq_some_iff.mp hget
      rw [Receiver.onReceive_visible h hgiven]
      by_cases hafter : Receiver.ShownAfter extras
      · exact .inl (by simp only [hafter, or_true, decide_true])
      · refine .inr ⟨newValue, hgiven, ?_⟩
        simp only [hafter, or_false]
        rfl
  other := by
    intro secondary hne
    rw [onReceive, Stores.get_put, if_neg hne]
  isSecondaryDisplayPreferences := rfl

end PrefsProto

/-- **A request is stored as a whole or not at all**, and one that asks for the list is not. -/
theorem atomic_onReceive (device : Device) (extras : Extras) (p : PrefsProto) :
    if (extras.get (some (text "list"))).join.isSome then (p.onReceive device extras).2 = p
    else Atomic device extras p := by
  split
  case isTrue hlist =>
    apply PrefsProto.onReceive_of_not_accepts
    rintro ⟨hnone, -⟩
    rw [hnone] at hlist
    cases hlist
  case isFalse hlist =>
    have hnone : (extras.get (some (text "list"))).join = none := by simpa using hlist
    by_cases haccepts : Receiver.Accepts device extras
    · exact .inr
        ⟨congrArg Response.status ((done_iff_accepts hnone).mpr haccepts),
        PrefsProto.stored_onReceive haccepts⟩
    · exact .inl
        ⟨Receiver.status_of_not_accepts _ _ hnone haccepts,
        PrefsProto.onReceive_of_not_accepts haccepts⟩

/-- The request of a command line that asks for the list and gives a scale. -/
def listAndScale : Extras :=
  ((LinkedMap.empty.set none (some none)).set (some (text "list")) (some (some []))).set
    (some displayScale.key)
    (some (some (text "50")))

/-- It is a success that stores no scale. -/
theorem not_atomic_list :
    Receiver.main none [text "list", text "displayScale:50"] = .ok listAndScale ∧
      ¬Atomic phone listAndScale (withExtraKeys "[['ESC']]") := by
  refine ⟨by rfl, ?_⟩
  have hlist : (listAndScale.get (some (text "list"))).join = some [] := by decide
  have hscale : listAndScale.get (some displayScale.key) = some (some (text "50")) := by decide
  rintro (⟨hstatus, -⟩ | ⟨-, hstored⟩)
  · have hread := exists_listed (readable_withExtraKeys "[['ESC']]")
    rw [PrefsProto.onReceive, Receiver.onReceive, hlist, Option.isSome_some, if_pos rfl,
      list_eq hread] at hstatus
    cases hstatus
  · obtain ⟨pref, -, -, value, -, hvalue⟩ :=
      hstored.given _ _ hscale fun heq => absurd heq (by decide)
    have hsame :
        ((withExtraKeys "[['ESC']]").onReceive phone listAndScale).2 =
          withExtraKeys "[['ESC']]" := by
      apply PrefsProto.onReceive_of_not_accepts
      rintro ⟨hnone, -⟩
      rw [hlist] at hnone
      cases hnone
    rw [hsame] at hvalue
    have habsent : (withExtraKeys "[['ESC']]").get displayScale.key = none := by decide
    rw [habsent] at hvalue
    cases hvalue

end WinEmulator.X11.LoriePreferences
