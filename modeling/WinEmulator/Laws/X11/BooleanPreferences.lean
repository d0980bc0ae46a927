import WinEmulator.Laws.X11.ChangePreference

/-!
# The writers of a boolean preference and its readers

A boolean is written by its preference, by the data store of the settings screen and by a request,
and read by the first two. The preference that says whether the displays have separate stores lives
in the built-in one, and the store in use depends on it. Two of the writers and both readers know
this; a request writes it as any other key, to the store in use, and chooses no store again.
-/

set_option autoImplicit false

namespace WinEmulator.X11.LoriePreferences

open WinEmulator.Lib
open WinEmulator.Lib.JavaString

inductive Writer
  | put
  | putBoolean
  | onReceive (device : Device) (extras : LinkedMap (Option JString) (Option JString))

namespace Writer

def write (key : JString) (v : Bool) (p : PrefsProto) : Writer → Except Thrown PrefsProto
  | .put => BooleanPreference.put p key v
  | .putBoolean => p.putBoolean key v
  | .onReceive device extras => .ok (p.onReceive device extras).2

/-- What is written is this value, for a request if it is accepted and has a string for the key that
is read as it. -/
def Writes (key : JString) (v : Bool) : Writer → Prop
  | .put | .putBoolean => True
  | .onReceive device extras =>
    Receiver.Accepts device extras ∧
      ∃ newValue, extras.get (some key) = some (some newValue) ∧ v = decide (newValue = text "true")

/-- The request does not make the additional keys visible over what it says of them. On an external
display it does not turn the separate stores on, which are then not in use, and if it is about them
it leaves them as they are. -/
def Keeps (key : JString) (v : Bool) (p : PrefsProto) : Writer → Prop
  | .put | .putBoolean => True
  | .onReceive _ extras =>
    (key = additionalKbdVisible.key → v = false → ¬Receiver.ShownAfter extras) ∧
      (p.isExternalDisplay = true →
        (extras.get (some storeSecondaryDisplayPreferencesSeparately.key) =
          some (some (text "true")) →
          p.isSecondaryDisplayPreferences = true) ∧
        (key = storeSecondaryDisplayPreferencesSeparately.key →
          v = p.isSecondaryDisplayPreferences))

end Writer

/-- Both readers return the value, and the store in use is the one that would be chosen. -/
def PrefsProto.Agrees (key : JString) (defValue v : Bool) (p : PrefsProto) : Prop :=
  BooleanPreference.get p key defValue = .ok v ∧ (∀ d, p.getBoolean key d = .ok v) ∧
    p.recheck = .ok p

variable {p q : PrefsProto} {key : JString} {defValue v : Bool} {device : Device}
  {extras : LinkedMap (Option JString) (Option JString)} {newValue : JString}

@[simp] theorem key_storeSecondaryDisplayPreferencesSeparately :
    storeSecondaryDisplayPreferencesSeparately.key =
      text "storeSecondaryDisplayPreferencesSeparately" := rfl

theorem mem_storeSecondaryDisplayPreferencesSeparately :
    .boolean storeSecondaryDisplayPreferencesSeparately.key false ∈ keys :=
  show storeSecondaryDisplayPreferencesSeparately ∈ keys by simp [keys]

/-! ## Stores -/

theorem SharedPreferences.getBoolean_of_some {preferences : SharedPreferences}
    (h : preferences key = some (.boolean v))
    (d : Bool) : preferences.getBoolean key d = .ok v := by
  rw [SharedPreferences.getBoolean, h]

theorem SharedPreferences.getBoolean_congr {preferences other : SharedPreferences}
    (h : preferences key = other key) (d : Bool) :
    preferences.getBoolean key d = other.getBoolean key d := by
  rw [SharedPreferences.getBoolean, SharedPreferences.getBoolean, h]

/-- What is not the default is stored. -/
theorem SharedPreferences.getBoolean_of_ne_default {preferences : SharedPreferences} {d : Bool}
    (h : preferences.getBoolean key d = .ok v) (hne : v ≠ d) (other : Bool) :
    preferences.getBoolean key other = .ok v := by
  unfold SharedPreferences.getBoolean at h ⊢
  split at h
  case h_1 => exact absurd (Except.ok.inj h).symm hne
  case h_2 => exact h
  case h_3 => cases h

namespace PrefsProto

/-- A view whose store is the one it should be is left by the recheck. -/
theorem recheck_eq_self_iff : p.recheck = .ok p ↔
    ∃ separately,
      p.stores.builtInDisplayPreferences.getBoolean storeSecondaryDisplayPreferencesSeparately.key
        false =
        .ok separately ∧ p.isSecondaryDisplayPreferences = (separately && p.isExternalDisplay) := by
  unfold recheck recheckStoringSecondaryDisplayPreferences
  cases hseparately :
      p.stores.builtInDisplayPreferences.getBoolean storeSecondaryDisplayPreferencesSeparately.key
        false with
  | error thrown => exact iff_of_false nofun fun ⟨_, heq, _⟩ => nomatch heq
  | ok separately =>
    obtain ⟨stores, secondary, external⟩ := p
    simp [Except.map, eq_comm]

/-- The choice depends on one key of the built-in store. -/
theorem recheck_eq_self_congr (q p : PrefsProto)
    (hexternal : q.isExternalDisplay = p.isExternalDisplay)
    (hsecondary : q.isSecondaryDisplayPreferences = p.isSecondaryDisplayPreferences)
    (hstored : q.stores.builtInDisplayPreferences storeSecondaryDisplayPreferencesSeparately.key =
      p.stores.builtInDisplayPreferences storeSecondaryDisplayPreferencesSeparately.key) :
    q.recheck = .ok q ↔ p.recheck = .ok p := by
  rw [recheck_eq_self_iff, recheck_eq_self_iff, hexternal, hsecondary,
    SharedPreferences.getBoolean_congr hstored]

/-- Once more chosen, it is chosen. -/
theorem recheck_recheck (h : p.recheck = .ok q) : q.recheck = .ok q := by
  unfold recheck recheckStoringSecondaryDisplayPreferences at h
  cases hseparately :
      p.stores.builtInDisplayPreferences.getBoolean storeSecondaryDisplayPreferencesSeparately.key
        false with
  | error thrown =>
    rw [hseparately] at h
    cases h
  | ok separately =>
    rw [hseparately] at h
    obtain rfl := Except.ok.inj h
    exact recheck_eq_self_iff.mpr ⟨separately, hseparately, rfl⟩

/-- With a boolean stored, the recheck succeeds. -/
theorem exists_recheck
    (h : p.stores.builtInDisplayPreferences storeSecondaryDisplayPreferencesSeparately.key =
    some (.boolean v)) :
    p.recheck = .ok { p with isSecondaryDisplayPreferences := v && p.isExternalDisplay } := by
  rw [recheck, recheckStoringSecondaryDisplayPreferences, SharedPreferences.getBoolean_of_some h]
  rfl

theorem get_put : (p.put key v).get = p.get.put key (.boolean v) := by
  rw [put, get, Stores.get_put, if_pos rfl]

theorem builtIn_put_of_ne {other : JString} (h : other ≠ key) :
    (p.put key v).stores.builtInDisplayPreferences other =
      p.stores.builtInDisplayPreferences other := by
  show (p.stores.put p.isSecondaryDisplayPreferences (p.get.put key (.boolean v))).get false other =
    p.stores.get false other
  rw [Stores.get_put]
  split
  case isTrue hbuiltIn => rw [SharedPreferences.put_apply, if_neg h, get, ← hbuiltIn]
  case isFalse => rfl

theorem builtIn_putBuiltIn :
    (p.putBuiltIn key v).stores.builtInDisplayPreferences key = some (.boolean v) := by
  show (p.stores.put false (p.stores.builtInDisplayPreferences.put key (.boolean v))).get
    false key = _
  rw [Stores.get_put, if_pos rfl, SharedPreferences.put_apply, if_pos rfl]

/-- Writing what the built-in store has, to whichever store is in use, leaves it there. -/
theorem builtIn_put_of_stored (h : p.stores.builtInDisplayPreferences key = some (.boolean v)) :
    (p.put key v).stores.builtInDisplayPreferences key = some (.boolean v) := by
  show (p.stores.put p.isSecondaryDisplayPreferences (p.get.put key (.boolean v))).get false key = _
  rw [Stores.get_put]
  split
  case isTrue => rw [SharedPreferences.put_apply, if_pos rfl]
  case isFalse => exact h

/-- A flag of the built-in store reads as it is stored. -/
theorem agrees_of_builtIn
    (h : p.stores.builtInDisplayPreferences storeSecondaryDisplayPreferencesSeparately.key =
      some (.boolean v))
    (hp : p.recheck = .ok p) :
    p.Agrees storeSecondaryDisplayPreferencesSeparately.key defValue v := by
  refine ⟨?_, fun d => ?_, hp⟩
  · rw [BooleanPreference.get, if_pos rfl, SharedPreferences.getBoolean_of_some h]
  · rw [getBoolean, if_pos rfl, SharedPreferences.getBoolean_of_some h]

/-- Any other flag reads as it was put. -/
theorem agrees_put (hkey : key ≠ storeSecondaryDisplayPreferencesSeparately.key)
    (hp : p.recheck = .ok p) :
    (p.put key v).Agrees key defValue v := by
  have hstored : (p.put key v).get key = some (.boolean v) := by
    rw [get_put, SharedPreferences.put_apply, if_pos rfl]
  have hrecheck : (p.put key v).recheck = .ok (p.put key v) :=
    (recheck_eq_self_congr (p.put key v) p rfl rfl (builtIn_put_of_ne hkey.symm)).mpr hp
  refine ⟨?_, fun d => ?_, hrecheck⟩
  · rw [BooleanPreference.get, if_neg hkey, SharedPreferences.getBoolean_of_some hstored]
  · rw [getBoolean, if_neg hkey, SharedPreferences.getBoolean_of_some hstored]

/-- **The data store of the settings screen** agrees with the readers. -/
theorem agrees_putBoolean (hp : p.recheck = .ok p) :
    ∃ p', p.putBoolean key v = .ok p' ∧ p'.Agrees key defValue v := by
  unfold putBoolean
  split
  case isTrue hkey =>
    subst hkey
    have hstored :
        (p.putBuiltIn storeSecondaryDisplayPreferencesSeparately.key
          v).stores.builtInDisplayPreferences
      storeSecondaryDisplayPreferencesSeparately.key = some (.boolean v) := builtIn_putBuiltIn
    have hrecheck := exists_recheck hstored
    exact ⟨_, hrecheck, agrees_of_builtIn hstored (recheck_recheck hrecheck)⟩
  case isFalse hkey => exact ⟨p.put key v, rfl, agrees_put hkey hp⟩

end PrefsProto

/-- **A preference** agrees with the readers. -/
theorem BooleanPreference.agrees_put (hp : p.recheck = .ok p) :
    ∃ p', BooleanPreference.put p key v = .ok p' ∧ p'.Agrees key defValue v := by
  unfold BooleanPreference.put
  split
  case isTrue hkey =>
    subst hkey
    have hstored :
        (p.putBuiltIn storeSecondaryDisplayPreferencesSeparately.key
          v).stores.builtInDisplayPreferences
      storeSecondaryDisplayPreferencesSeparately.key = some (.boolean v) :=
        PrefsProto.builtIn_putBuiltIn
    have hrecheck := PrefsProto.exists_recheck hstored
    generalize hchosen : { p.putBuiltIn storeSecondaryDisplayPreferencesSeparately.key v with
      isSecondaryDisplayPreferences :=
        v && (p.putBuiltIn storeSecondaryDisplayPreferencesSeparately.key v).isExternalDisplay } =
          chosen at hrecheck
    have hkept :
        chosen.stores.builtInDisplayPreferences storeSecondaryDisplayPreferencesSeparately.key =
      some (.boolean v) := hchosen ▸ hstored
    have hput := PrefsProto.builtIn_put_of_stored hkept
    rw [hrecheck]
    refine ⟨_, rfl, PrefsProto.agrees_of_builtIn hput ?_⟩
    exact (PrefsProto.recheck_eq_self_congr (chosen.put _ v) chosen rfl rfl
      (hput.trans hkept.symm)).mpr
      (PrefsProto.recheck_recheck hrecheck)
  case isFalse hkey => exact ⟨p.put key v, rfl, PrefsProto.agrees_put hkey hp⟩

/-! ## Requests -/

namespace Receiver

/-- A new value of a boolean is read as one. -/
theorem newPreference_boolean {value : PrefValue} (hkey : .boolean key defValue ∈ keys)
    (h : newPreference device key newValue = .ok value) :
    value = .boolean (newValue = text "true") :=
  takes_of_newPreference hkey h

/-- What an accepted request stores for a boolean it has a string for. -/
theorem onReceive_boolean (builtIn preferences : SharedPreferences)
    (haccepts : Accepts device extras)
    (hkey : .boolean key defValue ∈ keys) (hget : extras.get (some key) = some (some newValue)) :
    (onReceive device builtIn preferences extras).2 key =
      some (.boolean
        (newValue = text "true" ∨ key = additionalKbdVisible.key ∧ ShownAfter extras)) := by
  by_cases hvisible : key = additionalKbdVisible.key
  · subst hvisible
    rw [onReceive_visible haccepts hget]
    simp only [true_and]
  · obtain ⟨edit, hedit, -, hkeys⟩ := onReceive_of_accepts builtIn preferences haccepts
    obtain ⟨value, hvalue⟩ := haccepts.2 key newValue hget
    obtain rfl := newPreference_boolean hkey hvalue
    rw [hedit]
    refine (hkeys key hvisible).trans ?_
    rw [requested, hget, Option.join_some]
    simp only [hvalue, hvisible, false_and, or_false]

/-- What it leaves as it was. -/
theorem onReceive_absent (builtIn preferences : SharedPreferences)
    (haccepts : Accepts device extras)
    (hvisible : key ≠ additionalKbdVisible.key) (hget : (extras.get (some key)).join = none) :
    (onReceive device builtIn preferences extras).2 key = preferences key := by
  obtain ⟨edit, hedit, -, hkeys⟩ := onReceive_of_accepts builtIn preferences haccepts
  rw [hedit]
  refine (hkeys key hvisible).trans ?_
  rw [requested, hget]

end Receiver

namespace PrefsProto

theorem get_onReceive : (p.onReceive device extras).2.get =
    (Receiver.onReceive device p.stores.builtInDisplayPreferences p.get extras).2 := by
  rw [onReceive, get, Stores.get_put, if_pos rfl]

/-- A request leaves the built-in store alone when the view is of the other one. -/
theorem builtIn_onReceive : (p.onReceive device extras).2.stores.builtInDisplayPreferences =
    if p.isSecondaryDisplayPreferences = true then p.stores.builtInDisplayPreferences
    else (p.onReceive device extras).2.get := by
  show (p.stores.put p.isSecondaryDisplayPreferences _).get false = _
  rw [Stores.get_put]
  cases p.isSecondaryDisplayPreferences
  · exact get_onReceive.symm
  · rfl

/-- A request that does not concern the choice leaves the store in use the one that would be chosen;
with separate stores off, so does every request that does not turn them on for an external
display. -/
theorem recheck_onReceive_iff (haccepts : Receiver.Accepts device extras) (hp : p.recheck = .ok p) :
    (p.onReceive device extras).2.recheck = .ok (p.onReceive device extras).2 ↔
      (p.isExternalDisplay = true →
        extras.get (some storeSecondaryDisplayPreferencesSeparately.key) =
          some (some (text "true")) →
          p.isSecondaryDisplayPreferences = true) := by
  obtain ⟨separately, hseparately, hsecondary⟩ := recheck_eq_self_iff.mp hp
  by_cases huse : p.isSecondaryDisplayPreferences = true
  · refine iff_of_true ?_ fun _ _ => huse
    refine (recheck_eq_self_congr (p.onReceive device extras).2 p rfl rfl ?_).mpr hp
    rw [builtIn_onReceive, if_pos huse]
  · have hbuiltIn : (p.onReceive device extras).2.stores.builtInDisplayPreferences =
        (Receiver.onReceive device p.stores.builtInDisplayPreferences p.get extras).2 := by
      rw [builtIn_onReceive, if_neg huse, get_onReceive]
    have hget : p.get = p.stores.builtInDisplayPreferences := if_neg huse
    rw [recheck_eq_self_iff, hbuiltIn]
    cases hflag : (extras.get (some storeSecondaryDisplayPreferencesSeparately.key)).join with
    | none =>
      have habsent :=
        Receiver.onReceive_absent p.stores.builtInDisplayPreferences p.get haccepts (by simp) hflag
      rw [SharedPreferences.getBoolean_congr (habsent.trans (congrFun hget _))]
      refine iff_of_true ⟨separately, hseparately, hsecondary⟩ fun _ htrue => ?_
      rw [htrue] at hflag
      cases hflag
    | some newFlag =>
      have hextra :
          extras.get (some storeSecondaryDisplayPreferencesSeparately.key) = some (some newFlag) :=
        Option.join_eq_some_iff.mp hflag
      have hstored := Receiver.onReceive_boolean p.stores.builtInDisplayPreferences p.get haccepts
        mem_storeSecondaryDisplayPreferencesSeparately hextra
      rw [SharedPreferences.getBoolean_of_some hstored, hextra]
      have huse' : p.isSecondaryDisplayPreferences = false := by simpa using huse
      show (∃ separately, _ = Except.ok separately ∧
        p.isSecondaryDisplayPreferences = (separately && p.isExternalDisplay)) ↔ _
      simp only [Except.ok.injEq, exists_eq_left', huse', Option.some.injEq, Bool.false_eq_true,
        imp_false]
      cases p.isExternalDisplay
      · simp
      · simp

/-- The flag of the built-in store is not written while the secondary one is in use. -/
theorem getBoolean_onReceive_flag (device : Device)
    (extras : LinkedMap (Option JString) (Option JString)) (hp : p.recheck = .ok p)
    (hsecondary : p.isSecondaryDisplayPreferences = true)
    (d : Bool) :
    (p.onReceive device extras).2.stores.builtInDisplayPreferences.getBoolean
      storeSecondaryDisplayPreferencesSeparately.key d = .ok true := by
  obtain ⟨separately, hseparately, hchosen⟩ := recheck_eq_self_iff.mp hp
  have hon : separately = true := by
    rw [hsecondary] at hchosen
    exact (Bool.and_eq_true_iff.mp hchosen.symm).1
  subst hon
  rw [builtIn_onReceive, if_pos hsecondary]
  exact SharedPreferences.getBoolean_of_ne_default hseparately nofun d

/-- What the readers return of a key after an accepted request that has a string for it. -/
theorem getBoolean_onReceive (haccepts : Receiver.Accepts device extras) (hp : p.recheck = .ok p)
    (hkey : .boolean key defValue ∈ keys) (hget : extras.get (some key) = some (some newValue))
    (d : Bool) :
    (p.onReceive device extras).2.getBoolean key d =
      .ok (if key = storeSecondaryDisplayPreferencesSeparately.key ∧
        p.isSecondaryDisplayPreferences = true then true
        else newValue = text "true" ∨ key = additionalKbdVisible.key ∧
          Receiver.ShownAfter extras) := by
  have hstored : (p.onReceive device extras).2.get key =
      some (.boolean
          (newValue = text "true" ∨ key = additionalKbdVisible.key ∧
          Receiver.ShownAfter extras)) := by
    rw [get_onReceive]
    exact Receiver.onReceive_boolean _ _ haccepts hkey hget
  unfold getBoolean
  by_cases hflag : key = storeSecondaryDisplayPreferencesSeparately.key
  · rw [if_pos hflag]
    by_cases hsecondary : p.isSecondaryDisplayPreferences = true
    · rw [if_pos ⟨hflag, hsecondary⟩, hflag]
      exact getBoolean_onReceive_flag device extras hp hsecondary d
    · rw [if_neg fun h => hsecondary h.2, builtIn_onReceive, if_neg hsecondary]
      exact SharedPreferences.getBoolean_of_some hstored d
  · rw [if_neg hflag, if_neg fun h => hflag h.1]
    exact SharedPreferences.getBoolean_of_some hstored d

/-- **A request** agrees with the readers exactly if it keeps what it says. -/
theorem agrees_onReceive_iff (hp : p.recheck = .ok p) (hkey : .boolean key defValue ∈ keys)
    (hwrites : (Writer.onReceive device extras).Writes key v) :
    (p.onReceive device extras).2.Agrees key defValue v ↔
    (Writer.onReceive device extras).Keeps key v p := by
  obtain ⟨haccepts, newValue, hget, hv⟩ := hwrites
  have hread := getBoolean_onReceive haccepts hp hkey hget
  have hget' : BooleanPreference.get (p.onReceive device extras).2 key defValue = _ :=
    hread defValue
  have hexternal : p.isSecondaryDisplayPreferences = true →
      p.isExternalDisplay = true := fun hsecondary => by
    obtain ⟨separately, -, hchosen⟩ := recheck_eq_self_iff.mp hp
    exact (Bool.and_eq_true_iff.mp (hchosen.symm.trans hsecondary)).2
  rw [Agrees, hget', recheck_onReceive_iff haccepts hp]
  simp only [hread, Except.ok.injEq, forall_const, and_self_left, Writer.Keeps]
  by_cases hflag : key = storeSecondaryDisplayPreferencesSeparately.key
  · -- the flag itself: what the request says of it is `v`
    have hvisible : key ≠ additionalKbdVisible.key := by simp [hflag]
    have hstates :
        extras.get (some storeSecondaryDisplayPreferencesSeparately.key) =
          some (some (text "true")) ↔
        v = true := by
      rw [← hflag, hget, hv]
      simp
    rw [hstates]
    simp only [hflag, true_and, false_and, or_false, ← hv, hflag ▸ hvisible, false_implies,
      forall_const]
    cases hsecondary : p.isSecondaryDisplayPreferences with
    | false => simp
    | true => simp [hexternal hsecondary, eq_comm]
  · simp only [hflag, false_and, if_false, false_implies, and_true]
    refine and_congr_left fun _ => ?_
    by_cases hvisible : key = additionalKbdVisible.key
    · simp only [hvisible, true_and, hv, forall_const, decide_eq_decide, decide_eq_false_iff_not]
      constructor
      · exact fun h hnot hshown => hnot (h.mp (.inr hshown))
      · refine fun h => ⟨fun hor => hor.elim id fun hshown => ?_, .inl⟩
        by_contra hnot
        exact h hnot hshown
    · simp only [hvisible, false_and, or_false, hv, false_implies]

end PrefsProto

/-- **What is written is read**, from the store that the flag prescribes, exactly if the writer
keeps it. -/
theorem agrees_iff_keeps (hp : p.recheck = .ok p) (hkey : .boolean key defValue ∈ keys) (w : Writer)
    (hwrites : w.Writes key v) :
    (∃ p', w.write key v p = .ok p' ∧ p'.Agrees key defValue v) ↔ w.Keeps key v p := by
  cases w with
  | put => exact iff_of_true (BooleanPreference.agrees_put hp) trivial
  | putBoolean => exact iff_of_true (PrefsProto.agrees_putBoolean hp) trivial
  | onReceive device extras =>
    rw [← PrefsProto.agrees_onReceive_iff hp hkey hwrites]
    simp [Writer.write]

/-- With separate stores, on an external display. -/
def onSecondary : PrefsProto where
  stores := ⟨SharedPreferences.put (fun _ => none) storeSecondaryDisplayPreferencesSeparately.key
    (.boolean true), fun _ => none⟩
  isSecondaryDisplayPreferences := true
  isExternalDisplay := true

theorem recheck_onSecondary : onSecondary.recheck = .ok onSecondary := by
  refine PrefsProto.recheck_eq_self_iff.mpr ⟨true, ?_, rfl⟩
  exact SharedPreferences.getBoolean_of_some
    (by simp [onSecondary, SharedPreferences.put_apply]) false

/-- The request for one value. -/
def setTo (key : JString) (newValue : String) : LinkedMap (Option JString) (Option JString) :=
  ⟨[(some key, some (text newValue))], List.nodup_singleton _⟩

def phone : Device where
  hostPkgName := text "a.io.github.ewt45.winemulator"
  writeSecureSettings := false
  toString _ := []
  keysValues := keys
  perm := .refl keys

/-- A request for one boolean writes it. -/
theorem writes_setTo (key : JString) (newValue : String) (value : PrefValue)
    (hlist : key ≠ text "list")
    (hvalue : Receiver.newPreference phone key (text newValue) = .ok value) :
    (Writer.onReceive phone (setTo key newValue)).Writes key (text newValue = text "true") := by
  refine ⟨⟨?_, fun other otherValue hget => ?_⟩, text newValue, ?_, rfl⟩
  · rw [setTo, LinkedMap.get_cons, if_neg fun heq => hlist (Option.some.inj heq).symm]
    rfl
  · rw [setTo, LinkedMap.get_cons] at hget
    split at hget
    case isTrue heq =>
      obtain rfl := Option.some.inj heq
      obtain rfl := Option.some.inj (Option.some.inj hget)
      exact ⟨value, hvalue⟩
    case isFalse => cases hget
  · rw [setTo, LinkedMap.get_cons, if_pos rfl]

theorem writes_fullscreen :
    (Writer.onReceive phone (setTo (text "fullscreen") "false")).Writes (text "fullscreen") false :=
  writes_setTo (text "fullscreen") "false" (.boolean false) (by simp) (by decide +kernel)

theorem agrees_iff_keeps_fullscreen :
    (∃ p', (Writer.onReceive phone (setTo (text "fullscreen") "false")).write
      (text "fullscreen") false onSecondary =
        .ok p' ∧ p'.Agrees (text "fullscreen") true false) ↔
      (Writer.onReceive phone (setTo (text "fullscreen") "false")).Keeps
        (text "fullscreen") false onSecondary :=
  agrees_iff_keeps recheck_onSecondary (by simp [keys]) _ writes_fullscreen

theorem turnedOff_not_agrees :
    ¬∀ p : PrefsProto, p.recheck = .ok p → ∀ key defValue, .boolean key defValue ∈ keys →
      ∀ (w : Writer) (v : Bool),
      w.Writes key v → ∃ p', w.write key v p = .ok p' ∧ p'.Agrees key defValue v := by
  intro hall
  have hwrites :=
    writes_setTo storeSecondaryDisplayPreferencesSeparately.key "false" (.boolean false) (by simp)
    (by decide +kernel)
  obtain ⟨p', hwrite, -, hread, -⟩ := hall onSecondary recheck_onSecondary _ _
    mem_storeSecondaryDisplayPreferencesSeparately _ _ hwrites
  obtain rfl := Except.ok.inj hwrite
  have hflag := PrefsProto.getBoolean_onReceive_flag phone
    (setTo storeSecondaryDisplayPreferencesSeparately.key "false") recheck_onSecondary rfl false
  exact absurd (hflag.symm.trans (hread false)) (by simp)

end WinEmulator.X11.LoriePreferences
