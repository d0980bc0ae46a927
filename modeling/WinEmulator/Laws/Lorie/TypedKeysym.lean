import WinEmulator.Lorie.InputXKB
import Mathlib.Data.List.Basic

/-!
# Typing a keysym

What is faked around a key is undone after it, but a key that was faked and was down before is left
up, and so is the key itself. When there is no key to fake Level 3 with, a Shift that was faked
before it is left as it is.
-/

set_option autoImplicit false

namespace WinEmulator.Lorie.InputXKB

/-- The keys that are down after some events. -/
def after (events : List Event) (down : KeyCode → Bool) : KeyCode → Bool :=
  events.foldl (fun down e => Function.update down e.key e.press) down

theorem after_append (es es' : List Event) (down : KeyCode → Bool) :
    after (es ++ es') down = after es' (after es down) :=
  List.foldl_append

/-! ## Faked modifiers -/

/-- Whether a key is down when a fake is undone, from whether it was before. -/
def Fake.leaves (k : KeyCode) (was : Bool) : Fake → Bool
  | .none => was
  | .press key => if k = key then false else was
  | .release keys => if k ∈ keys then true else was

/-- Whether a key is down while a modifier is faked. -/
def Fake.holds (k : KeyCode) (was : Bool) : Fake → Bool
  | .none => was
  | .press key => if k = key then true else was
  | .release keys => if k ∈ keys then false else was

theorem after_map (press : Bool) (reason : Reason) (keys : List KeyCode) (down : KeyCode → Bool)
    (k : KeyCode) :
    after (keys.map fun key => ⟨press, key, reason⟩) down k = if k ∈ keys then press
      else down k := by
  induction keys generalizing down with
  | nil => rfl
  | cons key keys ih =>
    have hrest := ih (Function.update down key press)
    rw [List.map_cons, after, List.foldl_cons]
    refine hrest.trans ?_
    by_cases hk : k = key
    · subst hk
      simp
    · simp [hk]

theorem after_events (reason : Reason) (f : Fake) (down : KeyCode → Bool) (k : KeyCode) :
    after (f.events reason) down k = f.holds k (down k) := by
  cases f with
  | none => rfl
  | press key =>
    refine (after_map true reason [key] down k).trans ?_
    simp only [List.mem_singleton, Fake.holds]
  | release keys => exact after_map false reason keys down k

theorem after_undo (reason : Reason) (f : Fake) (down : KeyCode → Bool) (k : KeyCode) :
    after (f.undo reason) down k = f.leaves k (down k) := by
  cases f with
  | none => rfl
  | press key =>
    refine (after_map false reason [key] down k).trans ?_
    simp only [List.mem_singleton, Fake.leaves]
  | release keys => exact after_map true reason keys down k

/-- What a fake leaves of a key is the same whatever is done to the key while it is faked, and to it
alone. -/
theorem Fake.leaves_holds (f : Fake) (k : KeyCode) (was : Bool) (between : Bool → Bool) :
    f.leaves k (between (f.holds k was)) = f.leaves k (between was) := by
  cases f with
  | none => rfl
  | press key =>
    simp only [Fake.leaves, Fake.holds]
    split <;> rfl
  | release keys =>
    simp only [Fake.leaves, Fake.holds]
    split <;> rfl

/-- All that is queued for a key and its release. -/
theorem after_typed (shift levelThree : Fake) (keycode : KeyCode) (down : KeyCode → Bool) :
    after (shift.events .tempShift ++ levelThree.events .tempLevelThreeShift ++
      [⟨true, keycode, .keycode⟩] ++
        levelThree.undo .tempLevelThreeShift ++ shift.undo .tempShift ++
          [⟨false, keycode, .keycode⟩]) down =
      Function.update (fun k => shift.leaves k (levelThree.leaves k (down k))) keycode false := by
  funext k
  simp only [after_append]
  by_cases hk : k = keycode
  · subst hk
    simp [after]
  · have hother (press : Bool) (down : KeyCode → Bool) :
        after [⟨press, keycode, .keycode⟩] down k = down k := by
      simp [after, hk]
    rw [hother, after_undo, after_undo, hother, after_events, after_events,
      Function.update_of_ne hk]
    have hlevel := Fake.leaves_holds levelThree k (shift.holds k (down k)) id
    simp only [id] at hlevel
    rw [hlevel]
    exact Fake.leaves_holds shift k (down k) (levelThree.leaves k)

/-- Faking a modifier does not leave another key up or down than before. -/
def Fake.Kept (down : KeyCode → Bool) : Fake → Prop
  | .none => True
  | .press key => down key = true
  | .release _ => False

/-- When a fake press or release leaves the keys as they were. -/
theorem after_events_eq_iff {reason : Reason} {f : Fake} {down : KeyCode → Bool}
    (hdown : ∀ keys, f = .release keys → keys ≠ [] ∧ ∀ k ∈ keys, down k = true) :
    after (f.events reason) down = down ↔ f.Kept down := by
  rw [funext_iff]
  simp only [after_events]
  cases f with
  | none => simp [Fake.holds, Fake.Kept]
  | press key =>
    simp only [Fake.holds, Fake.Kept]
    constructor
    · intro h
      have hkey := h key
      rw [if_pos rfl] at hkey
      exact hkey.symm
    · intro h k
      split
      case isTrue hk => rw [hk, h]
      case isFalse => rfl
  | release keys =>
    obtain ⟨hne, hkeys⟩ := hdown keys rfl
    refine iff_of_false (fun h => ?_) id
    obtain ⟨k, hk⟩ := List.exists_mem_of_ne_nil keys hne
    have hup := h k
    simp [Fake.holds, hk, hkeys k hk] at hup

/-- What a fake leaves as it was: all but a key that is pressed for it, when none is released that
was up. -/
theorem Fake.leaves_eq_iff {f : Fake} {k : KeyCode} {was : Bool}
    (hdown : ∀ keys, f = .release keys → k ∈ keys → was = true) :
    f.leaves k was = was ↔ (f = .press k → was = false) := by
  cases f with
  | none => simp [Fake.leaves]
  | press key =>
    simp only [Fake.leaves, Fake.press.injEq]
    by_cases hk : k = key
    · simp [hk, eq_comm]
    · simp [hk, Ne.symm hk]
  | release keys =>
    simp only [Fake.leaves, reduceCtorEq, false_imp_iff, iff_true]
    split
    case isTrue hk => exact (hdown keys rfl hk).symm
    case isFalse => rfl

/-- The keys that are down in the end are those that were, when no key that is pressed was down,
unless it was released as Shift. -/
theorem update_leaves_eq_iff {shift levelThree : Fake} {keycode : KeyCode} {down : KeyCode → Bool}
    (hshift : ∀ keys, shift = .release keys → ∀ k ∈ keys, down k = true)
    (hlevel : ∀ keys, levelThree = .release keys → ∀ k ∈ keys, down k = true) :
    Function.update (fun k => shift.leaves k (levelThree.leaves k (down k))) keycode false = down ↔
      down keycode = false ∧ (∀ key, shift = .press key → down key = false) ∧
        ∀ key, levelThree = .press key → down key = false ∨ ∃ keys, shift = .release keys ∧
          key ∈ keys := by
  have hshiftLeaves (k : KeyCode) :=
    Fake.leaves_eq_iff (f := shift) (k := k) fun keys h hk => hshift keys h k hk
  have hlevelLeaves (k : KeyCode) :=
    Fake.leaves_eq_iff (f := levelThree) (k := k) fun keys h hk => hlevel keys h k hk
  constructor
  · intro h
    have hkeycode : down keycode = false := by simpa using (congrFun h keycode).symm
    have hother {k : KeyCode} (hk : k ≠ keycode) :
        shift.leaves k (levelThree.leaves k (down k)) = down k := by
      simpa [hk] using congrFun h k
    refine ⟨hkeycode, fun key hpress => ?_, fun key hpress => ?_⟩
    · by_cases hk : key = keycode
      · rw [hk, hkeycode]
      · have hup := hother hk
        rw [hpress] at hup
        simpa [Fake.leaves] using hup
    · by_cases hk : key = keycode
      · exact .inl (hk ▸ hkeycode)
      · have hup := hother hk
        rw [hpress] at hup
        cases shift with
        | none => exact .inl (by simpa [Fake.leaves] using hup)
        | press key' => exact .inl (by simpa [Fake.leaves] using hup)
        | release keys =>
          by_cases hmem : key ∈ keys
          · exact .inr ⟨keys, rfl, hmem⟩
          · exact .inl (by simpa [Fake.leaves, hmem] using hup)
  · rintro ⟨hkeycode, hpressShift, hpressLevel⟩
    funext k
    by_cases hk : k = keycode
    · rw [hk, Function.update_self, hkeycode]
    rw [Function.update_of_ne hk]
    by_cases hreleased : ∃ keys, shift = .release keys ∧ k ∈ keys
    · obtain ⟨keys, rfl, hmem⟩ := hreleased
      rw [Fake.leaves, if_pos hmem, hshift keys rfl k hmem]
    · have hsame : levelThree.leaves k (down k) = down k :=
        (hlevelLeaves k).mpr fun hpress => (hpressLevel k hpress).resolve_right hreleased
      rw [hsame]
      exact (hshiftLeaves k).mpr (hpressShift k)

/-! ## Keys of the map -/

/-- A keycode that a device can have. -/
def Legal (key : KeyCode) : Prop := 8 ≤ key ∧ key ≤ 255

theorem legal_of_mem_keycodes {xkb : XkbDesc} {key : KeyCode} (h : key ∈ xkb.keycodes) :
    Legal key := by
  have hlegal : (8 : Nat) ≤ xkb.min_key_code ∧ (255 : Nat) ≥ xkb.max_key_code := xkb.legal
  obtain ⟨hle, hlt⟩ := List.mem_range'_1.mp h
  exact ⟨Nat.le_trans hlegal.1 hle, show (255 : Nat) ≥ key by omega⟩

theorem orElse_eq_some {α : Type} {a b : Option α} {x : α} (h : (a <|> b) = some x) :
    a = some x ∨ b = some x := by
  cases a with
  | none => exact .inr h
  | some y => exact .inl h

theorem keysymToKeycode_mem {xkb : XkbDesc} {keysym : KeySym} {state : UInt32} {key : KeyCode}
    (h : xkb.keysymToKeycode keysym state = some key) : key ∈ xkb.keycodes := by
  obtain h | h := orElse_eq_some h
  · exact List.mem_of_find?_eq_some h
  · exact List.mem_of_find?_eq_some h

namespace Keyboard

variable {kb kb' : Keyboard} {keysym : KeySym}

/-- The key that the lookup finds is on the keyboard. -/
theorem lorieKeysymToKeycode_mem {state : UInt32} {found : KeyCode × UInt32}
    (h : kb.lorieKeysymToKeycode keysym state = some found) : found.1 ∈ kb.xkb.keycodes := by
  have hfind {state : UInt32}
    (h : (kb.xkb.keysymToKeycode keysym state).map (·, state) = some found) :
      found.1 ∈ kb.xkb.keycodes := by
    obtain ⟨key, hkey, rfl⟩ := Option.map_eq_some_iff.mp h
    exact keysymToKeycode_mem hkey
  obtain h | h := orElse_eq_some h
  · exact hfind h
  obtain h | h := orElse_eq_some h
  · exact hfind h
  dsimp only at h
  split at h
  · cases h
  obtain h | h := orElse_eq_some h
  · exact hfind h
  · exact hfind h

/-- So is the one it finds in the session. -/
theorem findKey_mem {found : KeyCode × UInt32} (h : kb.findKey keysym = some found) :
    found.1 ∈ kb.xkb.keycodes := by
  obtain h | h := orElse_eq_some h
  · exact lorieKeysymToKeycode_mem h
  · obtain ⟨altsym, -, h⟩ := List.exists_of_findSome?_eq_some h
    exact lorieKeysymToKeycode_mem h

/-- So is the one it takes instead of a key of the numeric pad. -/
theorem avoidNumpad_mem (keysym : KeySym) {found : KeyCode × UInt32}
    (h : found.1 ∈ kb.xkb.keycodes) :
    (kb.avoidNumpad keysym found).1 ∈ kb.xkb.keycodes := by
  unfold avoidNumpad
  dsimp only
  split
  case isFalse => exact h
  cases hother :
    ((alternatives keysym).filterMap fun altsym => kb.lorieKeysymToKeycode altsym kb.state).find? _
    with
  | none => exact h
  | some other =>
    obtain ⟨altsym, -, hfound⟩ := List.mem_filterMap.mp (List.mem_of_find?_eq_some hother)
    exact lorieKeysymToKeycode_mem hfound

/-- What typing goes by besides the map. -/
structure SameKeys (kb kb' : Keyboard) : Prop where
  down : kb'.down = kb.down
  pressedKeys : kb'.pressedKeys = kb.pressedKeys

theorem findOrAddKey_sameKeys (kb : Keyboard) (keysym : KeySym) :
    SameKeys kb (kb.findOrAddKey keysym).2 := by
  unfold findOrAddKey lorieAddKeysym freeKeycode
  cases kb.findKey keysym with
  | some found => exact ⟨rfl, rfl⟩
  | none =>
    cases kb.xkb.keycodes.reverse.find? fun key => kb.xkb.numGroups key = 0 with
    | some key => exact ⟨rfl, rfl⟩
    | none =>
      simp only [getReusableKeycode]
      cases (kb.oldestReusable kb.addedKeysyms.reverse).1 <;> exact ⟨rfl, rfl⟩

/-- So is the one it adds. -/
theorem findOrAddKey_mem {found : KeyCode × UInt32}
    (h : kb.findOrAddKey keysym = (some found, kb')) :
    found.1 ∈ kb'.xkb.keycodes := by
  unfold findOrAddKey at h
  split at h
  case h_1 hfound =>
    cases h
    exact findKey_mem hfound
  case h_2 =>
    split at h
    · cases h
    · obtain ⟨hfound, rfl⟩ := Prod.mk.inj h
      exact lorieKeysymToKeycode_mem hfound

theorem chooseKey_sameKeys (kb : Keyboard) (keysym : KeySym) :
    SameKeys kb (kb.chooseKey keysym).2 := by
  have hsame := findOrAddKey_sameKeys kb keysym
  unfold chooseKey
  split
  case h_1 hfound =>
    rw [hfound] at hsame
    exact hsame
  case h_2 hfound =>
    rw [hfound] at hsame
    exact hsame

/-- So is the one it chooses. -/
theorem chooseKey_mem {found : KeyCode × UInt32} (h : kb.chooseKey keysym = (some found, kb')) :
    found.1 ∈ kb'.xkb.keycodes := by
  unfold chooseKey at h
  split at h
  · cases h
  case h_2 hfound =>
    cases h
    have hmem := avoidNumpad_mem keysym (findOrAddKey_mem hfound)
    unfold keepShift
    split
    · exact hmem
    · exact hmem

/-! ## Keys that are faked -/

/-- What a fake event is made of. -/
theorem fake_eq_some {mask new_state : UInt32} {press : Option KeyCode} {release : List KeyCode}
    {f : Fake}
    (h : kb.fake mask new_state press release = some f) :
    (∀ key, f = .press key → press = some key) ∧ ∀ keys, f = .release keys → keys = release ∧ keys ≠
    [] := by
  unfold fake at h
  split at h
  · obtain ⟨key, rfl, rfl⟩ := Option.map_eq_some_iff.mp h
    exact ⟨fun _ h => congrArg some (Fake.press.inj h), nofun⟩
  split at h
  · split at h
    · cases h
    case isFalse hne =>
      cases h
      refine ⟨nofun, fun keys h => ?_⟩
      obtain rfl := Fake.release.inj h
      exact ⟨rfl, hne⟩
  · cases h
    exact ⟨nofun, nofun⟩

theorem loriePressShift_mem {key : KeyCode} (h : kb.loriePressShift = some key) :
    key ∈ kb.xkb.keycodes := by
  unfold loriePressShift at h
  split at h
  · cases h
  · exact List.mem_of_find?_eq_some h

theorem loriePressLevelThree_mem {key : KeyCode} (h : kb.loriePressLevelThree = some key) :
    key ∈ kb.xkb.keycodes := by
  unfold loriePressLevelThree at h
  dsimp only at h
  split at h
  · cases h
  split at h
  · cases h
  case h_2 keycode hkeycode =>
    split at h
    · cases h
    split at h
    · cases h
      obtain h | h := orElse_eq_some hkeycode
      · exact keysymToKeycode_mem h
      · exact keysymToKeycode_mem h
    · cases h

/-- The modifiers that are released are keys that are down. -/
theorem releaseMods_mem {mask : UInt32} {key : KeyCode} (h : key ∈ kb.releaseMods mask) :
    key ∈ kb.xkb.keycodes ∧ kb.down key = true := by
  unfold releaseMods at h
  dsimp only at h
  split at h
  · obtain ⟨hmem, hdown⟩ := List.mem_filter.mp h
    exact ⟨hmem, (Bool.and_eq_true_iff.mp hdown).1⟩
  · cases h

/-- The keys of a fake are keys of the map, and those that are released are down. -/
structure Sound (kb : Keyboard) (f : Fake) : Prop where
  press : ∀ key, f = .press key → key ∈ kb.xkb.keycodes
  release : ∀ keys, f = .release keys → keys ≠ [] ∧ ∀ key ∈ keys, key ∈ kb.xkb.keycodes ∧
    kb.down key = true

/-- The faked Shift is sound. -/
theorem fakeShift_sound {new_state : UInt32} {f : Fake} (h : kb.fakeShift new_state = some f) :
    Sound kb f := by
  obtain ⟨hpress, hrelease⟩ := fake_eq_some h
  refine ⟨fun key hkey => loriePressShift_mem (hpress key hkey), fun keys hkeys => ?_⟩
  obtain ⟨rfl, hne⟩ := hrelease keys hkeys
  refine ⟨hne, fun key hkey => ?_⟩
  unfold lorieReleaseShift at hkey
  split at hkey
  · cases hkey
  · exact releaseMods_mem hkey

/-- The faked third level is sound. -/
theorem fakeLevelThree_sound {new_state : UInt32} {f : Fake}
    (h : kb.fakeLevelThree new_state = some f) : Sound kb f := by
  obtain ⟨hpress, hrelease⟩ := fake_eq_some h
  refine ⟨fun key hkey => loriePressLevelThree_mem (hpress key hkey), fun keys hkeys => ?_⟩
  obtain ⟨rfl, hne⟩ := hrelease keys hkeys
  refine ⟨hne, fun key hkey => ?_⟩
  unfold lorieReleaseLevelThree at hkey
  dsimp only at hkey
  split at hkey
  · cases hkey
  · exact releaseMods_mem hkey

/-- The events of a sound fake are legal. -/
theorem Sound.legal {f : Fake} (h : Sound kb f) (reason : Reason) :
    (∀ e ∈ f.events reason, Legal e.key ∧ e.reason = reason) ∧ ∀ e ∈ f.undo reason, Legal e.key ∧
      e.reason = reason := by
  cases f with
  | none => exact ⟨nofun, nofun⟩
  | press key =>
    have hlegal := legal_of_mem_keycodes (h.press key rfl)
    simp only [Fake.events, Fake.undo, List.mem_singleton, forall_eq, and_true]
    exact ⟨hlegal, hlegal⟩
  | release keys =>
    have hlegal (key : KeyCode) (hkey : key ∈ keys) :=
      legal_of_mem_keycodes ((h.release keys rfl).2 key hkey).1
    simp only [Fake.events, Fake.undo, List.forall_mem_map, and_true]
    exact ⟨hlegal, hlegal⟩

theorem queue_eq_self {events : List Event} (h : ∀ e ∈ events, Legal e.key) :
    queue events = events :=
  List.filter_eq_self.mpr fun e he => by simpa [Legal] using h e he

end Keyboard

/-! ## The calls -/

/-- A keyboard on which no keysym is pressed, as it is before each character. -/
def Keyboard.Idle (kb : Keyboard) : Prop := kb.pressedKeys = fun _ => NoSymbol

/-- What is to hold of a keysym that is pressed and released. -/
structure Restores (kb : Keyboard) (keysym : KeySym) : Prop where
  restored : after ((kb.press keysym).1 ++ ((kb.press keysym).2.release keysym).1) kb.down = kb.down
  released : ∀ e ∈ (kb.press keysym).1, e.press = true → e.reason = .keycode →
    ((kb.press keysym).2.release keysym).1 = [⟨false, e.key, .keycode⟩]

/-- There is no key, or no Shift to fake. Or Shift is not left faked when there is no Level 3 to
fake. Or else none of the keys that are pressed was down, unless it was released as Shift. -/
def Undoes (kb : Keyboard) (keysym : KeySym) : Prop :=
  match kb.chooseKey keysym with
  | (none, _) => True
  | (some (keycode, new_state), kb) =>
    match kb.fakeShift new_state, kb.fakeLevelThree new_state with
    | none, _ => True
    | some shift, none => shift.Kept kb.down
    | some shift, some levelThree =>
      keysym ≠ NoSymbol ∧ kb.down keycode = false ∧
        (∀ key, shift = .press key → kb.down key = false) ∧
        ∀ key, levelThree = .press key → kb.down key = false ∨ ∃ keys, shift = .release keys ∧
          key ∈ keys

theorem release_idle {kb : Keyboard} (hidle : kb.Idle) (keysym : KeySym) :
    (kb.release keysym).1 = [] := by
  unfold Keyboard.release
  split
  · rfl
  case h_2 i hi =>
    have hkeysym : NoSymbol = keysym := by
      have hpressed := List.find?_some hi
      rw [hidle] at hpressed
      exact of_decide_eq_true hpressed
    have hzero : i = 0 := by
      rw [hidle, ← hkeysym] at hi
      exact (Option.some.inj hi).symm
    rw [hzero]
    rfl

/-- A keysym that is stored for one key is found there. -/
theorem release_of_pressed {kb : Keyboard} {keycode : KeyCode} {keysym : KeySym}
    (hlegal : Legal keycode)
    (hpressed : ∀ i, kb.pressedKeys i = if i = keycode then keysym else NoSymbol)
    (hsome : keysym ≠ NoSymbol) :
    kb.release keysym =
      ([⟨false, keycode, .keycode⟩],
        { kb with pressedKeys := Function.update kb.pressedKeys keycode NoSymbol }) := by
  have hsound {i : KeyCode} (h : kb.pressedKeys i = keysym) : i = keycode := by
    rw [hpressed] at h
    by_contra hne
    rw [if_neg hne] at h
    exact hsome h.symm
  have hfind : (List.range 256).find? (fun i => kb.pressedKeys i = keysym) = some keycode := by
    cases hfound : (List.range 256).find? (fun i => kb.pressedKeys i = keysym) with
    | none =>
      have hnot :=
        List.find?_eq_none.mp hfound keycode (List.mem_range.mpr (Nat.lt_succ_of_le hlegal.2))
      exact absurd (decide_eq_true (by rw [hpressed, if_pos rfl])) hnot
    | some i =>
      have hi := List.find?_some hfound
      rw [hsound (of_decide_eq_true hi)]
  unfold Keyboard.release
  rw [hfind]
  exact Prod.ext (Keyboard.queue_eq_self (by simpa using hlegal)) rfl

/-- An idle keyboard remembers the one keysym that was pressed. -/
theorem storePressed_apply {kb : Keyboard} (hidle : kb.Idle) (keycode : KeyCode) (keysym : KeySym)
    (i : KeyCode) :
    (kb.storePressed keycode keysym).pressedKeys i = if i = keycode then keysym else NoSymbol := by
  simp only [Keyboard.storePressed, show kb.pressedKeys i = NoSymbol from congrFun hidle i,
    ite_self]

theorem storePressed_idle {kb : Keyboard} (hidle : kb.Idle) (keycode : KeyCode) :
    (kb.storePressed keycode NoSymbol).Idle :=
  funext fun i => by rw [storePressed_apply hidle, ite_self]

theorem vncOnKeyUsed_pressedKeys (kb : Keyboard) (keycode : KeyCode) :
    (kb.vncOnKeyUsed keycode).pressedKeys = kb.pressedKeys := by
  unfold Keyboard.vncOnKeyUsed
  split <;> rfl

/-- Nothing is released when no key was pressed but for a modifier. -/
theorem restores_iff_of_not_pressed {kb kb' : Keyboard} {keysym : KeySym} {events : List Event}
    (hpress : kb.press keysym = (events, kb')) (hidle : kb'.Idle)
    (hreason : ∀ e ∈ events, e.reason ≠ .keycode) :
    Restores kb keysym ↔ after events kb.down = kb.down := by
  have hrelease : (kb'.release keysym).1 = [] := release_idle hidle keysym
  constructor
  · intro h
    simpa only [hpress, hrelease, List.append_nil] using h.restored
  · intro h
    refine ⟨by simpa only [hpress, hrelease, List.append_nil] using h, fun e he _ hkeycode => ?_⟩
    rw [hpress] at he
    exact absurd hkeycode (hreason e he)

/-- The key is pressed between the modifiers that are faked, and released. -/
theorem restores_iff_of_pressed {kb kb' : Keyboard} {keysym : KeySym} {keycode : KeyCode}
    {shift levelThree : Fake}
    (hsame : Keyboard.SameKeys kb kb') (hidle : kb.Idle) (hkeycode : keycode ∈ kb'.xkb.keycodes)
    (hshift : Keyboard.Sound kb' shift) (hlevel : Keyboard.Sound kb' levelThree)
    (hpress : kb.press keysym =
      (Keyboard.queue
        (shift.events .tempShift ++ levelThree.events .tempLevelThreeShift ++
        [⟨true, keycode, .keycode⟩] ++
          levelThree.undo .tempLevelThreeShift ++ shift.undo .tempShift),
        (kb'.vncOnKeyUsed keycode).storePressed keycode keysym)) :
    Restores kb keysym ↔ keysym ≠ NoSymbol ∧ kb'.down keycode = false ∧
      (∀ key, shift = .press key → kb'.down key = false) ∧
      ∀ key, levelThree = .press key → kb'.down key = false ∨ ∃ keys, shift = .release keys ∧
        key ∈ keys := by
  have hlegal := legal_of_mem_keycodes hkeycode
  have hidle' : (kb'.vncOnKeyUsed keycode).Idle := by
    rw [Keyboard.Idle, vncOnKeyUsed_pressedKeys, hsame.pressedKeys]
    exact hidle
  have hrelease (hsome : keysym ≠ NoSymbol) :=
    release_of_pressed hlegal (storePressed_apply hidle' keycode keysym) hsome
  have hevents : ∀ e ∈ shift.events .tempShift ++ levelThree.events .tempLevelThreeShift ++
      [⟨true, keycode, .keycode⟩] ++ levelThree.undo .tempLevelThreeShift ++ shift.undo .tempShift,
          Legal e.key := by
    simp only [List.forall_mem_append, List.forall_mem_singleton]
    exact ⟨⟨⟨⟨fun e he => ((hshift.legal _).1 e he).1, fun e he => ((hlevel.legal _).1 e he).1⟩,
      hlegal⟩,
      fun e he => ((hlevel.legal _).2 e he).1⟩, fun e he => ((hshift.legal _).2 e he).1⟩
  rw [Keyboard.queue_eq_self hevents] at hpress
  have hleaves :=
    @update_leaves_eq_iff shift levelThree keycode kb'.down
    (fun keys h k hk => ((hshift.release keys h).2 k hk).2)
    (fun keys h k hk => ((hlevel.release keys h).2 k hk).2)
  rw [← hleaves, ← after_typed, hsame.down]
  constructor
  · intro h
    have hmem : Event.mk true keycode .keycode ∈ (kb.press keysym).1 := by simp [hpress]
    have hreleased := h.released _ hmem rfl rfl
    have hrestored := h.restored
    rw [hreleased] at hrestored
    rw [hpress] at hreleased hrestored
    refine ⟨fun hnone => ?_, hrestored⟩
    rw [hnone, release_idle (storePressed_idle hidle' keycode)] at hreleased
    cases hreleased
  · rintro ⟨hsome, hrestored⟩
    refine ⟨by rw [hpress, hrelease hsome]; exact hrestored, fun e he _ hreason => ?_⟩
    rw [hpress] at he ⊢
    rw [hrelease hsome]
    -- Only the event of the key has this reason.
    have hkey : e = ⟨true, keycode, .keycode⟩ := by
      simp only [List.mem_append, List.mem_singleton] at he
      obtain (((he | he) | he) | he) | he := he
      · exact absurd (((hshift.legal _).1 e he).2.symm.trans hreason) (by decide)
      · exact absurd (((hlevel.legal _).1 e he).2.symm.trans hreason) (by decide)
      · exact he
      · exact absurd (((hlevel.legal _).2 e he).2.symm.trans hreason) (by decide)
      · exact absurd (((hshift.legal _).2 e he).2.symm.trans hreason) (by decide)
    rw [hkey]

/-- Typing restores the keyboard exactly when the fakes are undone. -/
theorem restores_iff {kb : Keyboard} (hidle : kb.Idle) (keysym : KeySym) :
    Restores kb keysym ↔ Undoes kb keysym := by
  have hsame := Keyboard.chooseKey_sameKeys kb keysym
  obtain ⟨choice, kb', hchoice⟩ : ∃ choice kb', kb.chooseKey keysym = (choice, kb') := ⟨_, _, rfl⟩
  rw [hchoice] at hsame
  have hidle' : kb'.Idle := hsame.pressedKeys.trans hidle
  cases choice with
  | none =>
    have hpress : kb.press keysym = ([], kb') := by simp only [Keyboard.press, hchoice]
    rw [restores_iff_of_not_pressed hpress hidle' nofun]
    simp only [Undoes, hchoice, iff_true]
    rfl
  | some found =>
    obtain ⟨keycode, new_state⟩ := found
    cases hshift : kb'.fakeShift new_state with
    | none =>
      have hpress : kb.press keysym = ([], kb') := by simp only [Keyboard.press, hchoice, hshift]
      rw [restores_iff_of_not_pressed hpress hidle' nofun]
      simp only [Undoes, hchoice, hshift, iff_true]
      rfl
    | some shift =>
      have hsound := Keyboard.fakeShift_sound hshift
      cases hlevel : kb'.fakeLevelThree new_state with
      | none =>
        have hqueue := Keyboard.queue_eq_self fun e he => ((hsound.legal .tempShift).1 e he).1
        have hpress : kb.press keysym = (shift.events .tempShift, kb') := by
          simp only [Keyboard.press, hchoice, hshift, hlevel, hqueue]
        have hreason : ∀ e ∈ shift.events .tempShift, e.reason ≠ .keycode := fun e he => by
          rw [((hsound.legal .tempShift).1 e he).2]
          decide
        rw [restores_iff_of_not_pressed hpress hidle' hreason, ← hsame.down, after_events_eq_iff]
        · simp only [Undoes, hchoice, hshift, hlevel]
        · exact fun keys h =>
            ⟨(hsound.release keys h).1, fun k hk => ((hsound.release keys h).2 k hk).2⟩
      | some levelThree =>
        have hpress : kb.press keysym = (Keyboard.queue (shift.events .tempShift ++
              levelThree.events .tempLevelThreeShift ++ [⟨true, keycode, .keycode⟩] ++
              levelThree.undo .tempLevelThreeShift ++ shift.undo .tempShift),
            (kb'.vncOnKeyUsed keycode).storePressed keycode keysym) := by
          simp only [Keyboard.press, hchoice, hshift, hlevel]
        rw [restores_iff_of_pressed hsame hidle (Keyboard.chooseKey_mem hchoice) hsound
          (Keyboard.fakeLevelThree_sound hlevel) hpress]
        simp only [Undoes, hchoice, hshift, hlevel]

/-! ## Keys that are pressed for themselves -/

/-- The keys that are pressed for themselves. -/
def usedKeys (events : List Event) : List KeyCode :=
  ((events.filter fun e => e.press && e.reason == .keycode).map (·.key)).reverse

theorem usedKeys_append (events events' : List Event) :
    usedKeys (events ++ events') = usedKeys events' ++ usedKeys events := by
  simp only [usedKeys, List.filter_append, List.map_append, List.reverse_append]

theorem usedKeys_eq_nil {events : List Event}
    (h : ∀ e ∈ events, e.press = true → e.reason ≠ .keycode) :
    usedKeys events = [] := by
  have hnone : events.filter (fun e => e.press && e.reason == .keycode) = [] := by
    refine List.filter_eq_nil_iff.mpr fun e he hused => ?_
    rw [Bool.and_eq_true, beq_iff_eq] at hused
    exact h e he hused.1 hused.2
  rw [usedKeys, hnone]
  rfl

theorem Fake.reason (f : Fake) (reason : Reason) :
    (∀ e ∈ f.events reason, e.reason = reason) ∧ ∀ e ∈ f.undo reason, e.reason = reason := by
  cases f with
  | none => exact ⟨nofun, nofun⟩
  | press key => simp [Fake.events, Fake.undo]
  | release keys => simp [Fake.events, Fake.undo]

/-- A press does not come to its key, or it presses the key, which is then used. -/
theorem press_cases (kb : Keyboard) (keysym : KeySym) :
    usedKeys (kb.press keysym).1 = [] ∧ (kb.press keysym).2 = (kb.chooseKey keysym).2 ∨
      ∃ keycode, Legal keycode ∧ usedKeys (kb.press keysym).1 = [keycode] ∧
        (kb.press keysym).2 = ((kb.chooseKey keysym).2.vncOnKeyUsed keycode).storePressed keycode
          keysym := by
  unfold Keyboard.press
  split
  case h_1 hchoice => exact .inl ⟨rfl, by rw [hchoice]⟩
  case h_2 keycode new_state kb' hchoice =>
    have hlegal := legal_of_mem_keycodes (Keyboard.chooseKey_mem hchoice)
    rw [hchoice]
    split
    · exact .inl ⟨rfl, rfl⟩
    case h_2 shift hshift =>
      have hfake (f : Fake) (reason : Reason) (hreason : reason ≠ .keycode) :
          usedKeys (Keyboard.queue (f.events reason)) = [] ∧
              usedKeys (Keyboard.queue (f.undo reason)) = [] := by
        obtain ⟨hevents, hundo⟩ := f.reason reason
        exact ⟨usedKeys_eq_nil fun e he _ => hevents e (List.mem_of_mem_filter he) ▸ hreason,
          usedKeys_eq_nil fun e he _ => hundo e (List.mem_of_mem_filter he) ▸ hreason⟩
      obtain ⟨hevents, hundo⟩ := hfake shift .tempShift (by decide)
      split
      · exact .inl ⟨hevents, rfl⟩
      case h_2 levelThree hlevel =>
        obtain ⟨hlevelEvents, hlevelUndo⟩ := hfake levelThree .tempLevelThreeShift (by decide)
        refine .inr ⟨keycode, hlegal, ?_, rfl⟩
        have hkey : Keyboard.queue [⟨true, keycode, .keycode⟩] = [⟨true, keycode, .keycode⟩] :=
          Keyboard.queue_eq_self (List.forall_mem_singleton.mpr hlegal)
        have happend (es es' : List Event) :
            Keyboard.queue (es ++ es') = Keyboard.queue es ++ Keyboard.queue es' :=
          List.filter_append ..
        simp only [happend, usedKeys_append, hkey, hevents, hundo, hlevelEvents, hlevelUndo]
        rfl

/-- A keysym that is pressed is stored for one key, if at all. -/
theorem press_idle {kb : Keyboard} (hidle : kb.Idle) (keysym : KeySym) :
    (kb.press keysym).2.Idle ∨ ∃ keycode, Legal keycode ∧
      ∀ i, (kb.press keysym).2.pressedKeys i = if i = keycode then keysym else NoSymbol := by
  have hidle' : (kb.chooseKey keysym).2.Idle :=
    (Keyboard.chooseKey_sameKeys kb keysym).pressedKeys.trans hidle
  obtain ⟨-, hkb⟩ | ⟨keycode, hlegal, -, hkb⟩ := press_cases kb keysym
  · exact .inl (hkb ▸ hidle')
  · refine .inr ⟨keycode, hlegal, ?_⟩
    rw [hkb]
    refine storePressed_apply ?_ keycode keysym
    rw [Keyboard.Idle, vncOnKeyUsed_pressedKeys]
    exact hidle'

/-- No keysym is pressed after a character either. -/
theorem idle_typed {kb : Keyboard} (hidle : kb.Idle) (keysym : KeySym) :
    ((kb.press keysym).2.release keysym).2.Idle := by
  have hnone {kb : Keyboard} (h : kb.Idle) : (kb.release keysym).2.Idle := by
    unfold Keyboard.release
    split
    · exact h
    · exact funext fun i => by simp [show kb.pressedKeys = _ from h]
  obtain h | ⟨keycode, hlegal, hpressed⟩ := press_idle hidle keysym
  · exact hnone h
  by_cases hkeysym : keysym = NoSymbol
  · exact hnone (funext fun i => by rw [hpressed, hkeysym, ite_self])
  · rw [release_of_pressed hlegal hpressed hkeysym]
    funext i
    by_cases hi : i = keycode
    · simp [hi]
    · simp [hi, hpressed]

/-- **Typing a keysym leaves the keyboard as it was**, and presses one key besides the modifiers it
fakes, exactly when what is faked is undone. -/
theorem restores_iff_undoes (xkb : XkbDesc) (state : UInt32) (down : KeyCode → Bool)
    (addedKeysyms : List (KeyCode × KeySym)) (keysym : KeySym) :
    Restores ⟨xkb, state, down, fun _ => NoSymbol, addedKeysyms⟩ keysym ↔
      Undoes ⟨xkb, state, down, fun _ => NoSymbol, addedKeysyms⟩ keysym := by
  have hidle : Keyboard.Idle ⟨xkb, state, down, fun _ => NoSymbol, addedKeysyms⟩ := rfl
  exact restores_iff hidle keysym

/-- A letter with the two keysyms of its first two levels, and the two modifiers. -/
def lettersOnly : XkbDesc where
  min_key_code := 24
  max_key_code := 26
  legal := by decide
  types := [⟨0, 1, [], none⟩, ⟨1, 2, [⟨true, 1, 1⟩], none⟩,
    ⟨3, 2, [⟨true, 1, 1⟩, ⟨true, 2, 1⟩], none⟩,
    ⟨0x81, 4, [⟨true, 0x01, 1⟩, ⟨true, 0x80, 2⟩, ⟨true, 0x81, 3⟩], none⟩]
  keys := fun key =>
    if key = 24 then ⟨1, 4, [3], [0x61, 0x41, NoSymbol, NoSymbol], none, 0⟩
    else if key = 25 then ⟨1, 1, [0], [0xffe1], some [⟨.SetMods, false, 0x01⟩], 0x01⟩
    else ⟨1, 1, [0], [XK_ISO_Level3_Shift], some [⟨.SetMods, false, 0x80⟩], 0x80⟩
  names := none

/-- Level 3 is locked and no key is down. A capital letter needs Shift and another Level 3, and
there is no key to release for that. -/
theorem not_restores_locked :
    ¬ Restores ⟨lettersOnly, 0x80, fun _ => false, fun _ => NoSymbol, []⟩ 0x41 := by
  intro h
  have hshift := congrFun h.restored 25
  revert hshift
  decide +kernel

end WinEmulator.Lorie.InputXKB
