import Mathlib.Data.List.Basic
import WinEmulator.Laws.Lorie.TypedKeysym
import WinEmulator.Lorie.KeysymLookup

/-!
# Which key is found

The loop finds the first key that gives the keysym and is not one of the fake ones, or else the
first that gives it. So a key that is found is right, and one is found if there is one in any of the
states that are tried.
-/

set_option autoImplicit false

namespace WinEmulator.Lorie.InputXKB.Keymap

/-- A key gives a keysym in a state: it is what the key is translated to, in upper case if Lock is
set and not consumed. -/
def Gives (xkb : Keymap) (keysym : KeySym) (state : UInt32) (key : KeyCode) : Prop :=
  let (mods, ks) := xkb.translateKeyCode key state
  ks ≠ NoSymbol ∧
    (if state &&& ~~~mods &&& LockMask ≠ 0 then (XkbConvertCase ks).2 else ks) = keysym

instance (xkb : Keymap) (keysym : KeySym) (state : UInt32) (key : KeyCode) :
    Decidable (xkb.Gives keysym state key) :=
  inferInstanceAs (Decidable (_ ∧ _))

/-- A key of the map. -/
def Has (xkb : Keymap) (key : KeyCode) : Prop := xkb.min_key_code ≤ key ∧ key ≤ xkb.max_key_code

/-- The states with Shift and, if there is one, Level 3 at either of their values. -/
def states (state mask : UInt32) : List UInt32 :=
  [state, Keyboard.toggle state ShiftMask] ++
    if mask = 0 then [] else [Keyboard.toggle state mask, toggleBoth state mask]

/-- What is right of a key and the new state that are found for a keysym. -/
structure Found (xkb : Keymap) (keysym : KeySym) (state mask : UInt32) (key : KeyCode)
    (new_state : UInt32) : Prop where
  has : xkb.Has key
  gives : xkb.Gives keysym new_state key
  frame : new_state &&& ~~~(ShiftMask ||| mask) = state &&& ~~~(ShiftMask ||| mask)
  fake : key ∈ fakeKeys → ∀ other, xkb.Has other → xkb.Gives keysym new_state other →
    other ∈ fakeKeys ∧ key ≤ other

variable {xkb : Keymap} {keysym : KeySym} {state mask : UInt32} {key : KeyCode}

/-! ## The loop -/

theorem mem_keycodes : key ∈ xkb.keycodes ↔ xkb.Has key := by
  have hrange (lo hi k : Nat) : k ∈ List.range' lo (hi + 1 - lo) ↔ lo ≤ k ∧ k ≤ hi := by
    rw [List.mem_range'_1]
    omega
  exact hrange _ _ _

theorem Has.ne_zero (h : xkb.Has key) : key ≠ 0 := fun hzero =>
  absurd (hzero ▸ Nat.le_trans xkb.legal.1 h.1) (by decide)

/-- What the loop does with a key. -/
theorem scan_cons (keysym : KeySym) (state : UInt32) (key : KeyCode) (keys : List KeyCode)
    (fallback : KeyCode) :
    xkb.scan keysym state (key :: keys) fallback =
      if xkb.Gives keysym state key then
        if key ∈ fakeKeys then xkb.scan keysym state keys (if fallback = 0 then key else fallback)
          else key
      else xkb.scan keysym state keys fallback := by
  by_cases hgives : xkb.Gives keysym state key
  · obtain ⟨hks, hsym⟩ := hgives
    rw [if_pos ⟨hks, hsym⟩, scan]
    dsimp only
    rw [if_neg hks, if_neg (not_not_intro hsym)]
    simp only [List.contains_eq_mem, decide_eq_true_eq]
  · rw [if_neg hgives, scan]
    dsimp only
    by_cases hks : (xkb.translateKeyCode key state).2 = NoSymbol
    · exact if_pos hks
    · rw [if_neg hks]
      exact if_pos fun hsym => hgives ⟨hks, hsym⟩

/-- The loop finds the first key that is none of the fake ones, or else the fallback it had or finds
first. -/
theorem scan_eq {keys : List KeyCode} (hkeys : ∀ key ∈ keys, key ≠ 0) (fallback : KeyCode) :
    xkb.scan keysym state keys fallback =
      (keys.find? fun key => xkb.Gives keysym state key ∧ key ∉ fakeKeys).getD
        (if fallback = 0 then (keys.find? fun key => xkb.Gives keysym state key).getD 0
          else fallback) := by
  induction keys generalizing fallback with
  | nil =>
    rw [scan, List.find?_nil, List.find?_nil, Option.getD_none, Option.getD_none]
    split
    case isTrue h => exact h
    case isFalse => rfl
  | cons key keys ih =>
    have hkey : key ≠ 0 := hkeys key (List.mem_cons_self ..)
    have ih' := ih fun k hk => hkeys k (List.mem_cons_of_mem _ hk)
    rw [scan_cons, List.find?_cons, List.find?_cons]
    by_cases hgives : xkb.Gives keysym state key
    · by_cases hfake : key ∈ fakeKeys
      · rw [if_pos hgives, if_pos hfake, ih']
        by_cases hfallback : fallback = 0
        · simp [hgives, hfake, hfallback, hkey]
        · simp [hfake, hfallback]
      · simp [hgives, hfake]
    · rw [if_neg hgives, ih']
      simp [hgives]

/-- The first key of the map with a property is the least one. -/
theorem find_keycodes {p : KeyCode → Bool} (h : xkb.keycodes.find? p = some key) :
    xkb.Has key ∧ p key = true ∧ ∀ other, xkb.Has other → p other = true → key ≤ other := by
  obtain ⟨hp, before, after, heq, hbefore⟩ := List.find?_eq_some_iff_append.mp h
  have hsorted : xkb.keycodes.Pairwise (· < ·) := List.pairwise_lt_range'
  refine ⟨mem_keycodes.mp (List.mem_of_find?_eq_some h), hp, fun other hother hpother => ?_⟩
  have hmem := mem_keycodes.mpr hother
  rw [heq, List.pairwise_append, List.pairwise_cons] at hsorted
  rw [heq, List.mem_append, List.mem_cons] at hmem
  rcases hmem with hmem | rfl | hmem
  · have hnot := hbefore other hmem
    rw [hpother] at hnot
    cases hnot
  · exact Nat.le_refl _
  · exact Nat.le_of_lt (hsorted.2.1.1 other hmem)

/-- A keycode that is found is of a key of the map that gives the keysym, and if it is a fake one so
are the others that do, which come later. -/
theorem keycodeIn_found (hfound : xkb.keycodeIn keysym state = key) (hne : key ≠ 0) :
    xkb.Has key ∧ xkb.Gives keysym state key ∧
      (key ∈ fakeKeys → ∀ other, xkb.Has other → xkb.Gives keysym state other → other ∈ fakeKeys ∧
        key ≤ other) := by
  rw [keycodeIn, scan_eq (fun _ hk => (mem_keycodes.mp hk).ne_zero) 0, if_pos rfl] at hfound
  cases hreal : xkb.keycodes.find? fun key => xkb.Gives keysym state key ∧ key ∉ fakeKeys with
  | some real =>
    rw [hreal, Option.getD_some] at hfound
    subst hfound
    obtain ⟨hhas, hp, -⟩ := find_keycodes hreal
    obtain ⟨hgives, hfake⟩ := of_decide_eq_true hp
    exact ⟨hhas, hgives, fun h => absurd h hfake⟩
  | none =>
    rw [hreal, Option.getD_none] at hfound
    cases hfirst : xkb.keycodes.find? fun key => xkb.Gives keysym state key with
    | none =>
      rw [hfirst] at hfound
      exact absurd hfound.symm hne
    | some first =>
      rw [hfirst, Option.getD_some] at hfound
      subst hfound
      obtain ⟨hhas, hp, hleast⟩ := find_keycodes hfirst
      refine ⟨hhas, of_decide_eq_true hp, fun _ other hother hgives =>
        ⟨?_, hleast other hother (decide_eq_true hgives)⟩⟩
      by_contra hfake
      have hnot := List.find?_eq_none.mp hreal other (mem_keycodes.mpr hother)
      exact hnot (decide_eq_true ⟨hgives, hfake⟩)

/-- No key gives the keysym when the search finds none. -/
theorem keycodeIn_none (hnone : xkb.keycodeIn keysym state = 0) (hhas : xkb.Has key) :
    ¬xkb.Gives keysym state key := by
  intro hgives
  rw [keycodeIn, scan_eq (fun _ hk => (mem_keycodes.mp hk).ne_zero) 0, if_pos rfl] at hnone
  have hmem := mem_keycodes.mpr hhas
  cases hreal : xkb.keycodes.find? fun key => xkb.Gives keysym state key ∧ key ∉ fakeKeys with
  | some real =>
    rw [hreal, Option.getD_some] at hnone
    exact (find_keycodes hreal).1.ne_zero hnone
  | none =>
    rw [hreal, Option.getD_none] at hnone
    cases hfirst : xkb.keycodes.find? fun key => xkb.Gives keysym state key with
    | some first =>
      rw [hfirst, Option.getD_some] at hnone
      exact (find_keycodes hfirst).1.ne_zero hnone
    | none => exact List.find?_eq_none.mp hfirst key hmem (decide_eq_true hgives)

/-! ## The states -/

/-- Words with the same bits. -/
theorem eq_of_bits {a b : UInt32} (h : ∀ i < 32, a.toBitVec.getLsbD i = b.toBitVec.getLsbD i) :
    a = b := by
  apply UInt32.toBitVec_inj.mp
  ext i hi
  exact h i hi

/-- A toggle changes no bits but those of its mask, and so none outside of more bits than those. -/
theorem toggle_frame {m wide : UInt32}
    (hwide : ∀ i < 32, m.toBitVec.getLsbD i = true → wide.toBitVec.getLsbD i = true) :
    Keyboard.toggle state m &&& ~~~wide = state &&& ~~~wide := by
  apply eq_of_bits
  intro i hi
  have hsub := hwide i hi
  unfold Keyboard.toggle
  split <;> cases hm : m.toBitVec.getLsbD i <;> simp_all

theorem toggleBoth_frame (state mask : UInt32) :
    toggleBoth state mask &&& ~~~(ShiftMask ||| mask) = state &&& ~~~(ShiftMask ||| mask) := by
  apply eq_of_bits
  intro i hi
  unfold toggleBoth
  split <;> split <;> cases hs : ShiftMask.toBitVec.getLsbD i <;>
    cases hm : mask.toBitVec.getLsbD i <;> simp [hs, hm]

/-- The last state has both at their other values, if they are different bits. -/
theorem toggleBoth_eq (h : ShiftMask &&& mask = 0) :
    toggleBoth state mask = Keyboard.toggle (Keyboard.toggle state ShiftMask) mask := by
  have hdisjoint (i : Nat) : (ShiftMask.toBitVec.getLsbD i && mask.toBitVec.getLsbD i) = false := by
    have hbit := congrArg (fun word : UInt32 => word.toBitVec.getLsbD i) h
    simpa using hbit
  have hsame : Keyboard.toggle state ShiftMask &&& mask = state &&& mask := by
    apply eq_of_bits
    intro i hi
    have hbit := hdisjoint i
    unfold Keyboard.toggle
    split <;> cases hs : ShiftMask.toBitVec.getLsbD i <;> cases hm : mask.toBitVec.getLsbD i <;>
      simp_all
  rw [Keyboard.toggle, hsame, toggleBoth]
  congr 1
  apply eq_of_bits
  intro i hi
  have hbit := hdisjoint i
  unfold Keyboard.toggle
  split <;> cases hs : ShiftMask.toBitVec.getLsbD i <;> cases hm : mask.toBitVec.getLsbD i <;>
    simp_all

/-! ## The lookup -/

variable {keyboard new_state : UInt32}

/-- A key that the search finds gives the keysym, and only the two modifiers have changed. -/
theorem found_of_keycodeIn (hfound : xkb.keycodeIn keysym new_state = key) (hne : key ≠ 0)
    (hframe : new_state &&& ~~~(ShiftMask ||| mask) = state &&& ~~~(ShiftMask ||| mask)) :
    Found xkb keysym state mask key new_state := by
  obtain ⟨hhas, hgives, hfake⟩ := keycodeIn_found hfound hne
  exact ⟨hhas, hgives, hframe, hfake⟩

theorem shift_frame :
    Keyboard.toggle state ShiftMask &&& ~~~(ShiftMask ||| mask) =
      state &&& ~~~(ShiftMask ||| mask) :=
  toggle_frame fun i _ h => by simp [h]

theorem mask_frame :
    Keyboard.toggle state mask &&& ~~~(ShiftMask ||| mask) = state &&& ~~~(ShiftMask ||| mask) :=
  toggle_frame fun i _ h => by simp [h]

/-- The states that are tried, as far as none before it has a key. -/
theorem lorieKeysymToKeycode_found (hne : (xkb.lorieKeysymToKeycode keyboard keysym state).1 ≠ 0) :
    Found xkb keysym state (xkb.lorieGetLevelThreeMask keyboard)
      (xkb.lorieKeysymToKeycode keyboard keysym state).1
      (xkb.lorieKeysymToKeycode keyboard keysym state).2 := by
  unfold lorieKeysymToKeycode at hne ⊢
  generalize xkb.lorieGetLevelThreeMask keyboard = mask at hne ⊢
  dsimp only at hne ⊢
  split
  case isTrue h => exact found_of_keycodeIn rfl h rfl
  case isFalse h0 =>
    rw [if_neg h0] at hne
    split
    case isTrue h => exact found_of_keycodeIn rfl h shift_frame
    case isFalse h1 =>
      rw [if_neg h1] at hne
      split
      case isTrue h => exact absurd (by rw [if_pos h]) hne
      case isFalse h2 =>
        rw [if_neg h2] at hne
        split
        case isTrue h => exact found_of_keycodeIn rfl h mask_frame
        case isFalse h3 =>
          rw [if_neg h3] at hne
          exact found_of_keycodeIn rfl hne (toggleBoth_frame state mask)

/-- Without a key, no combination of the two modifiers gives the keysym. -/
theorem lorieKeysymToKeycode_none (hnone : (xkb.lorieKeysymToKeycode keyboard keysym state).1 = 0) :
    ∀ s ∈ states state (xkb.lorieGetLevelThreeMask keyboard), xkb.keycodeIn keysym s = 0 := by
  unfold lorieKeysymToKeycode at hnone
  unfold states
  generalize xkb.lorieGetLevelThreeMask keyboard = mask at hnone ⊢
  dsimp only at hnone
  split at hnone
  case isTrue h => exact absurd hnone h
  case isFalse h0 =>
    split at hnone
    case isTrue h => exact absurd hnone h
    case isFalse h1 =>
      rw [not_not] at h0 h1
      split at hnone
      case isTrue h2 =>
        rw [if_pos h2]
        simp [h0, h1]
      case isFalse h2 =>
        rw [if_neg h2]
        split at hnone
        case isTrue h => exact absurd hnone h
        case isFalse h3 =>
          rw [not_not] at h3
          have hlast : xkb.keycodeIn keysym (toggleBoth state mask) = 0 := hnone
          simp [h0, h1, h3, hlast]

/-- **The key that is found for a keysym is one of the map and gives it in the new state,** which
differs in Shift and Level 3 at most. It is a fake one only if no other key does, and there is none
only if no key does in any of the states with Shift and Level 3 at either of their values. -/
theorem lorieKeysymToKeycode_correct (xkb : Keymap) (keyboard : UInt32) (keysym : KeySym)
    (state : UInt32) :
    let found := xkb.lorieKeysymToKeycode keyboard keysym state
    let mask := xkb.lorieGetLevelThreeMask keyboard
    (found.1 ≠ 0 → Found xkb keysym state mask found.1 found.2) ∧
      (found.1 = 0 → ∀ s ∈ states state mask, ∀ key, xkb.Has key → ¬xkb.Gives keysym s key) ∧
      (ShiftMask &&& mask = 0 →
          toggleBoth state mask = Keyboard.toggle (Keyboard.toggle state ShiftMask) mask) := by
  intro found mask
  refine ⟨lorieKeysymToKeycode_found, fun hnone s hs key hhas => ?_, toggleBoth_eq⟩
  exact keycodeIn_none (lorieKeysymToKeycode_none hnone s hs) hhas

/-- A map with a letter, and with Level 3 on a fake key. -/
def letterAndLevelThree : Keymap where
  min_key_code := 38
  max_key_code := 92
  legal := by decide
  translateKeyCode key state :=
    if key = 38 then (1, if state &&& ShiftMask = 0 then 0x61 else 0x41)
    else if key = 92 then (0, XK_ISO_Level3_Shift)
    else (0, NoSymbol)
  keyAction key _ := if key = 92 then some ⟨.SetMods, false, 0x80⟩ else none
  modmap _ := 0

theorem lorieKeysymToKeycode_letter :
    Found letterAndLevelThree 0x41 0 0x80 38 1 ∧
      Found letterAndLevelThree XK_ISO_Level3_Shift 0 0x80 92 0 ∧
      ∀ s ∈ states 0 0x80, ∀ key, letterAndLevelThree.Has key →
        ¬letterAndLevelThree.Gives 0x42 s key := by
  refine ⟨?_, ?_, ?_⟩
  · exact (lorieKeysymToKeycode_correct letterAndLevelThree 0 0x41 0).1 (by decide +kernel)
  · exact (lorieKeysymToKeycode_correct letterAndLevelThree 0 XK_ISO_Level3_Shift 0).1
      (by decide +kernel)
  · exact (lorieKeysymToKeycode_correct letterAndLevelThree 0 0x42 0).2.1 (by decide +kernel)

/-! ## The map of the server -/

/-- The two views of the keyboard agree on what a key gives. -/
theorem gives_toKeymap (xkb : XkbDesc) (keysym : KeySym) (state : UInt32) (key : KeyCode) :
    decide (xkb.toKeymap.Gives keysym state key) = xkb.gives keysym state key := by
  unfold XkbDesc.gives
  dsimp only
  split
  case isTrue h => exact decide_eq_false fun hgives => hgives.1 h
  case isFalse h =>
    rw [beq_eq_decide]
    exact decide_eq_decide.mpr (and_iff_right h)

/-- The search that the keyboard was modelled with is this loop. -/
theorem keycodeIn_toKeymap (xkb : XkbDesc) (keysym : KeySym) (state : UInt32) :
    xkb.toKeymap.keycodeIn keysym state = (xkb.keysymToKeycode keysym state).getD 0 := by
  have hfake (key : KeyCode) : decide (xkb.toKeymap.Gives keysym state key ∧ key ∉ fakeKeys) =
      (xkb.gives keysym state key && !fakeKeys.contains key) := by
    rw [Bool.decide_and, gives_toKeymap]
    simp
  rw [keycodeIn, scan_eq (fun _ hk => (mem_keycodes.mp hk).ne_zero) 0, if_pos rfl,
    XkbDesc.keysymToKeycode]
  simp only [hfake, gives_toKeymap]
  cases hreal : xkb.keycodes.find? fun key => xkb.gives keysym state key &&
    !fakeKeys.contains key with
  | some real =>
    have hreal' :
        xkb.toKeymap.keycodes.find?
          (fun key => xkb.gives keysym state key && !fakeKeys.contains key) = some real :=
      hreal
    rw [hreal']
    rfl
  | none =>
    have hreal' :
        xkb.toKeymap.keycodes.find?
          (fun key => xkb.gives keysym state key && !fakeKeys.contains key) = none :=
      hreal
    rw [hreal']
    rfl

/-- The lookup in the session is the lookup in the keymap. -/
theorem keysymToKeycode_eq (xkb : XkbDesc) (keysym : KeySym) (state : UInt32) :
    xkb.keysymToKeycode keysym state =
      if xkb.toKeymap.keycodeIn keysym state = 0 then none else some
        (xkb.toKeymap.keycodeIn keysym state) := by
  rw [keycodeIn_toKeymap]
  cases hkey : xkb.keysymToKeycode keysym state with
  | none => rfl
  | some key =>
    have hlegal := legal_of_mem_keycodes (keysymToKeycode_mem hkey)
    rw [Option.getD_some, if_neg]
    exact fun hzero => absurd (hzero ▸ hlegal.1) (by decide)

/-- The modifiers that a key sets. -/
theorem setMods_eq (xkb : XkbDesc) (key : KeyCode) (state : UInt32) :
    xkb.setMods key state =
      match xkb.keyAction key state with
      | none => 0
      | some act =>
        if act.type ≠ .SetMods then 0
        else if act.useModMapMods then (xkb.keys key).modmap.toUInt32
        else act.mask.toUInt32 := by
  unfold XkbDesc.setMods XkbDesc.actionMods
  cases xkb.keyAction key state with
  | none => rfl
  | some act =>
    dsimp only
    rw [ite_not]

/-- The two views agree on the mask of the third level. -/
theorem lorieGetLevelThreeMask_toKeymap (kb : Keyboard) :
    kb.xkb.toKeymap.lorieGetLevelThreeMask kb.state = kb.lorieGetLevelThreeMask := by
  unfold lorieGetLevelThreeMask Keyboard.lorieGetLevelThreeMask
  dsimp only
  rw [keysymToKeycode_eq, keysymToKeycode_eq]
  generalize kb.xkb.toKeymap.keycodeIn XK_ISO_Level3_Shift _ = levelThree
  generalize kb.xkb.toKeymap.keycodeIn XK_Mode_switch _ = modeSwitch
  by_cases h : levelThree = 0
  · rw [if_pos h, if_pos h]
    by_cases h' : modeSwitch = 0
    · rw [if_pos h', if_pos h']
      rfl
    · rw [if_neg h', if_neg h']
      exact (setMods_eq kb.xkb modeSwitch _).symm
  · rw [if_neg h, if_neg h, if_neg h]
    exact (setMods_eq kb.xkb levelThree _).symm

/-- What the keyboard was modelled to find is what this lookup finds. -/
theorem lorieKeysymToKeycode_toKeymap (kb : Keyboard) (keysym : KeySym) (state : UInt32) :
    kb.lorieKeysymToKeycode keysym state =
      if (kb.xkb.toKeymap.lorieKeysymToKeycode kb.state keysym state).1 = 0 then none
      else some (kb.xkb.toKeymap.lorieKeysymToKeycode kb.state keysym state) := by
  unfold Keyboard.lorieKeysymToKeycode lorieKeysymToKeycode
  rw [lorieGetLevelThreeMask_toKeymap]
  generalize kb.lorieGetLevelThreeMask = mask
  dsimp only
  rw [keysymToKeycode_eq, keysymToKeycode_eq, keysymToKeycode_eq, keysymToKeycode_eq]
  rw [← toggleBoth]
  by_cases h1 : kb.xkb.toKeymap.keycodeIn keysym state = 0
  · by_cases h2 : kb.xkb.toKeymap.keycodeIn keysym (Keyboard.toggle state ShiftMask) = 0
    · by_cases hmask : mask = 0
      · simp [h1, h2, hmask]
      · by_cases h3 : kb.xkb.toKeymap.keycodeIn keysym (Keyboard.toggle state mask) = 0
        · by_cases h4 : kb.xkb.toKeymap.keycodeIn keysym (toggleBoth state mask) = 0 <;>
            simp [h1, h2, hmask, h3, h4]
        · simp [h1, h2, hmask, h3]
    · simp [h1, h2]
  · simp [h1]

end WinEmulator.Lorie.InputXKB.Keymap
