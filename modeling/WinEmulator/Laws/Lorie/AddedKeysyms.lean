import WinEmulator.Laws.Lorie.TypedKeysym
import WinEmulator.Lib.Machine
import WinEmulator.Lib.Recency

/-!
# Keysyms that are pressed and keys that were added

Only a key that has no groups or that was taken from the end of the list is mapped, so the keys that
stay in the list are mapped as they were. A key that is added or pressed comes to the front. Whether
a key that is taken is still held does not matter to the list: the keysym that is stored for the key
is replaced when the key is pressed again.
-/

set_option autoImplicit false

namespace WinEmulator.Lorie.InputXKB

open WinEmulator.Lib Recency

/-! ## Sessions -/

/-- A call of `lorieKeysymKeyboardEvent`, with the modifiers and the keys that are down when it
comes. -/
structure Call where
  keysym : KeySym
  down : Bool
  state : UInt32
  isDown : KeyCode → Bool

/-- The keyboard, and the keys that were used or added, the last one first. -/
structure Session where
  keyboard : Keyboard
  uses : List KeyCode

/-- The key that is added for a keysym. -/
def Keyboard.addedKey (kb : Keyboard) (keysym : KeySym) : Option KeyCode :=
  match kb.findKey keysym with
  | some _ => none
  | none => (kb.lorieAddKeysym keysym).1

def Keyboard.at (kb : Keyboard) (c : Call) : Keyboard :=
  { kb with state := c.state, down := c.isDown }

/-- No call is for `NoSymbol`. -/
def Session.call (s : Session) (c : Call) : Option Session :=
  if c.keysym = NoSymbol then none
  else
    let (events, keyboard) := (s.keyboard.at c).lorieKeysymKeyboardEvent c.keysym c.down
    let added := if c.down then (s.keyboard.at c).addedKey c.keysym else none
    some ⟨keyboard, usedKeys events ++ added.toList ++ s.uses⟩

/-- No keysym is pressed at two keys. The keys that were added are different, mapped to the keysyms
they were added for and in the order in which they were last used or added, and the one that is
taken is the last of them. -/
structure Consistent (s : Session) : Prop where
  pressed : ∀ i j, s.keyboard.pressedKeys i = s.keyboard.pressedKeys j →
    s.keyboard.pressedKeys i ≠ NoSymbol → i = j
  distinct : (s.keyboard.addedKeysyms.map Prod.fst).Nodup
  mapped : ∀ added ∈ s.keyboard.addedKeysyms, 0 < s.keyboard.xkb.numGroups added.1 ∧
    (s.keyboard.xkb.keys added.1).syms.getD 0 NoSymbol = added.2
  ordered : Recent s.uses (s.keyboard.addedKeysyms.map Prod.fst)
  reused : s.keyboard.getReusableKeycode =
    (s.keyboard.addedKeysyms.getLast?.map Prod.fst,
      { s.keyboard with addedKeysyms := s.keyboard.addedKeysyms.dropLast })

/-! ## The invariant -/

/-- Nobody has changed a key that was added. -/
structure Kept (uses : List KeyCode) (kb : Keyboard) : Prop where
  pressed : ∀ i j, kb.pressedKeys i = kb.pressedKeys j → kb.pressedKeys i ≠ NoSymbol → i = j
  ordered : Recent uses (kb.addedKeysyms.map Prod.fst)
  reusable : ∀ added ∈ kb.addedKeysyms, kb.reusable added = true

variable {kb kb' : Keyboard} {uses : List KeyCode} {keysym : KeySym}

/-! ### Keys that are taken -/

/-- When every added key can be reused, the oldest is. -/
theorem oldestReusable_eq {added : List (KeyCode × KeySym)}
    (h : ∀ a ∈ added, kb.reusable a = true) :
    kb.oldestReusable added = (added.head?.map Prod.fst, added.tail) := by
  cases added with
  | nil => rfl
  | cons last rest =>
    rw [Keyboard.oldestReusable, if_pos (h last List.mem_cons_self)]
    rfl

/-- The last key is taken, and nothing else. -/
theorem getReusableKeycode_eq (h : ∀ added ∈ kb.addedKeysyms, kb.reusable added = true) :
    kb.getReusableKeycode =
      (kb.addedKeysyms.getLast?.map Prod.fst,
        { kb with addedKeysyms := kb.addedKeysyms.dropLast }) := by
  have holdest := oldestReusable_eq fun added hadded => h added (List.mem_reverse.mp hadded)
  rw [List.head?_reverse, List.tail_reverse] at holdest
  rw [Keyboard.getReusableKeycode, holdest]
  simp only [List.reverse_reverse]

/-- The invariant makes the session consistent. -/
theorem Kept.consistent {s : Session} (h : Kept s.uses s.keyboard) : Consistent s where
  pressed := h.pressed
  distinct := h.ordered.nodup
  mapped added hadded := by
    have hreusable := h.reusable added hadded
    rw [Keyboard.reusable, Bool.and_eq_true, Bool.and_eq_true, decide_eq_true_eq, beq_iff_eq]
      at hreusable
    exact hreusable.1
  ordered := h.ordered
  reused := getReusableKeycode_eq h.reusable

/-- A key with groups is not one that is free, and the one that is taken is no longer in the
list. -/
theorem freeKeycode_spec (h : Kept uses kb) {key : Option KeyCode}
    (hfree : kb.freeKeycode = (key, kb')) :
    ∃ rest, kb' = { kb with addedKeysyms := rest } ∧ rest.Sublist kb.addedKeysyms ∧
      ∀ taken, key = some taken → taken ∉ rest.map Prod.fst := by
  unfold Keyboard.freeKeycode at hfree
  split at hfree
  case h_1 free hfound =>
    cases hfree
    refine ⟨kb.addedKeysyms, rfl, List.Sublist.refl _, fun taken htaken hmem => ?_⟩
    obtain rfl := Option.some.inj htaken
    obtain ⟨added, hadded, rfl⟩ := List.mem_map.mp hmem
    have hgroups := (h.consistent (s := ⟨kb, uses⟩)).mapped added hadded
    have hzero := List.find?_some hfound
    exact absurd (of_decide_eq_true hzero) (Nat.ne_of_gt hgroups.1)
  case h_2 =>
    rw [getReusableKeycode_eq h.reusable] at hfree
    obtain ⟨rfl, rfl⟩ := Prod.mk.inj hfree
    refine ⟨kb.addedKeysyms.dropLast, rfl, List.dropLast_sublist _, fun taken htaken hmem => ?_⟩
    obtain ⟨last, hlast, rfl⟩ := Option.map_eq_some_iff.mp htaken
    have hnodup := h.ordered.nodup
    rw [← List.dropLast_append_getLast? last hlast, List.map_append, List.nodup_append'] at hnodup
    exact hnodup.2.2 hmem (by simp)

/-! ### Keys that are mapped -/

/-- Mapping another key does not touch an added one. -/
theorem reusable_mapKey_of_ne {key : KeyCode} {lower upper : KeySym} {added : KeyCode × KeySym}
    (hne : added.1 ≠ key)
    (hxkb : kb'.xkb = kb.xkb.mapKey key lower upper) : kb'.reusable added = kb.reusable added := by
  simp only [Keyboard.reusable, XkbDesc.numGroups, hxkb, XkbDesc.mapKey, Function.update_of_ne hne]
  cases kb.xkb.names with
  | none => rfl
  | some names =>
    simp only [Option.map_some, Function.update_of_ne hne]
    rfl

theorem reusable_mapKey_self {key : KeyCode} {lower upper : KeySym}
    (hxkb : kb'.xkb = kb.xkb.mapKey key lower upper) :
    kb'.reusable (key, lower) = true := by
  have hgroups (info : UInt8) : ((info &&& 0xf0) ||| 1) &&& 0x0f = 1 := by
    have hbits (info : BitVec 8) : ((info &&& 0xf0) ||| 1) &&& 0x0f = 1 := by
      rw [BitVec.and_or_distrib_right, BitVec.and_assoc]
      simp
    exact UInt8.toBitVec_inj.mp (hbits info.toBitVec)
  simp only [Keyboard.reusable, XkbDesc.numGroups, hxkb, XkbDesc.mapKey, Function.update_self,
    hgroups]
  cases kb.xkb.names with
  | none => simp
  | some names => simp [Keyboard.addedName]

/-- Adding a keysym keeps the invariant. -/
theorem lorieAddKeysym_kept (h : Kept uses kb) (keysym : KeySym) :
    Kept ((kb.lorieAddKeysym keysym).1.toList ++ uses) (kb.lorieAddKeysym keysym).2 := by
  obtain ⟨key, kb', hfree⟩ : ∃ key kb', kb.freeKeycode = (key, kb') := ⟨_, _, rfl⟩
  obtain ⟨rest, rfl, hrest, hnot⟩ := freeKeycode_spec h hfree
  have hordered : Recent uses (rest.map Prod.fst) := h.ordered.sublist (hrest.map _)
  rw [Keyboard.lorieAddKeysym, hfree]
  cases key with
  | none => exact ⟨h.pressed, hordered, fun added hadded => h.reusable added (hrest.subset hadded)⟩
  | some key =>
    refine ⟨h.pressed, hordered.add (hnot key rfl),
      List.forall_mem_cons.mpr ⟨reusable_mapKey_self rfl, fun added hadded => ?_⟩⟩
    have hne : added.1 ≠ key := fun heq => hnot key rfl (heq ▸ List.mem_map_of_mem hadded)
    rw [reusable_mapKey_of_ne hne rfl]
    exact h.reusable added (hrest.subset hadded)

theorem chooseKey_keyboard (kb : Keyboard) (keysym : KeySym) :
    (kb.chooseKey keysym).2 = (kb.findOrAddKey keysym).2 := by
  unfold Keyboard.chooseKey
  split
  case h_1 h => rw [h]
  case h_2 h => rw [h]

/-- Choosing a key keeps the invariant. -/
theorem chooseKey_kept (h : Kept uses kb) (keysym : KeySym) :
    Kept ((kb.addedKey keysym).toList ++ uses) (kb.chooseKey keysym).2 := by
  rw [chooseKey_keyboard, Keyboard.findOrAddKey, Keyboard.addedKey]
  cases kb.findKey keysym with
  | some found => exact h
  | none =>
    have hadd := lorieAddKeysym_kept h keysym
    dsimp only
    split
    case h_1 hnone =>
      rw [hnone] at hadd ⊢
      exact hadd
    case h_2 hsome =>
      rw [hsome] at hadd ⊢
      exact hadd

/-! ### Keys that are pressed -/

/-- A key that was added comes to the front, and nothing changes for another one. -/
theorem vncOnKeyUsed_kept (h : Kept uses kb) (keycode : KeyCode) :
    Kept (keycode :: uses) (kb.vncOnKeyUsed keycode) := by
  unfold Keyboard.vncOnKeyUsed
  split
  case h_1 hnone =>
    refine ⟨h.pressed, h.ordered.skip fun hmem => ?_, h.reusable⟩
    obtain ⟨added, hadded, rfl⟩ := List.mem_map.mp hmem
    exact List.find?_eq_none.mp hnone added hadded (decide_eq_true rfl)
  case h_2 used hused =>
    have hkeycode : used.1 = keycode := by simpa using List.find?_some hused
    have hrest :
        (kb.addedKeysyms.eraseP (·.1 = keycode)).map Prod.fst =
          (kb.addedKeysyms.map Prod.fst).erase keycode := by
      rw [List.erase_eq_eraseP', List.eraseP_map]
      rfl
    refine ⟨h.pressed, ?_,
      List.forall_mem_cons.mpr
      ⟨h.reusable used (List.mem_of_find?_eq_some hused), fun added hadded => ?_⟩⟩
    · rw [List.map_cons, hkeycode, hrest]
      exact h.ordered.use keycode
    · exact h.reusable added (List.eraseP_subset hadded)

/-- The keysym is taken from all other keys, so it stays at one. -/
theorem storePressed_kept (h : Kept uses kb) (keycode : KeyCode) (keysym : KeySym) :
    Kept uses (kb.storePressed keycode keysym) := by
  refine ⟨fun i j heq hsome => ?_, h.ordered, h.reusable⟩
  have hstored (i : KeyCode) (hi : i ≠ keycode)
    (hsome : (kb.storePressed keycode keysym).pressedKeys i ≠ NoSymbol) :
      (kb.storePressed keycode keysym).pressedKeys i = kb.pressedKeys i ∧
          kb.pressedKeys i ≠ keysym := by
    simp only [Keyboard.storePressed, if_neg hi] at hsome ⊢
    split at hsome
    case isTrue => exact absurd rfl hsome
    case isFalse hne => exact ⟨if_neg hne, hne⟩
  have hkeycode : (kb.storePressed keycode keysym).pressedKeys keycode = keysym := if_pos rfl
  by_cases hi : i = keycode
  · by_cases hj : j = keycode
    · rw [hi, hj]
    · obtain ⟨hsame, hne⟩ := hstored j hj (heq ▸ hsome)
      rw [hi, hkeycode, hsame] at heq
      exact absurd heq.symm hne
  · obtain ⟨hsame, hne⟩ := hstored i hi hsome
    rw [hsame] at heq hsome
    by_cases hj : j = keycode
    · rw [hj, hkeycode] at heq
      exact absurd heq hne
    · rw [(hstored j hj (heq ▸ hsome)).1] at heq
      exact h.pressed i j heq hsome

/-- A release keeps the invariant. -/
theorem release_kept (h : Kept uses kb) (keysym : KeySym) : Kept uses (kb.release keysym).2 := by
  unfold Keyboard.release
  split
  · exact h
  case h_2 released hfound =>
    refine ⟨fun i j heq hsome => ?_, h.ordered, h.reusable⟩
    dsimp only at heq hsome
    have hne {i : KeyCode} (hi : Function.update kb.pressedKeys released NoSymbol i ≠ NoSymbol) :
        i ≠ released :=
      fun heq => hi (heq ▸ Function.update_self ..)
    have hj := hne (heq ▸ hsome)
    rw [Function.update_of_ne (hne hsome)] at heq hsome
    rw [Function.update_of_ne hj] at heq
    exact h.pressed i j heq hsome

/-! ### Keys that are queued -/

theorem usedKeys_release (kb : Keyboard) (keysym : KeySym) :
    usedKeys (kb.release keysym).1 = [] := by
  unfold Keyboard.release
  split
  · rfl
  case h_2 released hfound =>
    refine usedKeys_eq_nil fun e he hpress => ?_
    have hmem : e ∈ [Event.mk false released .keycode] := (List.mem_filter.mp he).1
    rw [List.mem_singleton.mp hmem] at hpress
    cases hpress

/-- A press keeps the invariant. -/
theorem press_kept (h : Kept uses kb) (keysym : KeySym) :
    Kept (usedKeys (kb.press keysym).1 ++ (kb.addedKey keysym).toList ++ uses)
      (kb.press keysym).2 := by
  have hchosen := chooseKey_kept h keysym
  obtain ⟨hused, hkb⟩ | ⟨keycode, -, hused, hkb⟩ := press_cases kb keysym
  · rw [hused, hkb]
    exact hchosen
  · rw [hused, hkb]
    exact storePressed_kept (vncOnKeyUsed_kept hchosen keycode) keycode keysym

/-! ## Runs -/

/-- **Step lemma.** Every call of the session keeps the invariant. -/
theorem call_kept {s s' : Session} {c : Call} (h : Kept s.uses s.keyboard)
    (hcall : s.call c = some s') :
    Kept s'.uses s'.keyboard := by
  have hat : Kept s.uses (s.keyboard.at c) := ⟨h.pressed, h.ordered, h.reusable⟩
  unfold Session.call at hcall
  split at hcall
  · cases hcall
  cases hdown : c.down with
  | true =>
    rw [hdown] at hcall
    obtain rfl := Option.some.inj hcall
    exact press_kept hat c.keysym
  | false =>
    rw [hdown] at hcall
    obtain rfl := Option.some.inj hcall
    show Kept (usedKeys ((s.keyboard.at c).release c.keysym).1 ++ [] ++ s.uses)
      ((s.keyboard.at c).release c.keysym).2
    rw [usedKeys_release]
    exact release_kept hat c.keysym

/-- **The bookkeeping of keysyms stays consistent**, whatever keysyms are pressed and released and
whatever modifiers and keys are down at each call. -/
theorem keysyms_consistent (xkb : XkbDesc) (state : UInt32) (isDown : KeyCode → Bool)
    (calls : List Call) (s : Session)
    (h : run Session.call ⟨⟨xkb, state, isDown, fun _ => NoSymbol, []⟩, []⟩ calls = some s) :
    Consistent s := by
  have hstart : Kept [] ⟨xkb, state, isDown, fun _ => NoSymbol, []⟩ :=
    ⟨fun _ _ _ hsome => absurd rfl hsome, Recent.nil [], nofun⟩
  have hkept : Kept s.uses s.keyboard := run_invariant call_kept hstart h
  exact hkept.consistent

/-- The letter and Shift, and two keys that are free. -/
def twoFree : XkbDesc where
  min_key_code := 24
  max_key_code := 27
  legal := by decide
  types := lettersOnly.types
  keys := fun key => if key ≤ 25 then lettersOnly.keys key else ⟨0, 0, [], [], none, 0⟩
  names := none

/-- Two keys are added for B and c, b is typed again, and d takes the key of c while that is still
held. -/
theorem keysyms_consistent_evicted :
    ∃ s, run Session.call ⟨⟨twoFree, 0, fun _ => false, fun _ => NoSymbol, []⟩, []⟩
        [⟨0x42, true, 0, fun _ => false⟩, ⟨0x42, false, 0, fun _ => false⟩,
          ⟨0x63, true, 0, fun _ => false⟩,
          ⟨0x62, true, 0, fun _ => false⟩, ⟨0x64, true, 0, fun _ => false⟩] = some s ∧
      s.keyboard.addedKeysyms = [(26, 0x64), (27, 0x62)] ∧ Consistent s := by
  let calls : List Call := [⟨0x42, true, 0, fun _ => false⟩, ⟨0x42, false, 0, fun _ => false⟩,
    ⟨0x63, true, 0, fun _ => false⟩, ⟨0x62, true, 0, fun _ => false⟩,
      ⟨0x64, true, 0, fun _ => false⟩]
  let start : Session := ⟨⟨twoFree, 0, fun _ => false, fun _ => NoSymbol, []⟩, []⟩
  have hadded :
      (run Session.call start calls).map (·.keyboard.addedKeysyms) =
        some [(26, 0x64), (27, 0x62)] := by
    decide +kernel
  obtain ⟨s, hs, hlist⟩ := Option.map_eq_some_iff.mp hadded
  exact ⟨s, hs, hlist, keysyms_consistent _ _ _ calls s hs⟩

end WinEmulator.Lorie.InputXKB
