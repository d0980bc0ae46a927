import WinEmulator.X11.TouchSender

/-!
# Touches that are ended

A motion is to end the touches that are not in it, in case Android did not say that they went up.
But the array it goes by has room for ten touches and is cleared for those in the motion only, so a
touch that was once in a motion is never ended that way again, and one with a higher id throws; and
the end of a gesture ends the pointer of the event only.
-/

set_option autoImplicit false

namespace WinEmulator.X11.TouchSender

open WinEmulator.Lib

/-! ## The array -/

/-- The array has ten entries. -/
theorem set_eq_some {pointers pointers' : Pointers} {id : Nat} {value : Bool} :
    pointers.set id value = some pointers' ↔
      ∃ h : id < 10, Function.update pointers ⟨id, h⟩ value = pointers' := by
  unfold Pointers.set
  split
  case isTrue h => simp [h]
  case isFalse h => simp [h]

/-- A loop over pointers ends when all of them have room in the array. -/
theorem setAll_eq_some {ids : List Nat} (value : Bool) (pointers : Pointers) :
    (∀ id ∈ ids, id < 10) ↔ ∃ pointers', Pointers.setAll value ids pointers = some pointers' := by
  induction ids generalizing pointers with
  | nil => exact iff_of_true nofun ⟨_, rfl⟩
  | cons id ids ih =>
    simp only [List.forall_mem_cons, Pointers.setAll, Option.bind_eq_some_iff, set_eq_some]
    constructor
    · rintro ⟨hid, hids⟩
      obtain ⟨pointers', h⟩ := (ih _).mp hids
      exact ⟨pointers', _, ⟨hid, rfl⟩, h⟩
    · rintro ⟨pointers', _, ⟨hid, rfl⟩, h⟩
      exact ⟨hid, (ih _).mpr ⟨pointers', h⟩⟩

theorem setAll_apply {ids : List Nat} {value : Bool} {pointers pointers' : Pointers}
    (h : Pointers.setAll value ids pointers = some pointers') (p : Fin 10) :
    pointers' p = if p.val ∈ ids then value else pointers p := by
  induction ids generalizing pointers with
  | nil =>
    cases h
    rfl
  | cons id ids ih =>
    obtain ⟨mid, hset, hrest⟩ := Option.bind_eq_some_iff.mp h
    obtain ⟨hid, rfl⟩ := set_eq_some.mp hset
    rw [ih hrest]
    by_cases hp : p.val = id
    · subst hp
      simp
    · have hne : p ≠ ⟨id, hid⟩ := fun he => hp (congrArg Fin.val he)
      simp [hp, Function.update_of_ne hne]

/-! ## The server -/

/-- Updates make their pointers active. -/
theorem active_updates (pointers : List Pointer) (r : RenderData) (active : Active) (id : Nat) :
    (pointers.map (Touch.at .update · r)).foldl handleTouchEvent active id =
      (decide (id ∈ pointers.map Pointer.id) || active id) := by
  induction pointers generalizing active with
  | nil => rfl
  | cons p pointers ih =>
    rw [List.map_cons, List.foldl_cons, ih]
    show (decide (id ∈ pointers.map Pointer.id) || Function.update active p.id true id) = _
    by_cases hid : id = p.id
    · subst hid
      simp
    · simp [hid]

/-- Finishes make theirs inactive. -/
theorem active_finishes (ids : List (Fin 10)) (active : Active) (id : Nat) :
    (ids.map fun p => Touch.mk .finish p.val 0 0).foldl handleTouchEvent active id =
      (!decide (id ∈ ids.map Fin.val) && active id) := by
  induction ids generalizing active with
  | nil => simp
  | cons p ids ih =>
    rw [List.map_cons, List.foldl_cons, ih]
    show (!decide (id ∈ ids.map Fin.val) && Function.update active p.val false id) = _
    by_cases hid : id = p.val
    · subst hid
      simp
    · simp [hid]

/-! ## Events -/

variable {r : RenderData} {s s' : State} {e : MotionEvent}

/-- A motion goes through when all its pointers have room in the array. -/
theorem sendTouchEvent_motion (hmotion : e.action.isMotion = true) (pointers : Pointers) :
    (∃ sent, sendTouchEvent e r pointers = some sent) ↔ ∀ id ∈ e.ids, id < 10 := by
  simp only [sendTouchEvent, hmotion, if_true, Option.bind_eq_some_iff, Option.map_eq_some_iff]
  constructor
  · rintro ⟨_, cleared, hcleared, -⟩
    exact (setAll_eq_some false pointers).mpr ⟨cleared, hcleared⟩
  · intro hids
    obtain ⟨cleared, hcleared⟩ := (setAll_eq_some false pointers).mp hids
    obtain ⟨moved, hmoved⟩ := (setAll_eq_some true cleared).mp hids
    exact ⟨_, cleared, hcleared, moved, hmoved, rfl⟩

/-- After it, a touch outside it is active if it was and either has no room in the array or was in a
motion before. -/
theorem step_motion (hmotion : e.action.isMotion = true) (h : step r s e = some s') :
    (∀ p, s'.pointers p = (decide (p.val ∈ e.ids) || s.pointers p)) ∧
      (∀ id, id ∉ e.ids →
        (s'.active id = true ↔ s.active id = true ∧ ∀ h : id < 10, s.pointers ⟨id, h⟩ = true)) ∧
      s'.moved = e.ids ++ s.moved := by
  obtain ⟨⟨pointers, touches⟩, hsent, rfl⟩ := Option.map_eq_some_iff.mp h
  simp only [sendTouchEvent, hmotion, if_true, Option.bind_eq_some_iff, Option.map_eq_some_iff,
    Prod.mk.injEq] at hsent
  obtain ⟨cleared, hcleared, moved, hmoved, rfl, rfl⟩ := hsent
  have happly : ∀ p, moved p = (decide (p.val ∈ e.ids) || s.pointers p) := fun p => by
    rw [setAll_apply hmoved, setAll_apply hcleared]
    by_cases hp : p.val ∈ e.ids <;> simp [hp]
  refine ⟨happly, fun id hid => ?_, by simp only [hmotion, if_true]⟩
  have hends : id ∈ ((List.finRange 10).filter fun p => !moved p).map Fin.val ↔
      ∃ h : id < 10, s.pointers ⟨id, h⟩ = false := by
    simp only [List.mem_map, List.mem_filter, List.mem_finRange, true_and, Bool.not_eq_true',
      happly, Bool.or_eq_false_iff,
      decide_eq_false_iff_not]
    constructor
    · rintro ⟨p, ⟨-, hp⟩, rfl⟩
      exact ⟨p.isLt, hp⟩
    · rintro ⟨hlt, hp⟩
      exact ⟨⟨id, hlt⟩, ⟨hid, hp⟩, rfl⟩
  simp only [List.foldl_append, active_finishes, active_updates]
  rw [MotionEvent.ids] at hid
  simp only [hid, decide_false, Bool.false_or, Bool.and_eq_true, Bool.not_eq_true',
    decide_eq_false_iff_not, hends]
  rw [and_comm]
  refine and_congr_right fun _ => ?_
  simp

/-- Every other event goes through. -/
theorem step_action (hmotion : e.action.isMotion = false) :
    ∃ s', step r s e = some s' ∧ s'.pointers = s.pointers ∧ s'.moved = s.moved := by
  have hsent : ∃ touches, sendTouchEvent e r s.pointers = some (s.pointers, touches) := by
    simp only [sendTouchEvent, hmotion, Bool.false_eq_true, if_false]
    split
    · exact ⟨_, rfl⟩
    · exact ⟨_, rfl⟩
  obtain ⟨touches, hsent⟩ := hsent
  refine ⟨_, Option.map_eq_some_iff.mpr ⟨_, hsent, rfl⟩, rfl, ?_⟩
  simp only [hmotion, Bool.false_eq_true, if_false]

/-- The end of a gesture ends one touch. -/
theorem step_finish (haction : e.action = .up ∨ e.action = .cancel) (h : step r s e = some s') :
    (∀ id, s'.active id = (decide (id ≠ e.actionPointer.id) && s.active id)) ∧
      s'.gesture = e.actionPointer.id :: s.gesture := by
  have hmotion : e.action.isMotion = false := by
    rcases haction with h | h <;> rw [h] <;> rfl
  have hdown : ¬ (e.action = .down ∨ e.action = .pointerDown) := by
    rcases haction with h | h <;> rw [h] <;> decide
  have hne : e.action ≠ .down := fun h => hdown (.inl h)
  simp only [step, sendTouchEvent, hmotion, Bool.false_eq_true, if_false, if_neg hdown,
    Option.map_some,
    Option.some.injEq] at h
  subst h
  refine ⟨fun id => ?_, by simp [MotionEvent.sentIds, hmotion, hne]⟩
  show Function.update (Function.update s.active e.actionPointer.id true) e.actionPointer.id
    false id = _
  by_cases hid : id = e.actionPointer.id
  · subst hid
    simp
  · simp [hid]

/-! ## Runs -/

/-- The array says which touches were in a motion. -/
def Mirrors (s : State) : Prop := ∀ p, s.pointers p = decide (p.val ∈ s.moved)

theorem mirrors_start : Mirrors start := fun _ => rfl

/-- **Step lemma.** The array mirrors what the server was sent. -/
theorem Mirrors.step (hmirrors : Mirrors s) (h : step r s e = some s') : Mirrors s' := by
  intro p
  cases hmotion : e.action.isMotion with
  | true =>
    obtain ⟨hpointers, -, hmoved⟩ := step_motion hmotion h
    rw [hpointers, hmirrors p, hmoved]
    simp
  | false =>
    obtain ⟨mid, hmid, hpointers, hmoved⟩ := step_action (r := r) (s := s) hmotion
    obtain rfl := Option.some.inj (hmid.symm.trans h)
    rw [hpointers, hmoved]
    exact hmirrors p

/-- What is to hold of an event: it throws nothing, a move ends the touches outside it, and the end
of a gesture all of its own. -/
structure Ended (r : RenderData) (s : State) (e : MotionEvent) : Prop where
  returns : ∃ s', step r s e = some s'
  outside : e.action = .move → ∀ s', step r s e = some s' → ∀ id, id ∉ e.ids → s'.active id = false
  gesture : e.action = .up ∨ e.action = .cancel →
    ∀ s', step r s e = some s' → ∀ id ∈ s'.gesture, s'.active id = false

/-- The pointers of a motion have ids below ten, and so do the touches that are active outside a
move, and none of these was in a motion before. No touch of a gesture but the event's own is active
at its end. -/
def EndsAll (s : State) (e : MotionEvent) : Prop :=
  match e.action with
  | .move =>
    (∀ id ∈ e.ids, id < 10) ∧ ∀ id, id ∉ e.ids → s.active id = true → id < 10 ∧ id ∉ s.moved
  | .hoverMove | .hoverEnter | .hoverExit => ∀ id ∈ e.ids, id < 10
  | .up | .cancel => ∀ id ∈ s.gesture, s.active id = true → id = e.actionPointer.id
  | .down | .pointerDown | .pointerUp => True

/-- The handler returns for the pointers that the array has room for. -/
theorem returns_iff (hmotion : e.action.isMotion = true) :
    (∃ s', step r s e = some s') ↔ ∀ id ∈ e.ids, id < 10 := by
  rw [← sendTouchEvent_motion (r := r) hmotion s.pointers]
  simp only [step, Option.map_eq_some_iff]
  exact ⟨fun ⟨_, sent, h, _⟩ => ⟨sent, h⟩, fun ⟨sent, h⟩ => ⟨_, sent, h, rfl⟩⟩

/-- When a move ends every touch that is over. -/
theorem ended_move_iff (hmirrors : Mirrors s) (haction : e.action = .move) :
    Ended r s e ↔ EndsAll s e := by
  have hmotion : e.action.isMotion = true := by rw [haction]; rfl
  simp only [EndsAll, haction]
  rw [← returns_iff (r := r) (s := s) hmotion]
  constructor
  · rintro ⟨⟨s', hstep⟩, houtside, -⟩
    refine ⟨⟨s', hstep⟩, fun id hid hactive => ?_⟩
    have hended := houtside haction s' hstep id hid
    rw [← Bool.not_eq_true, (step_motion hmotion hstep).2.1 id hid] at hended
    by_cases hlt : id < 10
    · refine ⟨hlt, fun hmoved => hended ⟨hactive, fun h => ?_⟩⟩
      rw [hmirrors]
      exact decide_eq_true hmoved
    · exact absurd ⟨hactive, fun h => absurd h hlt⟩ hended
  · rintro ⟨hreturns, hactive⟩
    refine ⟨hreturns, fun _ s' hstep id hid => ?_, fun h => ?_⟩
    · rw [← Bool.not_eq_true, (step_motion hmotion hstep).2.1 id hid]
      rintro ⟨hwas, hpointers⟩
      obtain ⟨hlt, hmoved⟩ := hactive id hid hwas
      have := hpointers hlt
      rw [hmirrors, decide_eq_true_eq] at this
      exact hmoved this
    · rw [haction] at h
      rcases h with h | h <;> cases h

/-- When the end of a gesture ends every touch. -/
theorem ended_finish_iff (haction : e.action = .up ∨ e.action = .cancel) :
    Ended r s e ↔ EndsAll s e := by
  have hmotion : e.action.isMotion = false := by
    rcases haction with h | h <;> rw [h] <;> rfl
  have hends : EndsAll s e ↔ ∀ id ∈ s.gesture, s.active id = true → id = e.actionPointer.id := by
    rcases haction with h | h <;> simp only [EndsAll, h]
  obtain ⟨s', hstep, -⟩ := step_action (r := r) (s := s) hmotion
  obtain ⟨hactive, hgesture⟩ := step_finish haction hstep
  rw [hends]
  constructor
  · rintro ⟨-, -, hended⟩ id hid hwas
    have := hended haction s' hstep id (hgesture ▸ List.mem_cons_of_mem _ hid)
    rw [hactive, hwas, Bool.and_true, decide_eq_false_iff_not, not_not] at this
    exact this
  · intro hall
    refine ⟨⟨s', hstep⟩, fun h => ?_, fun _ s'' hstep' id hid => ?_⟩
    · rw [h] at haction
      rcases haction with h | h <;> cases h
    · obtain rfl := Option.some.inj (hstep.symm.trans hstep')
      rw [hgesture] at hid
      rw [hactive, Bool.and_eq_false_iff, decide_eq_false_iff_not, not_not]
      rcases List.mem_cons.mp hid with rfl | hid
      · exact .inl rfl
      · by_cases hwas : s.active id = true
        · exact .inl (hall id hid hwas)
        · exact .inr (Bool.not_eq_true _ ▸ hwas)

/-- An event that is neither a move nor the end of a gesture is only to throw nothing. -/
theorem ended_iff_returns (hmove : e.action ≠ .move)
    (hfinish : ¬ (e.action = .up ∨ e.action = .cancel)) :
    Ended r s e ↔ ∃ s', step r s e = some s' :=
  ⟨Ended.returns, fun h => ⟨h, fun h' => absurd h' hmove, fun h' => absurd h' hfinish⟩⟩

/-- When an event ends every touch that is over. -/
theorem ended_iff (hmirrors : Mirrors s) : Ended r s e ↔ EndsAll s e := by
  cases haction : e.action with
  | move => exact ended_move_iff hmirrors haction
  | up => exact ended_finish_iff (.inl haction)
  | cancel => exact ended_finish_iff (.inr haction)
  | hoverMove | hoverEnter | hoverExit =>
    rw [ended_iff_returns (by rw [haction]; decide) (by rw [haction]; decide)]
    simp only [EndsAll, haction]
    exact returns_iff (by rw [haction]; rfl)
  | down | pointerDown | pointerUp =>
    rw [ended_iff_returns (by rw [haction]; decide) (by rw [haction]; decide)]
    simp only [EndsAll, haction, iff_true]
    obtain ⟨s', hstep, -⟩ := step_action (r := r) (s := s) (e := e) (by rw [haction]; rfl)
    exact ⟨s', hstep⟩

/-- **No touch is left stuck** by a list of events exactly when each of them ends what it is to
end. -/
theorem ended_always_iff (r : RenderData) (es : List MotionEvent) :
    Meets (step r) (Ended r) start es ↔ Meets (step r) EndsAll start es := by
  have hpreserved : ∀ {s s' e}, Mirrors s → EndsAll s e → step r s e = some s' → Mirrors s' :=
    fun hmirrors _ => hmirrors.step
  have hagree : ∀ {s e}, Mirrors s → (Ended r s e ↔ EndsAll s e) :=
    fun hmirrors => ended_iff hmirrors
  exact meets_congr hpreserved hagree mirrors_start es

/-- The end of the second finger is lost after both were in a move, and the next move does not end
it. -/
def lostPointerUp : List MotionEvent :=
  [⟨.down, [⟨0, 4, 4⟩], ⟨0, by decide⟩, by decide, by decide⟩,
    ⟨.pointerDown, [⟨0, 4, 4⟩, ⟨1, 8, 8⟩], ⟨1, by decide⟩, by decide, by decide⟩,
    ⟨.move, [⟨0, 4, 4⟩, ⟨1, 9, 9⟩], ⟨0, by decide⟩, by decide, by decide⟩,
    ⟨.move, [⟨0, 5, 5⟩], ⟨0, by decide⟩, by decide, by decide⟩]

theorem lostPointerUp_stuck : ¬ Meets (step ⟨100, 100⟩) (Ended ⟨100, 100⟩) start lostPointerUp := by
  rintro ⟨-, hdown⟩
  obtain ⟨-, hpointerDown⟩ := hdown _ rfl
  obtain ⟨-, hmove⟩ := hpointerDown _ rfl
  obtain ⟨hended, -⟩ := hmove _ rfl
  have hfalse := hended.outside rfl _ rfl 1 (by decide)
  revert hfalse
  decide +kernel

end WinEmulator.X11.TouchSender
