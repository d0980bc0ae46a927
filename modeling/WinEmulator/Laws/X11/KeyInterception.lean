import WinEmulator.X11.KeyInterceptor

/-!
# The key interceptor while it is needed

`recheck` takes the delayed callbacks out of the queue when it enables the service, and only then.
So a callback that was posted when the focus went is still there when the focus is back before it
ran: the service is enabled, and nothing is to be done.
-/

set_option autoImplicit false

namespace WinEmulator.X11.KeyInterception

open WinEmulator.Lib

/-! ## What is to hold -/

/-- The activity has the focus, or a key that was intercepted is down. -/
def State.Needed (s : State) : Prop :=
  (∃ a ∈ s.activity, a.hasWindowFocus = true) ∨ ∃ self ∈ s.self, self.pressedKeys ≠ []

def State.Disabled (s : State) : Prop := ∀ self ∈ s.self, self.enabled = false

/-- The state that an input leads to before `recheck`. -/
def changed (s : State) : Input → State
  | .focus hasFocus => { s with activity := s.activity.map ({ · with hasWindowFocus := hasFocus }) }
  | .key event textInput mInputHandler _ =>
    let activity :=
      s.activity.map ({ · with textInput := textInput, mInputHandler := mInputHandler })
    { s with
      activity := activity
      self := s.self.map fun self =>
        { self with
          pressedKeys :=
            pressedAfter self.pressedKeys (activity.any (·.shouldInterceptKeys)) event } }
  | .callback => s

/-- `recheck` does not find the service needed that is enabled and about to be disabled. -/
def NotNeededAgain (s : State) (a : Input) : Prop :=
  a ≠ .callback → (changed s a).Needed → ¬ s.Disabled → s.callbacks = 0

/-! ## One step -/

/-- The service and the activity are there. -/
def Started (s : State) : Prop := s.self.isSome = true ∧ s.activity.isSome = true

/-- No callback is in the queue while the service is needed. -/
def Safe (s : State) : Prop := s.Needed → s.callbacks = 0

variable {s s' : State}

theorem Started.changed (h : Started s) (a : Input) : Started (changed s a) := by
  obtain ⟨hself, hactivity⟩ := h
  cases a with
  | focus hasFocus => exact ⟨hself, by simpa [KeyInterception.changed] using hactivity⟩
  | key =>
    exact ⟨by simpa [KeyInterception.changed] using hself, by
      simpa [KeyInterception.changed] using hactivity⟩
  | callback => exact ⟨hself, hactivity⟩

/-- The recheck leaves the service and the activity there. -/
theorem recheck_started (h : Started s) : Started (recheck s) := by
  unfold recheck
  split
  · exact h
  · simp only
    split
    · split
      · exact ⟨rfl, h.2⟩
      · exact h
    · exact h

/-- What `recheck` compares with `enabled`. -/
theorem needed_iff {self : KeyInterceptor} {a : MainActivity} {callbacks : Nat} :
    (State.mk (some self) (some a) callbacks).Needed ↔
    (a.hasWindowFocus || !self.pressedKeys.isEmpty) = true := by
  simp [State.Needed]

/-- After `recheck` no callback is in the queue while the service is needed, unless it was enabled
and one was there. -/
theorem recheck_safe_iff (h : Started s) :
    Safe (recheck s) ↔ (s.Needed → ¬ s.Disabled → s.callbacks = 0) := by
  obtain ⟨self, activity, callbacks⟩ := s
  obtain ⟨self, rfl⟩ := Option.isSome_iff_exists.mp h.1
  obtain ⟨activity, rfl⟩ := Option.isSome_iff_exists.mp h.2
  obtain ⟨pressedKeys, enabled⟩ := self
  have hdisabled :
      ∀ n, (State.mk (some ⟨pressedKeys, enabled⟩) (some activity) n).Disabled ↔ enabled = false :=
    fun _ => by simp [State.Disabled]
  rw [needed_iff, hdisabled]
  simp only [recheck, Option.any_some]
  cases hneeded : (activity.hasWindowFocus || !pressedKeys.isEmpty) with
  | true =>
    cases enabled with
    | true => simp [Safe, needed_iff, hneeded]
    | false => simp [Safe]
  | false => cases enabled <;> simp [Safe, needed_iff, hneeded]

/-- Every input but a callback is what it changes, and `recheck`. -/
theorem step_eq (h : Started s) {a : Input} (ha : a ≠ .callback) :
    step s a = some (recheck (changed s a)) := by
  obtain ⟨self, activity, callbacks⟩ := s
  obtain ⟨self, rfl⟩ := Option.isSome_iff_exists.mp h.1
  obtain ⟨activity, rfl⟩ := Option.isSome_iff_exists.mp h.2
  cases a with
  | focus hasFocus => rfl
  | key event textInput mInputHandler handled => rfl
  | callback => exact absurd rfl ha

/-- **Step lemma.** Every input leaves them there. -/
theorem Started.step (h : Started s) {a : Input} (hstep : step s a = some s') : Started s' := by
  by_cases ha : a = .callback
  · subst ha
    obtain ⟨self, activity, callbacks⟩ := s
    obtain ⟨self, rfl⟩ := Option.isSome_iff_exists.mp h.1
    cases callbacks with
    | zero => cases hstep
    | succ callbacks =>
      cases hstep
      exact ⟨rfl, h.2⟩
  · rw [step_eq h ha] at hstep
    cases hstep
    exact recheck_started (h.changed a)

theorem changed_callbacks (s : State) (a : Input) : (changed s a).callbacks = s.callbacks := by
  cases a <;> rfl

theorem changed_disabled (s : State) (a : Input) : (changed s a).Disabled ↔ s.Disabled := by
  cases a with
  | focus hasFocus => exact Iff.rfl
  | key event textInput mInputHandler handled => simp [changed, State.Disabled]
  | callback => exact Iff.rfl

/-- A callback disables the service, and changes nothing about whether it is needed. -/
theorem callback_eq (hstep : step s .callback = some s') :
    0 < s.callbacks ∧ s'.Disabled ∧ (s'.Needed ↔ s.Needed) ∧ s'.callbacks < s.callbacks := by
  obtain ⟨self, activity, callbacks⟩ := s
  cases callbacks with
  | zero => cases hstep
  | succ callbacks =>
    cases hstep
    cases self with
    | none => exact ⟨Nat.succ_pos _, nofun, Iff.rfl, Nat.lt_succ_self _⟩
    | some self =>
      refine ⟨Nat.succ_pos _, ?_, ?_, Nat.lt_succ_self _⟩
      · intro self' hself'
        exact Option.some.inj hself' ▸ rfl
      · simp [State.Needed, disableImmediately]

/-- A step keeps the queue empty while the service is needed exactly when it is not needed again too
soon. -/
theorem notNeededAgain_iff (h : Started s) (hsafe : Safe s) (a : Input) :
    NotNeededAgain s a ↔ ∀ s', step s a = some s' → Safe s' := by
  by_cases ha : a = .callback
  · subst ha
    refine iff_of_true (fun hne => absurd rfl hne) fun s' hstep hneeded => ?_
    obtain ⟨-, -, hneeded', hlt⟩ := callback_eq hstep
    have := hsafe (hneeded'.mp hneeded)
    omega
  · rw [step_eq h ha]
    simp only [Option.some.injEq, forall_eq', recheck_safe_iff (h.changed a), changed_disabled,
      changed_callbacks,
      NotNeededAgain]
    exact ⟨fun hnot => hnot ha, fun hnot _ => hnot⟩

/-- No callback is there to go wrong exactly when none that runs does. -/
theorem safe_iff : Safe s ↔ ∀ s', step s .callback = some s' → ¬ (s'.Disabled ∧ s'.Needed) := by
  constructor
  · rintro hsafe s' hstep ⟨-, hneeded⟩
    obtain ⟨hpos, -, hneeded', -⟩ := callback_eq hstep
    have := hsafe (hneeded'.mp hneeded)
    omega
  · intro hall hneeded
    cases hcallbacks : s.callbacks with
    | zero => rfl
    | succ callbacks =>
      have hstep :
          step s .callback = some (disableImmediately { s with callbacks := callbacks }) := by
        simp only [step, hcallbacks]
      obtain ⟨-, hdisabled, hneeded', -⟩ := callback_eq hstep
      exact absurd ⟨hdisabled, hneeded'.mpr hneeded⟩ (hall _ hstep)

/-! ## Runs -/

/-- **A callback that runs at any moment of a run does not disable the service while it is needed**
exactly when it is never needed again with a callback in the queue. -/
theorem callback_harmless_iff (activity : MainActivity) (inputs : List Input) :
    (∀ before s, before <+: inputs → run step (start activity) (before ++ [.callback]) = some s →
        ¬ (s.Disabled ∧ s.Needed)) ↔
      Meets step NotNeededAgain (start activity) inputs := by
  have hstarted : Started (start activity) := ⟨rfl, rfl⟩
  have hsafe : Safe (start activity) := fun _ => rfl
  rw [← always_iff (fun h hstep => h.step hstep) (fun h hs => notNeededAgain_iff h hs _) hstarted
    hsafe inputs]
  refine forall_congr' fun before => ?_
  constructor
  · intro hall mid hprefix hrun
    refine safe_iff.mpr fun s hstep => hall s hprefix ?_
    exact run_append hrun (run_cons.mpr ⟨s, hstep, rfl⟩)
  · intro hall s hprefix hrun
    obtain ⟨mid, hmid, hlast⟩ := exists_of_run_append hrun
    obtain ⟨s', hstep, hnil⟩ := run_cons.mp hlast
    cases hnil
    exact safe_iff.mp (hall mid hprefix hmid) _ hstep

/-- The focus is back before the callback that was posted when it went. -/
def focusBack : List Input := [.focus true, .focus false, .focus true]

theorem focusBack_disabled :
    ¬ ∀ (activity : MainActivity) (inputs : List Input) (s : State),
        run step (start activity) (inputs ++ [.callback]) = some s → ¬ (s.Disabled ∧ s.Needed) := by
  intro hall
  refine hall ⟨false, none, some true⟩ focusBack _ rfl ⟨?_, .inl ⟨_, rfl, rfl⟩⟩
  intro self hself
  exact Option.some.inj hself ▸ rfl

end WinEmulator.X11.KeyInterception
