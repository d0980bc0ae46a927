import WinEmulator.App.MainDialogs

/-!
# Answers to dialogs

A call of `showConfirmDialog` has the screen and `dialogDeferred` for itself only until the next
call of either kind, and whoever ends hides what is shown then. Nothing shows a message again, so a
call that waits has its answer coming exactly as long as its message is displayed
(`canBeAnswered_iff`). What else happens meanwhile costs it the answer, whichever step it is.
-/

set_option autoImplicit false

namespace WinEmulator.App.MainDialogs

open WinEmulator.Lib

/-! ## Answers -/

/-- The call has not returned, and was not answered. -/
def Waiting (s : State) (call : Deferred) : Prop := call ∈ s.confirming ∧ s.result call = none

/-- The screen asks what the call asks. -/
def Displays (s : State) (call : Deferred) : Prop :=
  s.uiState.dialogType = .confirm ∧ s.shownBy = some call

/-- A button completes the call of the message that is displayed, and no other call. -/
def AnswersDisplayed (s : State) : Prop :=
  ∀ confirm s', step s (.closeConfirmDialog confirm) = some s' → ∃ call, Displays s call ∧
    s'.result call = some ((s.result call).getD confirm) ∧ ∀ other, other ≠ call →
      s'.result other = s.result other

/-- The call can come to where its own message is displayed and either button completes it. -/
def CanBeAnswered (s : State) (call : Deferred) : Prop :=
  ∃ as mid, run step s as = some mid ∧ Waiting mid call ∧ Displays mid call ∧
    ∀ confirm, ∃ s', step mid (.closeConfirmDialog confirm) = some s' ∧
      s'.result call = some confirm

/-- In every state of a run each waiting call can be answered and each answer is that of the message
displayed, and no block dialog that ends hides a question. -/
structure NoAnswerLost (as : List Action) : Prop where
  answerable : ∀ bs s, bs <+: as → run step start bs = some s → ∀ call, Waiting s call →
    CanBeAnswered s call
  exact : ∀ bs s, bs <+: as → run step start bs = some s → AnswersDisplayed s
  notHidden : ∀ bs s s', bs ++ [.actionDone] <+: as → run step start bs = some s →
    step s .actionDone = some s' →
    ∀ call, Waiting s call → Displays s call → Displays s' call

/-- While a call waits nothing but a button is pressed. -/
def LeavesWaiting (s : State) (a : Action) : Prop :=
  (step s a).isSome → (∃ confirm, a = .closeConfirmDialog confirm) ∨ ∀ call, ¬Waiting s call

/-- A question on the screen is that of the last call, and calls are as old as their deferreds. -/
structure Inv (s : State) : Prop where
  asked : s.uiState.dialogType = .confirm → s.dialogDeferred = s.shownBy ∧ s.shownBy ≠ none
  made : ∀ call, s.shownBy = some call → call < s.deferreds.length
  confirming : ∀ call ∈ s.confirming, call < s.deferreds.length

variable {s s' : State} {a : Action} {call : Deferred}

/-! ## Results -/

/-- Completing a deferred decides it once, and no other. -/
theorem result_complete (deferred : Deferred) (confirm : Bool) (h : deferred < s.deferreds.length) :
    (s.complete deferred confirm).result call =
      if call = deferred then some ((s.result deferred).getD confirm) else s.result call := by
  unfold State.result State.complete
  simp only [List.getElem?_modify]
  by_cases heq : call = deferred
  · subst heq
    simp [List.getElem?_eq_getElem h]
  · have hne : deferred ≠ call := Ne.symm heq
    simp [heq, hne]

/-- The results that are there stay when another deferred is made. -/
theorem result_showConfirmDialog (msg : Text) :
    (s.showConfirmDialog msg).result call = s.result call := by
  unfold State.result State.showConfirmDialog
  rcases Nat.lt_trichotomy call s.deferreds.length with hlt | heq | hgt
  · rw [List.getElem?_append_left hlt]
  · subst heq
    simp
  · rw [List.getElem?_eq_none (by simp; omega), List.getElem?_eq_none (by omega)]

/-! ## Steps -/

/-- Closing answers the deferred that is displayed. -/
theorem of_closeConfirmDialog {confirm : Bool} (hinv : Inv s)
    (h : step s (.closeConfirmDialog confirm) = some s') :
    ∃ deferred, Displays s deferred ∧ deferred < s.deferreds.length ∧
      s' = s.complete deferred confirm := by
  obtain ⟨hconfirm, heq⟩ := Option.ite_none_right_eq_some.mp h
  obtain ⟨hsame, hsome⟩ := hinv.asked hconfirm
  obtain ⟨deferred, hshown⟩ := Option.ne_none_iff_exists'.mp hsome
  refine ⟨deferred, ⟨hconfirm, hshown⟩, hinv.made deferred hshown, ?_⟩
  rw [← Option.some.inj heq, State.closeConfirmDialog, hsame, hshown]

theorem inv_start : Inv start := ⟨nofun, nofun, nofun⟩

/-- **Step lemma.** Every action keeps the invariant. -/
theorem inv_step (hinv : Inv s) (h : step s a = some s') : Inv s' := by
  cases a with
  | showConfirmDialog msg =>
    obtain rfl := Option.some.inj h
    refine ⟨fun _ => ⟨rfl, nofun⟩, fun call hcall => ?_, fun call hcall => ?_⟩
    · obtain rfl := Option.some.inj hcall
      simp [State.showConfirmDialog]
    · have hlen : (s.showConfirmDialog msg).deferreds.length = s.deferreds.length + 1 :=
        List.length_append
      rw [hlen]
      rcases List.mem_append.mp hcall with hold | hnew
      · exact Nat.lt_succ_of_lt (hinv.confirming call hold)
      · rw [List.mem_singleton.mp hnew]
        exact Nat.lt_succ_self _
  | closeConfirmDialog confirm =>
    obtain ⟨deferred, -, -, rfl⟩ := of_closeConfirmDialog hinv h
    have hlen : (s.complete deferred confirm).deferreds.length = s.deferreds.length :=
      List.length_modify ..
    exact ⟨hinv.asked, hlen ▸ hinv.made, hlen ▸ hinv.confirming⟩
  | confirmed call =>
    obtain ⟨-, heq⟩ := Option.ite_none_right_eq_some.mp h
    obtain rfl := Option.some.inj heq
    exact ⟨nofun, hinv.made,
      fun other hother => hinv.confirming other (List.mem_of_mem_erase hother)⟩
  | showBlockDialog msg =>
    obtain rfl := Option.some.inj h
    exact ⟨nofun, nofun, hinv.confirming⟩
  | actionDone =>
    obtain ⟨-, heq⟩ := Option.ite_none_right_eq_some.mp h
    obtain rfl := Option.some.inj heq
    exact ⟨nofun, hinv.made, hinv.confirming⟩

/-- In the states of the invariant an answer goes to the call that is displayed. -/
theorem answersDisplayed (hinv : Inv s) : AnswersDisplayed s := by
  intro confirm s' h
  obtain ⟨deferred, hshown, hlt, rfl⟩ := of_closeConfirmDialog hinv h
  refine ⟨deferred, hshown, ?_, fun other hother => ?_⟩
  · rw [result_complete _ _ hlt, if_pos rfl]
  · rw [result_complete _ _ hlt, if_neg hother]

/-! ## Waiting calls -/

/-- A step that is no answer takes the screen from the message that is displayed. -/
theorem not_displays_of_step (hother : ∀ confirm, a ≠ .closeConfirmDialog confirm)
    (h : step s a = some s') (hlt : call < s.deferreds.length) : ¬Displays s' call := by
  rintro ⟨htype, hshown⟩
  cases a with
  | showConfirmDialog msg =>
    obtain rfl := Option.some.inj h
    exact absurd (Option.some.inj hshown) (Nat.ne_of_gt hlt)
  | closeConfirmDialog confirm => exact absurd rfl (hother confirm)
  | confirmed other =>
    obtain ⟨-, heq⟩ := Option.ite_none_right_eq_some.mp h
    obtain rfl := Option.some.inj heq
    exact DialogType.noConfusion htype
  | showBlockDialog msg =>
    obtain rfl := Option.some.inj h
    exact DialogType.noConfusion htype
  | actionDone =>
    obtain ⟨-, heq⟩ := Option.ite_none_right_eq_some.mp h
    obtain rfl := Option.some.inj heq
    exact DialogType.noConfusion htype

/-- Deferreds are never removed. -/
theorem length_le_of_step (hinv : Inv s) (h : step s a = some s') :
    s.deferreds.length ≤ s'.deferreds.length := by
  cases a with
  | showConfirmDialog msg =>
    obtain rfl := Option.some.inj h
    exact (List.prefix_append _ _).length_le
  | closeConfirmDialog confirm =>
    obtain ⟨deferred, -, -, rfl⟩ := of_closeConfirmDialog hinv h
    exact Nat.le_of_eq (List.length_modify ..).symm
  | confirmed other =>
    obtain ⟨-, heq⟩ := Option.ite_none_right_eq_some.mp h
    exact Option.some.inj heq ▸ le_rfl
  | showBlockDialog msg => exact Option.some.inj h ▸ le_rfl
  | actionDone =>
    obtain ⟨-, heq⟩ := Option.ite_none_right_eq_some.mp h
    exact Option.some.inj heq ▸ le_rfl

/-- A message that is not displayed is not displayed later. -/
theorem not_displays_step (hinv : Inv s) (hlt : call < s.deferreds.length) (hnot : ¬Displays s call)
    (h : step s a = some s') : ¬Displays s' call := by
  by_cases hclose : ∃ confirm, a = .closeConfirmDialog confirm
  · obtain ⟨confirm, rfl⟩ := hclose
    obtain ⟨deferred, -, -, rfl⟩ := of_closeConfirmDialog hinv h
    exact hnot
  · exact not_displays_of_step (fun confirm heq => hclose ⟨confirm, heq⟩) h hlt

/-- A call whose dialog is displaced is never displayed again. -/
theorem not_displays_run {as : List Action} (hinv : Inv s) (hlt : call < s.deferreds.length)
    (hnot : ¬Displays s call)
    (h : run step s as = some s') : ¬Displays s' call := by
  induction as generalizing s with
  | nil => exact Option.some.inj h ▸ hnot
  | cons a as ih =>
    obtain ⟨mid, hstep, hrun⟩ := run_cons.mp h
    have hmid := not_displays_step hinv hlt hnot hstep
    exact ih (inv_step hinv hstep) (hlt.trans_le (length_le_of_step hinv hstep)) hmid hrun

/-- A button answers the call of the message displayed. -/
theorem answered_of_displays (hinv : Inv s) (hwaiting : Waiting s call) (hshown : Displays s call)
    (confirm : Bool) :
    ∃ s', step s (.closeConfirmDialog confirm) = some s' ∧ s'.result call = some confirm := by
  have hstep : step s (.closeConfirmDialog confirm) = some (s.closeConfirmDialog confirm) :=
    if_pos hshown.1
  refine ⟨_, hstep, ?_⟩
  obtain ⟨displayed, hdisplayed, hresult, -⟩ := answersDisplayed hinv confirm _ hstep
  obtain rfl := Option.some.inj (hdisplayed.2.symm.trans hshown.2)
  rw [hresult, hwaiting.2]
  rfl

/-- The waiting calls that can be answered are those displayed. -/
theorem canBeAnswered_iff (hinv : Inv s) (hwaiting : Waiting s call) :
    CanBeAnswered s call ↔ Displays s call := by
  constructor
  · rintro ⟨as, mid, hrun, -, hmid, -⟩
    by_contra hnot
    exact not_displays_run hinv (hinv.confirming call hwaiting.1) hnot hrun hmid
  · exact fun hshown => ⟨[], s, rfl, hwaiting, hshown, answered_of_displays hinv hwaiting hshown⟩

/-- The message of every waiting call is displayed. -/
def WaitingDisplayed (s : State) : Prop := ∀ call, Waiting s call → Displays s call

/-- A call waits on as long as no dialog is closed. -/
theorem waiting_of_step (hother : ∀ confirm, a ≠ .closeConfirmDialog confirm)
    (h : step s a = some s')
    (hwaiting : Waiting s call) : Waiting s' call := by
  obtain ⟨hmem, hresult⟩ := hwaiting
  cases a with
  | showConfirmDialog msg =>
    obtain rfl := Option.some.inj h
    exact ⟨List.mem_append_left _ hmem, (result_showConfirmDialog msg).trans hresult⟩
  | closeConfirmDialog confirm => exact absurd rfl (hother confirm)
  | confirmed other =>
    obtain ⟨⟨-, hdone⟩, heq⟩ := Option.ite_none_right_eq_some.mp h
    obtain rfl := Option.some.inj heq
    have hne : call ≠ other := by
      rintro rfl
      rw [hresult] at hdone
      exact Bool.noConfusion hdone
    exact ⟨(List.mem_erase_of_ne hne).mpr hmem, hresult⟩
  | showBlockDialog msg =>
    obtain rfl := Option.some.inj h
    exact ⟨hmem, hresult⟩
  | actionDone =>
    obtain ⟨-, heq⟩ := Option.ite_none_right_eq_some.mp h
    obtain rfl := Option.some.inj heq
    exact ⟨hmem, hresult⟩

/-! ## Runs -/

/-- A call that waits after a step that is no answer waited before, or was just made and has the
screen. -/
theorem displays_of_step (hother : ∀ confirm, a ≠ .closeConfirmDialog confirm)
    (h : step s a = some s')
    (hnot : ¬Waiting s call) (hwaiting : Waiting s' call) : Displays s' call := by
  obtain ⟨hmem, hresult⟩ := hwaiting
  cases a with
  | showConfirmDialog msg =>
    obtain rfl := Option.some.inj h
    rw [result_showConfirmDialog] at hresult
    rcases List.mem_append.mp hmem with hold | hnew
    · exact absurd ⟨hold, hresult⟩ hnot
    · rw [List.mem_singleton.mp hnew]
      exact ⟨rfl, rfl⟩
  | closeConfirmDialog confirm => exact absurd rfl (hother confirm)
  | confirmed other =>
    obtain ⟨-, heq⟩ := Option.ite_none_right_eq_some.mp h
    obtain rfl := Option.some.inj heq
    exact absurd ⟨List.mem_of_mem_erase hmem, hresult⟩ hnot
  | showBlockDialog msg =>
    obtain rfl := Option.some.inj h
    exact absurd ⟨hmem, hresult⟩ hnot
  | actionDone =>
    obtain ⟨-, heq⟩ := Option.ite_none_right_eq_some.mp h
    obtain rfl := Option.some.inj heq
    exact absurd ⟨hmem, hresult⟩ hnot

/-- The condition on a step, in terms of what it leaves. -/
theorem leavesWaiting_iff (hinv : Inv s) (hall : WaitingDisplayed s) :
    LeavesWaiting s a ↔ ∀ s', step s a = some s' → WaitingDisplayed s' := by
  by_cases hclose : ∃ confirm, a = .closeConfirmDialog confirm
  · -- an answer leaves the screen as it is
    obtain ⟨confirm, rfl⟩ := hclose
    refine iff_of_true (fun _ => Or.inl ⟨confirm, rfl⟩) fun s' h call hwaiting => ?_
    obtain ⟨deferred, hshown, hlt, rfl⟩ := of_closeConfirmDialog hinv h
    refine hall call ⟨hwaiting.1, ?_⟩
    have hresult := hwaiting.2
    rw [result_complete _ _ hlt] at hresult
    split at hresult
    · cases hresult
    · exact hresult
  · have hother : ∀ confirm, a ≠ .closeConfirmDialog confirm :=
      fun confirm heq => hclose ⟨confirm, heq⟩
    constructor
    · intro hleaves s' h call hwaiting
      obtain hanswer | hnone := hleaves (Option.isSome_iff_exists.mpr ⟨s', h⟩)
      · exact absurd hanswer hclose
      · exact displays_of_step hother h (hnone call) hwaiting
    · intro hkeeps hpossible
      obtain ⟨s', h⟩ := Option.isSome_iff_exists.mp hpossible
      refine Or.inr fun call hwaiting => ?_
      exact not_displays_of_step hother h (hinv.confirming call hwaiting.1)
        (hkeeps s' h call (waiting_of_step hother h hwaiting))

theorem inv_run {as : List Action} (h : run step start as = some s) : Inv s :=
  run_invariant inv_step inv_start h

/-- The runs that keep every waiting call displayed are those whose steps do. -/
theorem waitingDisplayed_iff (as : List Action) :
    (∀ bs s, bs <+: as → run step start bs = some s → WaitingDisplayed s) ↔
      Meets step LeavesWaiting start as :=
  always_iff inv_step leavesWaiting_iff inv_start
    (fun _ hwaiting => absurd hwaiting.1 List.not_mem_nil) as

/-- In a run no answer is lost exactly if, while a call waits, nothing happens but that a button is
pressed. -/
theorem noAnswerLost_iff (as : List Action) :
    NoAnswerLost as ↔ Meets step LeavesWaiting start as := by
  rw [← waitingDisplayed_iff]
  constructor
  · intro h bs s hbs hrun call hwaiting
    exact (canBeAnswered_iff (inv_run hrun) hwaiting).mp (h.answerable bs s hbs hrun call hwaiting)
  · intro hall
    refine ⟨fun bs s hbs hrun call hwaiting => ?_,
      fun bs s _ hrun => answersDisplayed (inv_run hrun), ?_⟩
    · exact (canBeAnswered_iff (inv_run hrun) hwaiting).mpr (hall bs s hbs hrun call hwaiting)
    · intro bs s s' hbs hrun hstep call hwaiting _
      have hnext : run step start (bs ++ [.actionDone]) = some s' :=
        run_append hrun (run_cons.mpr ⟨s', hstep, rfl⟩)
      exact hall _ s' hbs hnext call
        (waiting_of_step (fun _ heq => Action.noConfusion heq) hstep hwaiting)

/-- Two calls ask at the same time. -/
def twoQuestions : List Action :=
  [.showConfirmDialog "first".toList, .showConfirmDialog "second".toList]

/-- The first call waits for an answer that nobody can give. -/
theorem twoQuestions_lost : ¬NoAnswerLost twoQuestions := by
  intro h
  have hwaiting : ∀ s, run step start twoQuestions = some s → Waiting s 0 := by
    intro s hrun
    obtain rfl := Option.some.inj hrun
    exact ⟨by decide, by decide⟩
  have hrun :
      run step start twoQuestions =
        some ((start.showConfirmDialog "first".toList).showConfirmDialog "second".toList) :=
    rfl
  have hdisplays := (canBeAnswered_iff (inv_run hrun) (hwaiting _ hrun)).mp
    (h.answerable _ _ List.prefix_rfl hrun 0 (hwaiting _ hrun))
  exact absurd hdisplays.2 (by decide)

end WinEmulator.App.MainDialogs
