import WinEmulator.Lorie.Present

/-!
# The counter of frames

The values Present is told never go down while the counter does not wrap round and no flip is
finished whose target the counter has passed: `loriePresentAfterFlip` takes the smaller of the next
frame and the target for the counter, so a late flip sets it back.
-/

set_option autoImplicit false

namespace WinEmulator.Lorie.Present

open WinEmulator.Lib

/-- A flip's target is not behind the counter, and there is a next frame. -/
def Call.Ahead (s : State) : Call → Prop
  | .getUstMsc => True
  | .afterFlip _ target_msc => s.current_msc.toNat + 1 < 2 ^ 64 ∧ s.current_msc ≤ target_msc

def Notice.Ahead (s : State) : Notice → Prop
  | .call c => c.Ahead s
  | .queueVblank _ _ _ => True

/-- So is every flip the notifications of a loop make. -/
def PerformAhead (notify : EventId → List Notice) : List Vblank → State → Prop
  | [], _ => True
  | v :: vs, s =>
    if v.msc ≤ s.current_msc then
      let told := { s with reports := s.reports ++ [.vblank v.id s.current_msc] }
      let done := (notify v.id).foldl notice told
      Meets (fun s n => some (notice s n)) Notice.Ahead told (notify v.id)
        ∧ PerformAhead notify vs { done with vblank_queue := done.vblank_queue.erase v }
    else PerformAhead notify vs s

def Ahead (s : State) : Action → Prop
  | .call c => c.Ahead s
  | .queueVblank _ _ _ => True
  | .abortVblank _ => True
  | .redraw notify => s.current_msc.toNat + 1 < 2 ^ 64 ∧
      PerformAhead notify s.vblank_queue { s with current_msc := s.current_msc + 1 }
  | .resize notify => PerformAhead notify s.vblank_queue s

instance Call.Ahead.decidable (s : State) : (c : Call) → Decidable (c.Ahead s)
  | .getUstMsc => inferInstanceAs (Decidable True)
  | .afterFlip _ _ => inferInstanceAs (Decidable (_ ∧ _))

instance Notice.Ahead.decidable (s : State) : (n : Notice) → Decidable (n.Ahead s)
  | .call c => inferInstanceAs (Decidable (c.Ahead s))
  | .queueVblank _ _ _ => inferInstanceAs (Decidable True)

instance PerformAhead.decidable (notify : EventId → List Notice) :
    (vs : List Vblank) → (s : State) → Decidable (PerformAhead notify vs s)
  | [], _ => inferInstanceAs (Decidable True)
  | v :: vs, s =>
    have := PerformAhead.decidable notify vs
    if hdue : v.msc ≤ s.current_msc then
      decidable_of_iff (_ ∧ _) (iff_of_eq (if_pos hdue).symm)
    else decidable_of_iff (PerformAhead notify vs s) (iff_of_eq (if_neg hdue).symm)

instance Ahead.decidable (s : State) : (a : Action) → Decidable (Ahead s a)
  | .call c => inferInstanceAs (Decidable (c.Ahead s))
  | .queueVblank _ _ _ => inferInstanceAs (Decidable True)
  | .abortVblank _ => inferInstanceAs (Decidable True)
  | .redraw _ => inferInstanceAs (Decidable (_ ∧ _))
  | .resize _ => inferInstanceAs (Decidable (PerformAhead _ _ _))

/-- What was told is in order, and the counter has reached it. -/
structure Told (s : State) : Prop where
  ordered : s.reports.Pairwise fun r r' => r.msc ≤ r'.msc
  reached : ∀ r ∈ s.reports, r.msc ≤ s.current_msc

theorem Told.queue {s : State} (h : Told s) (queue : List Vblank) :
    Told { s with vblank_queue := queue } :=
  ⟨h.ordered, h.reached⟩

/-- A counter that goes up keeps the reports in order. -/
theorem Told.raise {s : State} (h : Told s) {msc : Msc} (hle : s.current_msc ≤ msc) :
    Told { s with current_msc := msc } :=
  ⟨h.ordered, fun r hr => UInt64.le_trans (h.reached r hr) hle⟩

/-- The counter itself is told. -/
theorem Told.report {s : State} (h : Told s) {r : Report} (hr : r.msc = s.current_msc) :
    Told { s with reports := s.reports ++ [r] } := by
  refine ⟨List.pairwise_append.mpr ⟨h.ordered, List.pairwise_singleton _ r, ?_⟩, ?_⟩
  · intro r₁ hr₁ r₂ hr₂
    rw [List.mem_singleton.mp hr₂, hr]
    exact h.reached r₁ hr₁
  · intro r₁ hr₁
    rcases List.mem_append.mp hr₁ with hold | hnew
    · exact h.reached r₁ hold
    · rw [List.mem_singleton.mp hnew, hr]
      exact UInt64.le_refl _

theorem le_next {msc : Msc} (h : msc.toNat + 1 < 2 ^ 64) : msc ≤ msc + 1 := by
  rw [UInt64.le_iff_toNat_le, UInt64.toNat_add, UInt64.toNat_one, Nat.mod_eq_of_lt h]
  exact Nat.le_succ _

theorem le_min {a b c : Msc} (hb : a ≤ b) (hc : a ≤ c) : a ≤ min b c := by
  show a ≤ if b ≤ c then b else c
  split
  · exact hb
  · exact hc

/-- A call that asks for no past counter keeps the reports in order. -/
theorem Told.call {s : State} (h : Told s) {c : Call} (ahead : c.Ahead s) : Told (call s c) := by
  cases c with
  | getUstMsc => exact h.report rfl
  | afterFlip event_id target_msc =>
    obtain ⟨hnext, htarget⟩ := ahead
    exact (h.raise (le_min (le_next hnext) htarget)).report rfl

theorem Told.queueVblank {s : State} (h : Told s) (allocated : Bool) (id : EventId) (msc : Msc) :
    Told (loriePresentQueueVblank allocated id msc s) := by
  unfold loriePresentQueueVblank
  split
  · exact h.queue _
  · exact h

/-- So do the calls of a notification. -/
theorem Told.notices {s : State} (h : Told s) {notices : List Notice}
    (ahead : Meets (fun s n => some (notice s n)) Notice.Ahead s notices) :
    Told (notices.foldl notice s) := by
  induction notices generalizing s with
  | nil => exact h
  | cons n notices ih =>
    cases n with
    | call c => exact ih (h.call ahead.1) (ahead.2 _ rfl)
    | queueVblank allocated id msc => exact ih (h.queueVblank allocated id msc) (ahead.2 _ rfl)

/-- **The delivery of due vblanks keeps the reports in order.** -/
theorem Told.performVblanks {notify : EventId → List Notice} {vs : List Vblank} {s : State}
    (h : Told s)
    (ahead : PerformAhead notify vs s) : Told (performVblanks notify vs s) := by
  induction vs generalizing s with
  | nil => exact h
  | cons v vs ih =>
    rw [Present.performVblanks]
    rw [PerformAhead] at ahead
    split
    next hdue =>
      rw [if_pos hdue] at ahead
      have htold : Told { s with reports := s.reports ++ [.vblank v.id s.current_msc] } :=
        h.report rfl
      exact ih ((htold.notices ahead.1).queue _) ahead.2
    next hdue =>
      rw [if_neg hdue] at ahead
      exact ih h ahead

/-- **Step lemma.** Every action keeps the reports in order. -/
theorem Told.act {s : State} (h : Told s) {a : Action} (ahead : Ahead s a) : Told (act s a) := by
  cases a with
  | call c => exact h.call ahead
  | queueVblank allocated id msc => exact h.queueVblank allocated id msc
  | abortVblank id => exact h.queue _
  | redraw notify => exact (h.raise (le_next ahead.1)).performVblanks ahead.2
  | resize notify => exact h.performVblanks ahead

theorem told_start : Told start := ⟨List.Pairwise.nil, fun _ hr => by cases hr⟩

/-- **What Present is told never goes backwards** in a run that finishes no flip behind the
counter. -/
theorem reports_ordered {as : List Action} {s : State} (ahead : Meets step Ahead start as)
    (h : run step start as = some s) : s.reports.Pairwise fun r r' => r.msc ≤ r'.msc := by
  have hpreserved : ∀ {s s' a}, Told s → Ahead s a → step s a = some s' → Told s' := by
    intro s s' a htold hahead hstep
    cases hstep
    exact htold.act hahead
  exact (run_induction hpreserved told_start ahead h).ordered

/-- Nothing comes of a notification. -/
def silent : EventId → List Notice := fun _ => []

/-- Three frames, and a flip for the fourth. -/
theorem reports_flipInTime :
    Meets step Ahead start
        [.redraw silent, .queueVblank true 1 3, .redraw silent,
          .redraw fun _ => [.call (.afterFlip 2 4)]] ∧
      ∃ s, run step start
          [.redraw silent, .queueVblank true 1 3, .redraw silent,
            .redraw fun _ => [.call (.afterFlip 2 4)]] = some s ∧
        s.reports = [.vblank 1 3, .flip 2 4] ∧ s.reports.Pairwise fun r r' => r.msc ≤ r'.msc := by
  have ahead : Meets step Ahead start
      [.redraw silent, .queueVblank true 1 3, .redraw silent,
          .redraw fun _ => [.call (.afterFlip 2 4)]] := by
    decide +kernel
  exact ⟨ahead, _, rfl, rfl, reports_ordered ahead rfl⟩

/-- The flip was for the first frame and is finished in the third. -/
theorem not_reports_ordered :
    (∃ s, run step start
        [.redraw silent, .redraw silent, .redraw silent, .call .getUstMsc, .call (.afterFlip 1 1),
          .call .getUstMsc] = some s ∧ s.reports = [.ustMsc 3, .flip 1 1, .ustMsc 1]) ∧
      ¬ ∀ as s, run step start as = some s → s.reports.Pairwise fun r r' => r.msc ≤ r'.msc := by
  refine ⟨⟨_, rfl, by decide⟩, fun h => ?_⟩
  exact absurd (h [.redraw silent, .redraw silent, .redraw silent, .call .getUstMsc,
    .call (.afterFlip 1 1)] _ rfl) (by decide)

end WinEmulator.Lorie.Present
