import WinEmulator.X11.TapGestureDetector

/-!
# Taps and long presses are where the gesture began

`mInitialPoint` is forgotten when a tap or a long press was reported and when the last finger goes
up, but not when a gesture is cancelled, and a gesture that finds a point takes no other. So what is
reported of a gesture is right when it found none, or its own.
-/

set_option autoImplicit false

namespace WinEmulator.X11.TapGestures

open WinEmulator.Lib
open WinEmulator.X11.TouchInputHandler (MotionAction)

variable {F : Type}

/-! ## What is to hold -/

/-- A report is of a gesture in progress, the first of it, at its first finger, and no tap after
motion. -/
def Report.Right : Report F → Prop
  | ⟨some g, .onTap _ x y⟩ => ⟨x, y⟩ = g.first ∧ g.notices = 0 ∧ g.slopExceeded = false
  | ⟨some g, .onLongPress _ x y⟩ => ⟨x, y⟩ = g.first ∧ g.notices = 0
  | _ => False

def State.AllRight (s : State F) : Prop := ∀ r ∈ s.reports, r.Right

/-- The detector had no point when the gesture began, or the one of its first finger. -/
def Gesture.Fresh (g : Gesture F) : Prop := g.found = none ∨ g.found = some g.first

/-- A gesture that a report is made of is fresh: when the message arrives, and at its end if it is a
tap. -/
def ReportsFresh (s : State F) : Input F → Prop
  | .timeout => ∀ g ∈ s.gesture, g.Fresh
  | .touch e => e.action = .up → s.detector.mTapCancelled = false → ∀ g ∈ s.gesture, g.Fresh

instance [DecidableEq F] (g : Gesture F) : Decidable g.Fresh :=
  inferInstanceAs (Decidable (g.found = none ∨ g.found = some g.first))

instance [DecidableEq F] (s : State F) : ∀ a, Decidable (ReportsFresh s a)
  | .timeout => inferInstanceAs (Decidable (∀ g ∈ s.gesture, g.Fresh))
  | .touch e =>
    inferInstanceAs
      (Decidable (e.action = .up → s.detector.mTapCancelled = false → ∀ g ∈ s.gesture, g.Fresh))

/-! ## Where fingers came down -/

/-- The positions of the detector are those where fingers came down, and maybe others. -/
def Covers (downs positions : Positions F) : Prop :=
  ∀ id p, downs id = some p → positions id = some p

theorem Covers.update {downs positions : Positions F} (h : Covers downs positions) (id : Nat)
    (position : Option (PointF F)) :
    Covers (Function.update downs id position) (Function.update positions id position) := by
  intro id' p hdown
  by_cases hid : id' = id
  · subst hid
    rwa [Function.update_self] at hdown ⊢
  · rw [Function.update_of_ne hid] at hdown ⊢
    exact h id' p hdown

/-- A finger without a position gets one. -/
theorem Covers.add {downs positions : Positions F} (h : Covers downs positions) {id : Nat}
    (hid : positions id = none)
    (position : PointF F) : Covers downs (Function.update positions id (some position)) := by
  intro id' p hdown
  have hne : id' ≠ id := by
    rintro rfl
    rw [h id' p hdown] at hid
    cases hid
  rw [Function.update_of_ne hne]
  exact h id' p hdown

/-! ## A gesture and the detector -/

/-- While nothing made the gesture one that is not reported, the detector has the point that it
found, or else the gesture's own. -/
structure Gesture.Follows (g : Gesture F) (d : TapGestureDetector F) : Prop where
  covers : Covers g.downs d.mInitialPositions
  exceeded : g.slopExceeded = true → d.mTapCancelled = true
  point : d.mTapCancelled = false → d.mInitialPoint = some (g.found.getD g.first) ∧ g.notices = 0

variable {g : Gesture F} {d : TapGestureDetector F}

/-- The point that is reported is the gesture's own when none was left over. -/
theorem fresh_iff : g.found.getD g.first = g.first ↔ g.Fresh := by
  rw [Gesture.Fresh]
  cases g.found with
  | none => exact iff_of_true rfl (.inl rfl)
  | some point => simp

@[simp] theorem notified_none : g.notified none = g := rfl

/-- The message is reported as it is to be exactly when the gesture is fresh. -/
theorem Gesture.Follows.timeout_right_iff (h : g.Follows d) (hcancelled : d.mTapCancelled = false) :
    Report.Right ⟨some g, { d with pending := false }.handleMessage.2⟩ ↔ g.Fresh := by
  obtain ⟨hpoint, hnotices⟩ := h.point hcancelled
  simp only [TapGestureDetector.handleMessage, hpoint, Report.Right, hnotices, and_true]
  exact fresh_iff

/-- After the message nothing of the gesture is reported. -/
theorem Gesture.Follows.timeout (h : g.Follows d) (notice : Option (Notice F)) :
    (g.notified notice).Follows { d with pending := false }.handleMessage.1 := by
  unfold TapGestureDetector.handleMessage
  split
  · exact ⟨h.covers, fun _ => rfl, nofun⟩
  · exact ⟨h.covers, fun _ => rfl, nofun⟩

theorem handleMessage_pending : { d with pending := false }.handleMessage.1.pending = false := by
  unfold TapGestureDetector.handleMessage
  split <;> rfl

/-! ## States -/

variable {s s' : State F}

/-- The message is in the queue only while a gesture is in progress that nothing cancelled. -/
structure Inv (s : State F) : Prop where
  pending : s.detector.pending = true → s.gesture.isSome = true ∧ s.detector.mTapCancelled = false
  follows : ∀ g ∈ s.gesture, g.Follows s.detector

theorem inv_start (touchSlop : Int32) : Inv (start touchSlop : State F) := ⟨nofun, nofun⟩

theorem up_of_ends {action : MotionAction} (hends : endsGesture action = true)
    (hnot : action ≠ .cancel) : action = .up := by
  cases action with
  | up => rfl
  | cancel => exact absurd rfl hnot
  | _ => cases hends

theorem ne_up_of_not_ends {action : MotionAction} (hends : ¬ endsGesture action = true) :
    action ≠ .up :=
  fun haction => hends (by rw [haction]; rfl)

/-- New reports are right or wrong by themselves. -/
theorem allRight_append {reports : List (Report F)} {gesture : Option (Gesture F)}
    {added : List (Report F)} :
    (State.mk d gesture (reports ++ added)).AllRight ↔
    (∀ r ∈ reports, r.Right) ∧ ∀ r ∈ added, r.Right :=
  List.forall_mem_append

/-! ## Events -/

variable [Add F] [Sub F] [Mul F] [LT F] [DecidableLT F] [IntCast F] {e : MotionEvent F}

/-- The loop keeps the positions, and detects every finger that moved from where it came down. -/
theorem trackMove_covers (slop : Int32) {downs : Positions F} (pointers : List (Pointer F))
    {positions : Positions F}
    (h : Covers downs positions) :
    Covers downs (TapGestureDetector.trackMove slop pointers positions).2 ∧
      ((pointers.any fun pointer =>
          (downs pointer.id).any fun downPoint =>
            TapGestureDetector.beyondSlop slop pointer.position downPoint) = true →
        (TapGestureDetector.trackMove slop pointers positions).1 = true) := by
  induction pointers generalizing positions with
  | nil => exact ⟨h, nofun⟩
  | cons pointer pointers ih =>
    rw [TapGestureDetector.trackMove, List.any_cons, Bool.or_eq_true]
    cases hposition : positions pointer.id with
    | none =>
      have hdown : downs pointer.id = none :=
        Option.eq_none_iff_forall_not_mem.mpr
          fun p hp => by rw [h _ p hp] at hposition; cases hposition
      obtain ⟨hcovers, hmoved⟩ := ih (h.add hposition pointer.position)
      refine ⟨hcovers, fun hany => hmoved (hany.resolve_left ?_)⟩
      rw [hdown]
      exact nofun
    | some downPoint =>
      simp only
      split
      · exact ⟨h, fun _ => rfl⟩
      case isFalse hwithin =>
        obtain ⟨hcovers, hmoved⟩ := ih h
        refine ⟨hcovers, fun hany => hmoved (hany.resolve_left fun hbeyond => hwithin ?_)⟩
        obtain ⟨p, hp, hbeyond⟩ := (Option.any_eq_true _ _).mp hbeyond
        obtain rfl := Option.some.inj (hposition.symm.trans (h _ p hp))
        exact hbeyond

/-- The first finger begins a gesture. -/
theorem onTouchEvent_down (haction : e.action = .down) :
    (Gesture.begin d e).Follows (d.onTouchEvent e).1 ∧
    (d.onTouchEvent e).1.mTapCancelled = false := by
  have hcovers : Covers (fun _ => none) (fun _ => none : Positions F) := fun _ _ h => h
  simp only [TapGestureDetector.onTouchEvent, haction]
  refine ⟨⟨hcovers.update _ _, nofun, fun _ => ⟨?_, rfl⟩⟩, rfl⟩
  change (if d.mInitialPoint = none then _ else d.mInitialPoint) = some (d.mInitialPoint.getD _)
  cases d.mInitialPoint with
  | none => rfl
  | some point => rfl

/-- `ACTION_POINTER_DOWN` leaves a point that there is, and the message where it is. -/
theorem Gesture.Follows.pointerDown (h : g.Follows d) (slop : Int32)
    (haction : e.action = .pointerDown) :
    (g.after slop e).Follows (d.onTouchEvent e).1 ∧ (d.onTouchEvent e).1.pending = d.pending ∧
      (d.onTouchEvent e).1.mTapCancelled = d.mTapCancelled := by
  simp only [Gesture.after, TapGestureDetector.onTouchEvent, haction]
  refine ⟨⟨h.covers.update _ _, h.exceeded, fun hcancelled => ?_⟩, rfl, rfl⟩
  obtain ⟨hpoint, hnotices⟩ := h.point hcancelled
  refine ⟨?_, hnotices⟩
  change (if d.mInitialPoint = none then _ else d.mInitialPoint) = _
  rw [hpoint]
  rfl

theorem Gesture.Follows.pointerUp (h : g.Follows d) (slop : Int32)
    (haction : e.action = .pointerUp) :
    (g.after slop e).Follows (d.onTouchEvent e).1 ∧ (d.onTouchEvent e).1.pending = false := by
  simp only [Gesture.after, TapGestureDetector.onTouchEvent, haction]
  exact ⟨⟨h.covers.update _ _, h.exceeded, h.point⟩, rfl⟩

/-- `ACTION_MOVE` takes the message away when it detects motion. -/
theorem Gesture.Follows.move (h : g.Follows d) (haction : e.action = .move) :
    (g.after d.mTouchSlopSquare e).Follows (d.onTouchEvent e).1 ∧
      ((d.onTouchEvent e).1.pending = false ∨
        (d.onTouchEvent e).1.pending = d.pending ∧
          (d.onTouchEvent e).1.mTapCancelled = d.mTapCancelled) := by
  obtain ⟨hcovers, hmoved⟩ := trackMove_covers d.mTouchSlopSquare e.pointers h.covers
  simp only [Gesture.after, TapGestureDetector.onTouchEvent, haction,
    TapGestureDetector.trackMoveEvent]
  by_cases hcancelled : d.mTapCancelled = true
  · rw [if_pos hcancelled]
    refine ⟨⟨h.covers, fun _ => hcancelled, fun hnot => ?_⟩, .inr ⟨rfl, rfl⟩⟩
    rw [hcancelled] at hnot
    cases hnot
  · rw [if_neg hcancelled]
    split
    case h_1 d' hmove =>
      obtain ⟨-, rfl⟩ := Prod.mk.inj hmove
      exact ⟨⟨hcovers, fun _ => rfl, nofun⟩, .inl rfl⟩
    case h_2 d' hmove =>
      obtain ⟨hstill, rfl⟩ := Prod.mk.inj hmove
      refine ⟨⟨hcovers, fun hexceeded => ?_, h.point⟩, .inr ⟨rfl, rfl⟩⟩
      rcases Bool.or_eq_true_iff.mp hexceeded with hexceeded | hexceeded
      · exact h.exceeded hexceeded
      · rw [hmoved hexceeded] at hstill
        cases hstill

/-- The end of a gesture takes the message away. -/
theorem onTouchEvent_ends (hends : endsGesture e.action = true) :
    (d.onTouchEvent e).1.pending = false := by
  cases haction : e.action with
  | up =>
    simp only [TapGestureDetector.onTouchEvent, haction]
    split
    · rfl
    · split <;> rfl
  | cancel => simp only [TapGestureDetector.onTouchEvent, haction]; rfl
  | _ =>
    rw [haction] at hends
    cases hends

/-- Only the last finger going up is reported at once. -/
theorem onTouchEvent_quiet (haction : e.action ≠ .up) : (d.onTouchEvent e).2 = none := by
  cases h : e.action with
  | up => exact absurd h haction
  | move =>
    simp only [TapGestureDetector.onTouchEvent, h]
    split
    · rfl
    · split <;> rfl
  | _ => simp only [TapGestureDetector.onTouchEvent, h]

/-- The last finger reports the tap, unless it was cancelled. -/
theorem onTouchEvent_up (haction : e.action = .up) :
    (d.onTouchEvent e).2 =
      if d.mTapCancelled then none
      else some (d.mInitialPoint.elim .nullPointerException fun point =>
        .onTap d.mPointerCount point.x point.y) := by
  obtain ⟨_, _, _, _, mInitialPoint, mTapCancelled⟩ := d
  simp only [TapGestureDetector.onTouchEvent, haction]
  cases mTapCancelled <;> cases mInitialPoint <;> rfl

/-- The last finger going up is reported as it is to be exactly when the gesture is fresh, if at
all. -/
theorem Gesture.Follows.up_right_iff (h : g.Follows d) (haction : e.action = .up) :
    (∀ notice ∈ (d.onTouchEvent e).2, Report.Right ⟨some g, notice⟩) ↔
    (d.mTapCancelled = false → g.Fresh) := by
  rw [onTouchEvent_up haction]
  cases hcancelled : d.mTapCancelled with
  | true => exact iff_of_true nofun nofun
  | false =>
    obtain ⟨hpoint, hnotices⟩ := h.point hcancelled
    have hexceeded : g.slopExceeded = false := by
      rw [← Bool.not_eq_true]
      intro hexceeded
      rw [h.exceeded hexceeded] at hcancelled
      cases hcancelled
    simp only [Bool.false_eq_true, if_false, hpoint, Option.elim_some, Option.mem_some_iff,
      forall_eq', Report.Right,
      hnotices, hexceeded, and_true, forall_const]
    exact fresh_iff

/-! ## Runs -/

/-- Of which gesture an event is: a new one, or the one in progress. -/
theorem gestureOf_eq_some (h : s.gestureOf e = some g) :
    e.action = .down ∧ s.gesture = none ∧ g = .begin s.detector e ∨
      e.action ≠ .down ∧ ∃ before, s.gesture = some before ∧
        g = before.after s.detector.mTouchSlopSquare e := by
  unfold State.gestureOf at h
  split at h
  case h_1 haction hgesture => exact .inl ⟨haction, hgesture, (Option.some.inj h).symm⟩
  case h_2 => cases h
  case h_3 gesture _ hdown =>
    obtain ⟨before, hgesture, rfl⟩ := Option.map_eq_some_iff.mp h
    exact .inr ⟨fun haction => hdown before haction hgesture, before, hgesture, rfl⟩

/-- An event within a gesture. -/
theorem Inv.within (h : Inv s) (hof : ofGesture e.action = true)
    (hends : endsGesture e.action = false)
    (hg : s.gestureOf e = some g) :
    g.Follows (s.detector.onTouchEvent e).1 ∧
      ((s.detector.onTouchEvent e).1.pending = true →
        (s.detector.onTouchEvent e).1.mTapCancelled = false) := by
  obtain ⟨haction, -, rfl⟩ | ⟨haction, before, hbefore, rfl⟩ := gestureOf_eq_some hg
  · obtain ⟨hfollows, hcancelled⟩ := onTouchEvent_down (d := s.detector) haction
    exact ⟨hfollows, fun _ => hcancelled⟩
  · have hfollows := h.follows before hbefore
    cases hkind : e.action with
    | down => exact absurd hkind haction
    | pointerDown =>
      obtain ⟨hafter, hpending, hcancelled⟩ :=
        hfollows.pointerDown s.detector.mTouchSlopSquare hkind
      exact ⟨hafter, fun hp => hcancelled ▸ (h.pending (hpending ▸ hp)).2⟩
    | pointerUp =>
      obtain ⟨hafter, hpending⟩ := hfollows.pointerUp s.detector.mTouchSlopSquare hkind
      refine ⟨hafter, fun hp => ?_⟩
      rw [hpending] at hp
      cases hp
    | move =>
      obtain ⟨hafter, hpending | ⟨hpending, hcancelled⟩⟩ := hfollows.move hkind
      · refine ⟨hafter, fun hp => ?_⟩
        rw [hpending] at hp
        cases hp
      · exact ⟨hafter, fun hp => hcancelled ▸ (h.pending (hpending ▸ hp)).2⟩
    | up | cancel =>
      rw [hkind] at hends
      cases hends
    | _ =>
      rw [hkind] at hof
      cases hof

/-- An event that is of no gesture is nothing to the detector. -/
theorem onTouchEvent_other (hof : ¬ ofGesture e.action = true) : d.onTouchEvent e = (d, none) := by
  cases haction : e.action with
  | down | up | move | cancel | pointerDown | pointerUp => exact absurd (by rw [haction]; rfl) hof
  | _ => simp only [TapGestureDetector.onTouchEvent, haction]

/-- **Step lemma.** Every input keeps the invariant. -/
theorem Inv.step (h : Inv s) {a : Input F} (hstep : step s a = some s') : Inv s' := by
  cases a with
  | touch e =>
    simp only [TapGestures.step] at hstep
    split at hstep
    case isTrue hof =>
      obtain ⟨g, hg, rfl⟩ := Option.map_eq_some_iff.mp hstep
      by_cases hends : endsGesture e.action = true
      · have hpending := onTouchEvent_ends (d := s.detector) hends
        refine ⟨fun hp => ?_, ?_⟩
        · change (s.detector.onTouchEvent e).1.pending = true at hp
          rw [hpending] at hp
          cases hp
        · simp [hends]
      · obtain ⟨hfollows, hcancelled⟩ := h.within hof (Bool.not_eq_true _ ▸ hends) hg
        simp only [hends, onTouchEvent_quiet (ne_up_of_not_ends hends), notified_none]
        exact ⟨fun hp => ⟨rfl, hcancelled hp⟩, fun _ hmem => Option.some.inj hmem ▸ hfollows⟩
    case isFalse hof =>
      cases hstep
      rw [onTouchEvent_other hof]
      exact h
  | timeout =>
    simp only [TapGestures.step] at hstep
    split at hstep
    case isTrue hp =>
      cases hstep
      refine ⟨fun hp' => ?_, fun g' hg' => ?_⟩
      · change TapGestureDetector.pending { s.detector with pending := false }.handleMessage.1 =
          true at hp'
        rw [handleMessage_pending] at hp'
        cases hp'
      · obtain ⟨g, hg, rfl⟩ := Option.map_eq_some_iff.mp hg'
        exact (h.follows g hg).timeout _
    case isFalse => cases hstep

/-- What an event adds to the reports is right exactly when they are of fresh gestures. -/
theorem Inv.touch_right_iff (h : Inv s) (hg : s.gestureOf e = some g) :
    (∀ r ∈ (s.detector.onTouchEvent e).2.toList.map (Report.mk (some g)), r.Right) ↔ ReportsFresh s
    (.touch e) := by
  rw [List.forall_mem_map, ReportsFresh]
  by_cases haction : e.action = .up
  · obtain ⟨hdown, -⟩ | ⟨-, before, hbefore, rfl⟩ := gestureOf_eq_some hg
    · rw [haction] at hdown
      cases hdown
    have hafter : before.after s.detector.mTouchSlopSquare e = before := by
      simp only [Gesture.after, haction]
    rw [hafter, hbefore]
    simp only [Option.mem_toList, haction, forall_const, Option.mem_some_iff, forall_eq']
    exact (h.follows before hbefore).up_right_iff haction
  · rw [onTouchEvent_quiet haction]
    exact iff_of_true nofun fun hup => absurd hup haction

/-- A step adds reports that are right exactly when they are of fresh gestures. -/
theorem Inv.allRight_iff (h : Inv s) {a : Input F} (hstep : TapGestures.step s a = some s') :
    s'.AllRight ↔ s.AllRight ∧ ReportsFresh s a := by
  cases a with
  | touch e =>
    simp only [TapGestures.step] at hstep
    split at hstep
    case isTrue hof =>
      obtain ⟨g, hg, rfl⟩ := Option.map_eq_some_iff.mp hstep
      rw [allRight_append, h.touch_right_iff hg]
      exact Iff.rfl
    case isFalse hof =>
      cases hstep
      refine (and_iff_left fun haction => ?_).symm
      exact absurd (by rw [haction]; rfl) hof
  | timeout =>
    simp only [TapGestures.step] at hstep
    split at hstep
    case isTrue hp =>
      cases hstep
      obtain ⟨hgesture, hcancelled⟩ := h.pending hp
      obtain ⟨g, hg⟩ := Option.isSome_iff_exists.mp hgesture
      rw [allRight_append, List.forall_mem_singleton, hg,
        (h.follows g hg).timeout_right_iff hcancelled]
      refine and_congr_right fun _ => ?_
      simp [ReportsFresh, hg]
    case isFalse => cases hstep

/-- All reports of a run are right exactly when those before it were and its own are of fresh
gestures. -/
theorem allRight_run_iff (h : Inv s) {inputs : List (Input F)}
    (hrun : run step s inputs = some s') :
    s'.AllRight ↔ s.AllRight ∧ Meets step ReportsFresh s inputs :=
  run_iff (fun hinv hstep => Inv.step hinv hstep)
    (fun hinv hstep => Inv.allRight_iff hinv hstep) h hrun

/-- **Taps and long presses are reported where their gesture began**, once for each gesture, and no
tap after motion, exactly when each gesture that is reported began with no point in the detector or
with its own. -/
theorem reports_right_iff {touchSlop : Int32} {inputs : List (Input F)}
    (hrun : run step (start touchSlop) inputs = some s) :
    s.AllRight ↔ Meets step ReportsFresh (start touchSlop) inputs := by
  rw [allRight_run_iff (inv_start touchSlop) hrun]
  exact and_iff_right nofun

/-- One finger at a position. -/
def touchAt (action : MotionAction) (x y : F) : Input F :=
  .touch ⟨action, [⟨0, x, y⟩], ⟨0, Nat.one_pos⟩⟩

/-- A tap, and a press elsewhere that is held. -/
def tapThenPress : List (Input Int) :=
  [touchAt .down 0 0, touchAt .up 0 0, touchAt .down 50 50, touchAt .move 52 50, .timeout,
    touchAt .up 52 50]

theorem reports_right_tapThenPress : ((run step (start 8) tapThenPress).get rfl).AllRight := by
  refine (reports_right_iff (s := (run step (start 8) tapThenPress).get rfl)
    (Option.some_get _).symm).mpr ?_
  decide +kernel

/-- A gesture that is cancelled, and a tap elsewhere. -/
def tapAfterCancel : List (Input Int) :=
  [touchAt .down 0 0, touchAt .cancel 0 0, touchAt .down 50 50, touchAt .up 50 50]

theorem tapAfterCancel_wrong :
    ¬ ∀ (inputs : List (Input Int)) (s : State Int), run step (start 8) inputs = some s →
      s.AllRight := by
  intro hall
  have hright := hall tapAfterCancel _ rfl
  have htap := (hright _ (List.mem_singleton_self _)).1
  revert htap
  decide

/-! ## Gestures that are not cancelled -/

def NotCancelled (_ : State F) : Input F → Prop
  | .touch e => e.action ≠ .cancel
  | .timeout => True

/-- No point is left between gestures, and none was found by the one in progress. -/
structure NoneFound (s : State F) : Prop extends Inv s where
  between : s.gesture = none → s.detector.mInitialPoint = none
  found : ∀ g ∈ s.gesture, g.found = none

theorem after_found (g : Gesture F) (slop : Int32) (e : MotionEvent F) :
    (g.after slop e).found = g.found := by
  unfold Gesture.after
  split <;> rfl

theorem onTouchEvent_up_point (haction : e.action = .up) :
    (d.onTouchEvent e).1.mInitialPoint = none := by
  obtain ⟨_, _, _, _, mInitialPoint, mTapCancelled⟩ := d
  simp only [TapGestureDetector.onTouchEvent, haction]
  cases mTapCancelled <;> cases mInitialPoint <;> rfl

/-- The gesture that an event is of did not find a point, if none is left between gestures. -/
theorem NoneFound.gestureOf (h : NoneFound s) (hg : s.gestureOf e = some g) : g.found = none := by
  obtain ⟨-, hgesture, rfl⟩ | ⟨-, before, hbefore, rfl⟩ := gestureOf_eq_some hg
  · exact h.between hgesture
  · rw [after_found]
    exact h.found before hbefore

/-- **Step lemma.** Without a cancelled gesture no point is left over. -/
theorem NoneFound.step (h : NoneFound s) {a : Input F} (hnot : NotCancelled s a)
    (hstep : TapGestures.step s a = some s') :
    NoneFound s' := by
  have hinv := h.toInv.step hstep
  cases a with
  | touch e =>
    simp only [TapGestures.step] at hstep
    split at hstep
    case isTrue hof =>
      obtain ⟨g, hg, rfl⟩ := Option.map_eq_some_iff.mp hstep
      by_cases hends : endsGesture e.action = true
      · refine ⟨hinv, fun _ => onTouchEvent_up_point (up_of_ends hends hnot), ?_⟩
        simp [hends]
      · refine ⟨hinv, ?_, ?_⟩
        · simp [hends]
        · simpa [hends, Gesture.notified] using h.gestureOf hg
    case isFalse hof =>
      cases hstep
      rw [onTouchEvent_other hof] at hinv ⊢
      exact h
  | timeout =>
    simp only [TapGestures.step] at hstep
    split at hstep
    case isTrue hp =>
      cases hstep
      obtain ⟨hgesture, -⟩ := h.pending hp
      refine ⟨hinv, fun hnone => ?_, fun g' hg' => ?_⟩
      · rw [Option.map_eq_none_iff.mp hnone] at hgesture
        cases hgesture
      · obtain ⟨g, hg, rfl⟩ := Option.map_eq_some_iff.mp hg'
        exact h.found g hg
    case isFalse => cases hstep

/-- No run without a cancelled gesture reports anything wrong. -/
theorem allRight_of_notCancelled {touchSlop : Int32} {inputs : List (Input F)}
    (hnot : Meets step NotCancelled (start touchSlop) inputs)
    (hrun : run step (start touchSlop) inputs = some s) :
    s.AllRight := by
  have hfresh : ∀ {s : State F} {a}, NoneFound s → NotCancelled s a → ReportsFresh s a := by
    intro s a h _
    cases a with
    | timeout => exact fun g hg => .inl (h.found g hg)
    | touch e => exact fun _ _ g hg => .inl (h.found g hg)
  have hmeets : Meets step ReportsFresh (start touchSlop) inputs :=
    hnot.imp (fun h hok hstep => h.step hok hstep) hfresh ⟨inv_start touchSlop, fun _ => rfl, nofun⟩
  exact (allRight_run_iff (inv_start touchSlop) hrun).mpr ⟨nofun, hmeets⟩

end WinEmulator.X11.TapGestures
