import Mathlib.Tactic.FieldSimp
import Mathlib.Tactic.Linarith
import WinEmulator.Laws.Lorie.TouchWords

/-!
# Which updates are dropped

The handler compares the position of an update, in pixels, with the axes of its touch, which are
those that were queued and so scaled. An update is dropped if its position is what the last one was
scaled to, and kept if it is the last one, unless a coordinate is scaled to itself.
-/

set_option autoImplicit false

namespace WinEmulator.Lorie.TouchInput

open WinEmulator.Lib

/-- A position in pixels, on a screen. -/
structure Position where
  width : Int16
  height : Int16
  x : ℚ
  y : ℚ
deriving DecidableEq

def position (s : Server) (e : Touch) : Position :=
  ⟨s.width, s.height, clampTo s.width e.x, clampTo s.height e.y⟩

/-- Nothing is queued. -/
def Dropped (s : Server) (e : Touch) : Prop := (handleTouchEvent e s).queue = s.queue

instance (s : Server) (e : Touch) : Decidable (Dropped s e) :=
  inferInstanceAs (Decidable ((handleTouchEvent e s).queue = s.queue))

/-- The server, and the position of the last event that was queued for each touch. -/
structure Recorded where
  server : Server
  last : UInt32 → Option Position

/-- A step of the server, with the record of what it queues. -/
def record (r : Recorded) : Action → Option Recorded
  | .touch e =>
    some ⟨handleTouchEvent e r.server,
      if Dropped r.server e then r.last
      else Function.update r.last e.id.toUInt32 (some (position r.server e))⟩
  | .resize width height =>
    some { r with server := { r.server with width := width, height := height } }

def startRecorded (width height : Int16) : Recorded := ⟨start width height, fun _ => none⟩

/-- An update is dropped if and only if it repeats the last event that was queued for its touch, on
the same screen. -/
def DropsRepeat (r : Recorded) (e : Touch) : Prop :=
  Dropped r.server e ↔ r.last e.id.toUInt32 = some (position r.server e)

instance (r : Recorded) (e : Touch) : Decidable (DropsRepeat r e) :=
  inferInstanceAs
    (Decidable (Dropped r.server e ↔ r.last e.id.toUInt32 = some (position r.server e)))

/-- The update of a touch that is active. -/
structure Updates (s : Server) (e : Touch) : Prop where
  type : e.type = XI_TouchUpdate
  active : e.id.toUInt32 ∈ actives s.touches

/-- A coordinate is scaled to another one. -/
def ScaledTo (size : Int16) (old new : ℚ) : Prop := size ≠ 0 ∧ old * 0xFFFF = new * size.toInt

/-- A coordinate is scaled to itself: no size is 2¹⁶ - 1, so it is the first one. -/
def Kept (size : Int16) (x : ℚ) : Prop := size ≠ 0 ∧ x = 0

/-- A repeated position is scaled to itself, and another one is not what the last one was scaled
to. -/
def Told (last now : Position) : Prop :=
  (last = now → Kept now.width now.x ∧ Kept now.height now.y) ∧
    (last ≠ now → ¬(ScaledTo last.width last.x now.x ∧ ScaledTo last.height last.y now.y))

variable {id i : UInt32} {touches : Touches} {ti : DDXTouchPointInfo} {type : UInt16}
  {mask : Valuators} {s : Server}
  {e : Touch} {r r' : Recorded} {a : Action}

/-! ## Axes -/

theorem toInt_ne_zero {size : Int16} (h : size ≠ 0) : (size.toInt : ℚ) ≠ 0 :=
  Int.cast_ne_zero.mpr fun hzero => h (Int16.toInt_inj.mp hzero)

/-- The scaled valuator is the value's share of the size, which must not be zero. -/
theorem scale_eq_some {size : Int16} {old new : ℚ} :
    scale size old = some new ↔ ScaledTo size old new := by
  unfold scale ScaledTo
  split
  case isTrue h => exact iff_of_false nofun fun hscaled => hscaled.1 h
  case isFalse h =>
    rw [Option.some_inj, div_eq_iff (toInt_ne_zero h)]
    exact (and_iff_right h).symm

theorem scaledTo_self {size : Int16} {x : ℚ} : ScaledTo size x x ↔ Kept size x := by
  apply and_congr_right
  intro _
  have hsize : (0xFFFF : ℚ) ≠ size.toInt := by
    have hlt := size.toInt_lt
    exact_mod_cast (show (0xFFFF : Int) ≠ size.toInt by omega)
  rw [mul_eq_mul_left_iff, or_iff_right hsize]

/-! ## The records of the touches -/

theorem isFor_of_ne (hid : ti.ddx_id = id) (hne : i ≠ id) : ti.isFor i = false := by
  rw [DDXTouchPointInfo.isFor, hid, beq_false_of_ne hne.symm, Bool.and_false]

/-- The records of the other touches stay. -/
theorem find_write_ne {f : DDXTouchPointInfo → DDXTouchPointInfo}
    (hf : ∀ ti, (f ti).ddx_id = ti.ddx_id) (hne : i ≠ id) :
    TouchFindByDDXID i (writeTouch id f touches) = TouchFindByDDXID i touches := by
  unfold TouchFindByDDXID
  induction touches with
  | nil => rfl
  | cons ti touches ih =>
    rw [writeTouch]
    split
    case isTrue h =>
      have hid : ti.ddx_id = id := eq_of_beq (Bool.and_eq_true_iff.mp h).2
      rw [List.find?_cons, List.find?_cons, isFor_of_ne hid hne,
        isFor_of_ne ((hf ti).trans hid) hne]
    case isFalse h => rw [List.find?_cons, List.find?_cons, ih]

/-- The record of the touch has what was written, if it is still active. -/
theorem find_write_self {f : DDXTouchPointInfo → DDXTouchPointInfo}
    (hf : ∀ ti, (f ti).valuators = some mask)
    (hnodup : (actives touches).Nodup)
    (hfind : TouchFindByDDXID id (writeTouch id f touches) = some ti) :
    ti.valuators = some mask := by
  induction touches with
  | nil => cases hfind
  | cons head touches ih =>
    rw [writeTouch] at hfind
    rw [actives_cons] at hnodup
    split at hfind
    case isTrue h =>
      obtain ⟨hactive, hid⟩ := Bool.and_eq_true_iff.mp h
      rw [TouchFindByDDXID, List.find?_cons] at hfind
      split at hfind
      · cases hfind
        exact hf head
      · rw [if_pos hactive, eq_of_beq hid, List.nodup_cons] at hnodup
        exact absurd (find_isSome.mp (Option.isSome_of_eq_some hfind)) hnodup.1
    case isFalse h =>
      rw [TouchFindByDDXID, List.find?_cons, Bool.eq_false_iff.mpr h] at hfind
      apply ih _ hfind
      split at hnodup
      · exact hnodup.of_cons
      · exact hnodup

/-- Taking a record for a touch leaves those of the others. -/
theorem find_take_ne (num_touches : Nat) (hne : i ≠ id) :
    TouchFindByDDXID i (takeRecord num_touches id touches) = TouchFindByDDXID i touches := by
  unfold TouchFindByDDXID
  induction touches with
  | nil =>
    rw [takeRecord, List.find?_cons, isFor_of_ne rfl hne]
    exact List.find?_eq_none.mpr fun ti hti => by
      rw [List.eq_of_mem_replicate hti]
      exact Bool.false_ne_true
  | cons ti touches ih =>
    rw [takeRecord]
    split
    case isTrue h => rw [List.find?_cons, List.find?_cons, ih]
    case isFalse h =>
      have hinactive : ti.isFor i = false := by
        rw [DDXTouchPointInfo.isFor, Bool.eq_false_iff.mpr h, Bool.false_and]
      rw [List.find?_cons, List.find?_cons, isFor_of_ne rfl hne, hinactive]

/-- What `GetTouchEvents` does to the records: nothing, or it writes to one that it found or
took. -/
theorem getTouchEvents_writes (id : UInt32) (type : UInt16) (mask : Valuators)
    (hnodup : (actives touches).Nodup) :
    GetTouchEvents id type mask touches = (touches, none) ∨
      ∃ taken f event, GetTouchEvents id type mask touches = (writeTouch id f taken, some event) ∧
        (∀ ti, (f ti).ddx_id = ti.ddx_id) ∧ (∀ ti, (f ti).valuators = some mask) ∧
          (actives taken).Nodup ∧
        ∀ i ≠ id, TouchFindByDDXID i taken = TouchFindByDDXID i touches := by
  unfold GetTouchEvents
  cases hcreate : findOrCreate id type touches with
  | none => exact .inl rfl
  | some taken =>
    have htaken :
        (actives taken).Nodup ∧ (∀ i ≠ id, TouchFindByDDXID i taken = TouchFindByDDXID i touches) ∧
        (type ≠ XI_TouchBegin → taken = touches) := by
      unfold findOrCreate at hcreate
      split at hcreate
      case isTrue => exact Option.some.inj hcreate ▸ ⟨hnodup, fun _ _ => rfl, fun _ => rfl⟩
      case isFalse hfind =>
        split at hcreate
        case isTrue hbegin =>
          cases hcreate
          have hnew : id ∉ actives touches := fun hid => hfind (find_isSome.mpr hid)
          refine ⟨?_, fun i hne => find_take_ne touches.length hne, fun hne => absurd hbegin hne⟩
          exact (actives_take touches.length).nodup_iff.mpr (List.nodup_cons.mpr ⟨hnew, hnodup⟩)
        case isFalse => cases hcreate
    obtain ⟨hnodup', hothers, hsame⟩ := htaken
    dsimp only
    split
    · exact .inr ⟨taken, _, _, rfl, fun _ => rfl, fun _ => rfl, hnodup', hothers⟩
    next hbegin =>
      split
      · exact .inr ⟨taken, _, _, rfl, fun _ => rfl, fun _ => rfl, hnodup', hothers⟩
      · split
        · exact .inr ⟨taken, _, _, rfl, fun _ => rfl, fun _ => rfl, hnodup', hothers⟩
        · exact .inl (by rw [hsame hbegin])

/-! ## What the touches remember -/

/-- What a queued event leaves: the records of the others, and the axes of its own touch if that is
still active. -/
structure Writes (s : Server) (id : UInt32) (mask : Valuators) (s' : Server) : Prop where
  others : ∀ i ≠ id, TouchFindByDDXID i s'.touches = TouchFindByDDXID i s.touches
  own : ∀ ti, TouchFindByDDXID id s'.touches = some ti → ti.valuators = some mask

/-- Queueing an event writes its valuators. -/
theorem queueTouchEvents_writes (hnodup : (actives s.touches).Nodup)
    (hqueue : (s.QueueTouchEvents type id mask).queue ≠ s.queue) :
    Writes s id mask (s.QueueTouchEvents type id mask) := by
  unfold Server.QueueTouchEvents at hqueue ⊢
  rcases getTouchEvents_writes id type mask hnodup
    with h | ⟨taken, f, event, h, hid, hmask, hnodup', hothers⟩
  · rw [h] at hqueue
    exact absurd (List.append_nil _) hqueue
  · rw [h]
    exact ⟨fun i hne => (find_write_ne hid hne).trans (hothers i hne),
      fun ti hti => find_write_self hmask hnodup' hti⟩

/-- The axes of an event. -/
def Position.valuators (p : Position) : Valuators := (scale p.width p.x, scale p.height p.y)

/-- A touch event queues one event or changes nothing. -/
theorem handleTouchEvent_queues (s : Server) (e : Touch) :
    handleTouchEvent e s = s ∨
      ∃ type, handleTouchEvent e s = s.QueueTouchEvents type e.id.toUInt32
        (position s e).valuators := by
  unfold handleTouchEvent
  extract_lets x y touch active type
  split
  · exact .inl rfl
  · split
    · exact .inl rfl
    · exact .inr ⟨type, rfl⟩

/-- An event that is not dropped is written. -/
theorem writes_of_not_dropped (hnodup : (actives s.touches).Nodup) (h : ¬Dropped s e) :
    Writes s e.id.toUInt32 (position s e).valuators (handleTouchEvent e s) := by
  rcases handleTouchEvent_queues s e with heq | ⟨type, heq⟩
  · exact absurd (congrArg Server.queue heq) h
  · rw [Dropped, heq] at h
    rw [heq]
    exact queueTouchEvents_writes hnodup h

/-- The touches that are active have the axes of the last event that was queued for them. -/
structure Remembers (r : Recorded) : Prop where
  tracks : Tracks r.server
  axes : ∀ id ti, TouchFindByDDXID id r.server.touches = some ti →
    ∃ last, r.last id = some last ∧ ti.valuators = some last.valuators

theorem remembers_start (width height : Int16) : Remembers (startRecorded width height) where
  tracks := tracks_start width height
  axes id ti h := by
    have hactive : id ∈ actives (start width height).touches :=
      find_isSome.mp (Option.isSome_of_eq_some h)
    rw [start, actives_blank] at hactive
    cases hactive

/-- The record says no more about the server than a step of it. -/
theorem record_server (r : Recorded) (a : Action) :
    (record r a).map Recorded.server = step r.server a := by
  cases a <;> rfl

/-- **Step lemma.** The record follows the server. -/
theorem Remembers.next (h : Remembers r) (hstep : record r a = some r') : Remembers r' := by
  have hserver : step r.server a = some r'.server := by
    rw [← record_server, hstep]
    rfl
  refine ⟨h.tracks.next hserver, fun id ti hti => ?_⟩
  cases a with
  | resize width height =>
    cases hstep
    exact h.axes id ti hti
  | touch e =>
    cases hstep
    dsimp only at hti ⊢
    split
    case isTrue hdropped =>
      have htouches : (handleTouchEvent e r.server).touches = r.server.touches := by
        cases handleTouchEvent_handles (e := e) h.tracks.nodup with
        | dropped _ _ _ htouches _ => exact htouches
        | queued event _ hqueue _ _ _ =>
          have hlength := congrArg List.length (hqueue.symm.trans hdropped)
          rw [List.length_append, List.length_singleton] at hlength
          omega
      rw [htouches] at hti
      exact h.axes id ti hti
    case isFalse hqueued =>
      have hwrites := writes_of_not_dropped h.tracks.nodup hqueued
      by_cases hid : id = e.id.toUInt32
      · subst hid
        exact ⟨_, Function.update_self .., hwrites.own ti hti⟩
      · rw [Function.update_of_ne hid]
        exact h.axes id ti (hwrites.others id hid ▸ hti)

theorem remembers_run {width height : Int16} {actions : List Action}
    (h : run record (startRecorded width height) actions = some r) : Remembers r :=
  run_invariant Remembers.next (remembers_start width height) h

/-! ## When an update is dropped -/

/-- The comparison of the handler. -/
theorem dropped_iff (h : Updates s e) :
    Dropped s e ↔ (TouchFindByDDXID e.id.toUInt32 s.touches).bind (·.valuators) =
      some (some (clampTo s.width e.x), some (clampTo s.height e.y)) := by
  have hfound : (TouchFindByDDXID e.id.toUInt32 s.touches).any (·.active) = true :=
    find_active ▸ find_isSome.mpr h.active
  have hend : XI_TouchUpdate ≠ XI_TouchEnd := by decide
  unfold Dropped handleTouchEvent
  simp only [hfound, h.type, true_and, not_true_eq_false, and_false, if_false]
  split
  case isTrue hsame => exact iff_of_true rfl hsame
  case isFalse hsame =>
    refine iff_of_false (fun hqueue => ?_) hsame
    unfold Server.QueueTouchEvents at hqueue
    dsimp only at hqueue
    rw [(getTouchEvents_update _ h.active).1] at hqueue
    have hlength := congrArg List.length hqueue
    simp only [Option.map_some, Option.toList_some, List.length_append, List.length_singleton]
      at hlength
    omega

/-- An update is dropped if the last event was scaled to its position. -/
theorem Remembers.dropped_iff (h : Remembers r) (hupdates : Updates r.server e) :
    ∃ last, r.last e.id.toUInt32 = some last ∧
      (Dropped r.server e ↔ ScaledTo last.width last.x (position r.server e).x ∧
        ScaledTo last.height last.y (position r.server e).y) := by
  obtain ⟨ti, hti⟩ := Option.isSome_iff_exists.mp (find_isSome.mpr hupdates.active)
  obtain ⟨last, hlast, haxes⟩ := h.axes _ ti hti
  refine ⟨last, hlast, ?_⟩
  rw [TouchInput.dropped_iff hupdates, hti, Option.bind_some, haxes, Option.some_inj,
    Position.valuators,
    Prod.mk_inj, scale_eq_some, scale_eq_some]
  rfl

/-- Whether a repeat is dropped, and nothing else, depends on the position that was told last. -/
theorem Remembers.dropsRepeat_iff (h : Remembers r) (hupdates : Updates r.server e) :
    ∃ last, r.last e.id.toUInt32 = some last ∧
      (DropsRepeat r e ↔ Told last (position r.server e)) := by
  obtain ⟨last, hlast, hdropped⟩ := h.dropped_iff hupdates
  refine ⟨last, hlast, ?_⟩
  rw [DropsRepeat, hdropped, hlast, Option.some_inj, Told]
  by_cases heq : last = position r.server e
  · subst heq
    rw [scaledTo_self, scaledTo_self]
    exact ⟨fun h => ⟨fun _ => h.mpr rfl, fun hne => absurd rfl hne⟩,
      fun h => iff_of_true (h.1 rfl) rfl⟩
  · exact ⟨fun h => ⟨fun h' => absurd h' heq, fun _ hscaled => heq (h.mp hscaled)⟩,
      fun h => iff_of_false (h.2 heq) heq⟩

/-! ## Which screens are told apart -/

theorem clampTo_of_neg {size : Int16} (h : size.toInt < 0) (c : UInt16) : clampTo size c = 0 := by
  have hsize : (size.toInt : ℚ) ≤ 0 := Int.cast_nonpos.mpr h.le
  exact max_eq_right ((min_le_right _ _).trans hsize)

/-- The second pixel is scaled to itself only where there is none. -/
theorem neg_of_kept {size : Int16} (h : Kept size (clampTo size 1)) : size.toInt < 0 := by
  obtain ⟨hne, hzero⟩ := h
  by_contra hle
  have hpos : (1 : ℚ) ≤ size.toInt := by
    have hnonzero : size.toInt ≠ 0 := fun hzero => hne (Int16.toInt_inj.mp hzero)
    exact_mod_cast (show 1 ≤ size.toInt by omega)
  have hone : clampTo size 1 = 1 := by
    unfold clampTo
    rw [show (((1 : UInt16).toNat : ℕ) : ℚ) = 1 from Nat.cast_one, min_eq_left hpos]
    exact max_eq_left zero_le_one
  exact one_ne_zero (hone.symm.trans hzero)

theorem scaledTo_of_neg {size : Int16} (h : size.toInt < 0) (c c' : UInt16) :
    ScaledTo size (clampTo size c) (clampTo size c') ↔ clampTo size c = clampTo size c' := by
  rw [clampTo_of_neg h, clampTo_of_neg h]
  exact iff_of_true
    ⟨fun hzero =>
    absurd (hzero ▸ h : (0 : Int16).toInt < 0) (by decide), by rw [zero_mul, zero_mul]⟩ rfl

/-- As long as the screen has its size. -/
structure OnScreen (width height : Int16) (r : Recorded) : Prop where
  width_eq : r.server.width = width
  height_eq : r.server.height = height
  last : ∀ id p, r.last id = some p → ∃ x y : UInt16,
    p = ⟨width, height, clampTo width x, clampTo height y⟩

theorem handleTouchEvent_size (s : Server) (e : Touch) :
    (handleTouchEvent e s).width = s.width ∧ (handleTouchEvent e s).height = s.height := by
  rcases handleTouchEvent_queues s e with h | ⟨type, h⟩ <;> rw [h] <;> exact ⟨rfl, rfl⟩

/-- Touches alone leave the size as it was. -/
theorem onScreen_run {width height : Int16} {touches : List Touch}
    (h : run record (startRecorded width height) (touches.map .touch) = some r) :
    OnScreen width height r := by
  generalize hr : startRecorded width height = r0 at h
  have h0 : OnScreen width height r0 := by
    subst hr
    exact ⟨rfl, rfl, nofun⟩
  clear hr
  induction touches generalizing r0 with
  | nil => exact Option.some.inj h ▸ h0
  | cons e touches ih =>
    obtain ⟨mid, hstep, hrun⟩ := run_cons.mp h
    apply ih mid hrun
    cases hstep
    obtain ⟨hwidth, hheight⟩ := handleTouchEvent_size r0.server e
    refine ⟨hwidth.trans h0.width_eq, hheight.trans h0.height_eq, fun id p hp => ?_⟩
    dsimp only at hp
    split at hp
    · exact h0.last id p hp
    · by_cases hid : id = e.id.toUInt32
      · subst hid
        rw [Function.update_self, Option.some_inj] at hp
        refine ⟨e.x, e.y, hp.symm.trans ?_⟩
        rw [position, h0.width_eq, h0.height_eq]
      · rw [Function.update_of_ne hid] at hp
        exact h0.last id p hp

/-- Begins a touch at the second pixel of the second row. -/
def cornerBegin : Touch := ⟨XI_TouchBegin, 0, 1, 1⟩

/-- And stays there. -/
def cornerUpdate : Touch := ⟨XI_TouchUpdate, 0, 1, 1⟩

/-- A touch in the corner whose update repeats it, for every size. -/
theorem corner_repeats (width height : Int16) :
    ∃ r, run record (startRecorded width height) [.touch cornerBegin] = some r ∧
      Updates r.server cornerUpdate ∧
      r.last 0 = some (position r.server cornerUpdate) := by
  refine ⟨_, rfl, ?_⟩
  have hnodup := (tracks_start width height).nodup
  obtain ⟨hwidth, hheight⟩ := handleTouchEvent_size (start width height) cornerBegin
  cases handleTouchEvent_handles (e := cornerBegin) hnodup with
  | dropped hbegin => exact absurd rfl hbegin
  | queued event hends hqueue hnodup' hmem _ =>
    refine ⟨⟨rfl, ?_⟩, ?_⟩
    · apply (hmem 0).mpr
      rw [if_pos (show (0 : UInt32) = cornerBegin.id.toUInt32 from rfl)]
      cases event with
      | touchEnd => exact absurd (hends.mp rfl) (by decide)
      | touchBegin => rfl
      | touchUpdate => rfl
    · have hqueued : ¬Dropped (start width height) cornerBegin := fun hdropped => by
        have hlength := congrArg List.length (hqueue.symm.trans hdropped)
        rw [List.length_append, List.length_singleton] at hlength
        omega
      dsimp only
      rw [startRecorded, if_neg hqueued, show (0 : UInt32) = cornerBegin.id.toUInt32 from rfl,
        Function.update_self,
        Option.some_inj, position, position, hwidth, hheight]
      rfl

/-- **An update of an active touch is dropped as a repeat and only then** exactly if its position,
when it repeats the last one, is scaled to itself and, when it does not, is not what the last one
was scaled to. On a screen of one size all updates are so in all runs exactly if it is negative both
ways, so that there is one position only. -/
theorem dropsRepeat_iff_told (width height : Int16) :
    (∀ actions r e, run record (startRecorded width height) actions = some r → Updates r.server e →
      ∃ last, r.last e.id.toUInt32 = some last ∧
        (DropsRepeat r e ↔ Told last (position r.server e))) ∧
    ((∀ (touches : List Touch) (r : Recorded) (e : Touch),
        run record (startRecorded width height) (touches.map .touch) = some r → Updates r.server e →
          DropsRepeat r e) ↔
      width.toInt < 0 ∧ height.toInt < 0) := by
  refine ⟨fun actions r e hrun hupdates => (remembers_run hrun).dropsRepeat_iff hupdates, ?_, ?_⟩
  · intro hall
    obtain ⟨r, hrun, hupdates, hlast⟩ := corner_repeats width height
    have honScreen : OnScreen width height r :=
      onScreen_run
        (show run record (startRecorded width height) ([cornerBegin].map .touch) = some r from hrun)
    obtain ⟨last, hlast', hiff⟩ := (remembers_run hrun).dropsRepeat_iff hupdates
    have htold := hiff.mp (hall [cornerBegin] r cornerUpdate hrun hupdates)
    obtain rfl := Option.some.inj (hlast'.symm.trans hlast)
    obtain ⟨hx, hy⟩ := htold.1 rfl
    rw [position, honScreen.width_eq, honScreen.height_eq] at hx hy
    exact ⟨neg_of_kept hx, neg_of_kept hy⟩
  · intro ⟨hwidth, hheight⟩ touches r e hrun hupdates
    have honScreen := onScreen_run hrun
    obtain ⟨last, hlast, hdropped⟩ := (remembers_run hrun).dropped_iff hupdates
    obtain ⟨x, y, rfl⟩ := honScreen.last _ _ hlast
    rw [DropsRepeat, hdropped, hlast, Option.some_inj, position, honScreen.width_eq,
      honScreen.height_eq,
      scaledTo_of_neg hwidth, scaledTo_of_neg hheight, Position.mk.injEq]
    exact ⟨fun ⟨hx, hy⟩ => ⟨rfl, rfl, hx, hy⟩, fun ⟨_, _, hx, hy⟩ => ⟨hx, hy⟩⟩

/-- After a touch began on a screen. -/
def begun (width height : Int16) : Recorded :=
  ((run record (startRecorded width height) [.touch cornerBegin]).get rfl)

theorem dropsRepeat_iff_told_begun :
    DropsRepeat (begun (-1) (-1)) cornerUpdate ∧
      ∃ last, (begun 1920 1080).last 0 = some last ∧
        (DropsRepeat (begun 1920 1080) cornerUpdate ↔
          Told last (position (begun 1920 1080).server cornerUpdate)) := by
  constructor
  · exact (dropsRepeat_iff_told (-1) (-1)).2.mpr ⟨by decide, by decide⟩ [cornerBegin] _ cornerUpdate
      (Option.some_get _).symm ⟨rfl, by decide +kernel⟩
  · exact (dropsRepeat_iff_told 1920 1080).1 [.touch cornerBegin] _ cornerUpdate
      (Option.some_get _).symm
      ⟨rfl, by decide +kernel⟩

/-- A touch that stays where it is is not dropped, and on a screen of 257 × 257 pixels one that
moves from the second pixel to the 256th both ways is. -/
theorem begun_not_dropsRepeat :
    (Updates (begun 1920 1080).server cornerUpdate ∧ ¬DropsRepeat (begun 1920 1080) cornerUpdate) ∧
      Updates (begun 257 257).server ⟨XI_TouchUpdate, 0, 255, 255⟩ ∧
      ¬DropsRepeat (begun 257 257) ⟨XI_TouchUpdate, 0, 255, 255⟩ :=
  ⟨⟨⟨rfl, by decide +kernel⟩, by decide +kernel⟩, ⟨rfl, by decide +kernel⟩, by decide +kernel⟩

end WinEmulator.Lorie.TouchInput
