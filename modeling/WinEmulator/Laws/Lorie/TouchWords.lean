import WinEmulator.Lorie.TouchInput
import WinEmulator.X11.TouchSender

/-!
# What is queued for a touch

The handler begins a touch for an update that has none and drops an end that has none. A
`XI_TouchBegin` goes through as it is, and for a touch that is still active, because its end was
lost, the server finds the old record and queues a second begin. So the events of a touch are the
start of a word of begins, updates and ends in order exactly when no begin came for an active touch.
-/

set_option autoImplicit false

namespace WinEmulator.Lorie.TouchInput

open WinEmulator.Lib

def EventType.letter : EventType → Sessions.Letter
  | .touchBegin => .opens
  | .touchUpdate => .goesOn
  | .touchEnd => .closes

/-- The ids of the touches that are active. -/
def actives (touches : Touches) : List UInt32 := (touches.filter (·.active)).map (·.ddx_id)

/-- What was queued for a touch. -/
def Server.word (s : Server) (id : UInt32) : List Sessions.Letter :=
  s.queue.filterMap fun (i, event) => if i = id then some event.letter else none

/-- The events of every touch are the start of a word of `(TouchBegin TouchUpdate* TouchEnd)*`. -/
def WellFormed (s : Server) : Prop := ∀ id, Sessions.StartOfSessions (s.word id)

/-- A `XI_TouchBegin` is for a touch that is not active. -/
def BeginsInactive (s : Server) : Action → Prop
  | .touch e => e.type = XI_TouchBegin → (TouchFindByDDXID e.id.toUInt32 s.touches).isNone
  | .resize _ _ => True

instance (s : Server) : ∀ a, Decidable (BeginsInactive s a)
  | .touch e =>
    inferInstanceAs
      (Decidable (e.type = XI_TouchBegin →
      (TouchFindByDDXID e.id.toUInt32 s.touches).isNone = true))
  | .resize _ _ => inferInstanceAs (Decidable True)

/-- The touches that are active are those that the queue says so of, and no two have one id. -/
structure Tracks (s : Server) : Prop where
  nodup : (actives s.touches).Nodup
  isOpen : ∀ id, id ∈ actives s.touches ↔ Sessions.isOpen (s.word id) = true

variable {id : UInt32} {touches : Touches} {ti : DDXTouchPointInfo}

/-! ## Touches -/

@[simp] theorem actives_nil : actives [] = [] := rfl

theorem actives_cons :
    actives (ti :: touches) = if ti.active then ti.ddx_id :: actives touches
      else actives touches := by
  simp only [actives, List.filter_cons]
  split
  case isTrue h => exact List.map_cons
  case isFalse h => rfl

theorem actives_blank (n : Nat) : actives (List.replicate n blank) = [] := by
  simp [actives, blank]

theorem find_isSome : (TouchFindByDDXID id touches).isSome = true ↔ id ∈ actives touches := by
  simp [TouchFindByDDXID, DDXTouchPointInfo.isFor, actives, and_assoc]

theorem find_isNone : (TouchFindByDDXID id touches).isNone = true ↔ id ∉ actives touches := by
  rw [← find_isSome, Bool.not_eq_true, Option.isSome_eq_false_iff]

/-- The touch that is found is active. -/
theorem find_active :
    (TouchFindByDDXID id touches).any (·.active) = (TouchFindByDDXID id touches).isSome := by
  cases hfind : TouchFindByDDXID id touches with
  | none => rfl
  | some ti =>
    have hfor : ti.isFor id = true := List.find?_some hfind
    rw [DDXTouchPointInfo.isFor, Bool.and_eq_true] at hfor
    exact hfor.1

/-- Writing to the axes of a touch leaves it active or not. -/
theorem actives_write (mask : Valuators) :
    actives (writeTouch id (fun ti => { ti with valuators := some mask }) touches) =
      actives touches := by
  induction touches with
  | nil => rfl
  | cons ti touches ih =>
    rw [writeTouch]
    split
    case isTrue h => simp only [actives_cons]
    case isFalse h => simp only [actives_cons, ih]

/-- Ending a touch. -/
theorem actives_end (mask : Valuators) :
    actives (writeTouch id (fun ti => { ti with active := false, valuators := some mask })
      touches) =
      (actives touches).erase id := by
  induction touches with
  | nil => rfl
  | cons ti touches ih =>
    rw [writeTouch]
    split
    case isTrue h =>
      obtain ⟨hactive, hid⟩ := Bool.and_eq_true_iff.mp h
      obtain rfl := eq_of_beq hid
      simp [actives_cons, hactive]
    case isFalse h =>
      rw [actives_cons, actives_cons, ih]
      split
      case isTrue hactive =>
        have hne : ¬(ti.ddx_id == id) = true :=
          fun hid => h (Bool.and_eq_true_iff.mpr ⟨hactive, hid⟩)
        rw [List.erase_cons_tail hne]
      case isFalse hactive => rfl

/-- Taking a record, of the table or of those it grows by. -/
theorem actives_take (num_touches : Nat) :
    (actives (takeRecord num_touches id touches)).Perm (id :: actives touches) := by
  induction touches with
  | nil => simp [takeRecord, actives_cons, actives_blank]
  | cons ti touches ih =>
    rw [takeRecord]
    split
    case isTrue h =>
      simp only [actives_cons, h, if_true]
      exact (ih.cons _).trans (List.Perm.swap _ _ _)
    case isFalse h => simp [actives_cons, h]

/-! ## What `GetTouchEvents` does -/

variable {type : UInt16} {mask : Valuators}

/-- A begin makes its touch active, and so queues `ET_TouchBegin`, whether or not it was. -/
theorem getTouchEvents_begin (id : UInt32) (mask : Valuators) (hnodup : (actives touches).Nodup) :
    (GetTouchEvents id XI_TouchBegin mask touches).2 = some .touchBegin ∧
      (actives (GetTouchEvents id XI_TouchBegin mask touches).1).Nodup ∧
      ∀ i, i ∈ actives (GetTouchEvents id XI_TouchBegin mask touches).1 ↔
        i = id ∨ i ∈ actives touches := by
  unfold GetTouchEvents findOrCreate
  by_cases hfind : (TouchFindByDDXID id touches).isSome = true
  · simp only [hfind, if_true, actives_write, true_and]
    refine ⟨hnodup, fun i => ⟨Or.inr, ?_⟩⟩
    rintro (rfl | hi)
    · exact find_isSome.mp hfind
    · exact hi
  · simp only [hfind, Bool.false_eq_true, if_false, if_true, actives_write, true_and]
    have htaken : (actives (takeRecord touches.length id touches)).Perm (id :: actives touches) :=
      actives_take touches.length
    refine ⟨htaken.nodup_iff.mpr
      (List.nodup_cons.mpr ⟨fun hid => hfind (find_isSome.mpr hid), hnodup⟩), fun i => ?_⟩
    exact htaken.mem_iff.trans List.mem_cons

/-- An update is for an active touch. -/
theorem getTouchEvents_update (mask : Valuators) (hactive : id ∈ actives touches) :
    (GetTouchEvents id XI_TouchUpdate mask touches).2 = some .touchUpdate ∧
      actives (GetTouchEvents id XI_TouchUpdate mask touches).1 = actives touches := by
  have hne : XI_TouchUpdate ≠ XI_TouchBegin := by decide
  simp only [GetTouchEvents, findOrCreate, find_isSome.mpr hactive, if_true, hne, if_false,
    actives_write, and_self]

/-- So is an end. -/
theorem getTouchEvents_end (mask : Valuators) (hactive : id ∈ actives touches) :
    (GetTouchEvents id XI_TouchEnd mask touches).2 = some .touchEnd ∧
      actives (GetTouchEvents id XI_TouchEnd mask touches).1 = (actives touches).erase id := by
  have hbegin : XI_TouchEnd ≠ XI_TouchBegin := by decide
  have hupdate : XI_TouchEnd ≠ XI_TouchUpdate := by decide
  simp only [GetTouchEvents, findOrCreate, find_isSome.mpr hactive, if_true, hbegin, hupdate,
    if_false, actives_end,
    and_self]

/-- Of any other type it makes nothing. -/
theorem getTouchEvents_other (hbegin : type ≠ XI_TouchBegin) (hupdate : type ≠ XI_TouchUpdate)
    (hend : type ≠ XI_TouchEnd) : GetTouchEvents id type mask touches = (touches, none) := by
  unfold GetTouchEvents findOrCreate
  by_cases hfind : (TouchFindByDDXID id touches).isSome = true
  · simp only [hfind, if_true, hbegin, hupdate, hend, if_false]
  · simp only [hfind, Bool.false_eq_true, hbegin, if_false]

/-! ## What `handleTouchEvent` does -/

/-- It drops the event, or it queues one after which the touch is active as the event says. -/
inductive Handles (s : Server) (e : Touch) (s' : Server) : Prop
  | dropped (begins : e.type ≠ XI_TouchBegin)
      (updates : e.type = XI_TouchUpdate → e.id.toUInt32 ∈ actives s.touches)
      (ends : e.type = XI_TouchEnd → e.id.toUInt32 ∉ actives s.touches)
      (touches : s'.touches = s.touches) (queue : s'.queue = s.queue)
  | queued (event : EventType) (ends : event = .touchEnd ↔ e.type = XI_TouchEnd)
      (queue : s'.queue = s.queue ++ [(e.id.toUInt32, event)])
      (nodup : (actives s'.touches).Nodup)
      (mem : ∀ i, i ∈ actives s'.touches ↔
        if i = e.id.toUInt32 then event.letter.leavesOpen = true else i ∈ actives s.touches)
      (allowed : (event.letter.needsOpen = true ↔ e.id.toUInt32 ∈ actives s.touches) ↔
        (e.type = XI_TouchBegin → e.id.toUInt32 ∉ actives s.touches))

variable {s s' : Server} {e : Touch} {a : Action}

/-- A begin, of the message or in the place of an update. -/
theorem queue_begin (hnodup : (actives s.touches).Nodup) (hend : e.type ≠ XI_TouchEnd)
    (htype : e.type = XI_TouchBegin ∨ e.id.toUInt32 ∉ actives s.touches) :
    Handles s e (s.QueueTouchEvents XI_TouchBegin e.id.toUInt32 mask) := by
  obtain ⟨hevent, hnodup', hmem⟩ := getTouchEvents_begin e.id.toUInt32 mask hnodup
  refine .queued .touchBegin (iff_of_false nofun hend) ?_ hnodup' (fun i => (hmem i).trans ?_) ?_
  · simp only [Server.QueueTouchEvents, hevent, Option.map_some, Option.toList_some]
  · by_cases hi : i = e.id.toUInt32 <;> simp [hi, EventType.letter, Sessions.Letter.leavesOpen]
  · simp only [EventType.letter, Sessions.Letter.needsOpen, Bool.false_eq_true, false_iff]
    exact ⟨fun hinactive _ => hinactive, fun h => htype.elim h fun hinactive => hinactive⟩

/-- An update of an active touch is handled. -/
theorem queue_update (hnodup : (actives s.touches).Nodup)
    (hactive : e.id.toUInt32 ∈ actives s.touches)
    (htype : e.type = XI_TouchUpdate) :
    Handles s e (s.QueueTouchEvents XI_TouchUpdate e.id.toUInt32 mask) := by
  have hbegin : e.type ≠ XI_TouchBegin := by
    rw [htype]
    decide
  have hend : e.type ≠ XI_TouchEnd := by
    rw [htype]
    decide
  obtain ⟨hevent, hactives⟩ := getTouchEvents_update mask hactive
  refine .queued .touchUpdate (iff_of_false nofun hend) ?_ (hactives.symm ▸ hnodup) (fun i => ?_) ?_
  · simp only [Server.QueueTouchEvents, hevent, Option.map_some, Option.toList_some]
  · by_cases hi : i = e.id.toUInt32 <;>
      simp [Server.QueueTouchEvents, hactives, hi, hactive, EventType.letter,
        Sessions.Letter.leavesOpen]
  · simp [EventType.letter, Sessions.Letter.needsOpen, hactive, hbegin]

/-- The end of an active touch is handled. -/
theorem queue_end (hnodup : (actives s.touches).Nodup) (hactive : e.id.toUInt32 ∈ actives s.touches)
    (htype : e.type = XI_TouchEnd) :
    Handles s e (s.QueueTouchEvents XI_TouchEnd e.id.toUInt32 mask) := by
  have hbegin : e.type ≠ XI_TouchBegin := by
    rw [htype]
    decide
  obtain ⟨hevent, hactives⟩ := getTouchEvents_end mask hactive
  refine .queued .touchEnd (iff_of_true rfl htype) ?_ (hactives.symm ▸ hnodup.erase _)
    (fun i => ?_) ?_
  · simp only [Server.QueueTouchEvents, hevent, Option.map_some, Option.toList_some]
  · by_cases hi : i = e.id.toUInt32 <;>
      simp [Server.QueueTouchEvents, hactives, hi, hnodup.mem_erase_iff, EventType.letter,
        Sessions.Letter.leavesOpen]
  · simp [EventType.letter, Sessions.Letter.needsOpen, hactive, hbegin]

/-- A type that is none of the three. -/
theorem queue_other (hbegin : e.type ≠ XI_TouchBegin) (hupdate : e.type ≠ XI_TouchUpdate)
    (hend : e.type ≠ XI_TouchEnd) : Handles s e (s.QueueTouchEvents e.type e.id.toUInt32 mask) := by
  rw [Server.QueueTouchEvents, getTouchEvents_other hbegin hupdate hend]
  exact .dropped hbegin (fun h => absurd h hupdate) (fun h => absurd h hend) rfl (List.append_nil _)

/-- Every touch event is handled as its kind says. -/
theorem handleTouchEvent_handles (hnodup : (actives s.touches).Nodup) :
    Handles s e (handleTouchEvent e s) := by
  have hfound :
      ((TouchFindByDDXID e.id.toUInt32 s.touches).any (·.active) = true) =
        (e.id.toUInt32 ∈ actives s.touches) :=
    propext (find_active ▸ find_isSome)
  have hbeginEnd : XI_TouchBegin ≠ XI_TouchEnd := by decide
  have hbeginUpdate : XI_TouchBegin ≠ XI_TouchUpdate := by decide
  have hupdateEnd : XI_TouchUpdate ≠ XI_TouchEnd := by decide
  simp only [handleTouchEvent, hfound]
  split
  case isTrue hsame =>
    obtain ⟨hactive, htype, -⟩ := hsame
    refine .dropped ?_ (fun _ => hactive) ?_ rfl rfl
    · exact fun hbegin => hbeginUpdate (hbegin.symm.trans htype)
    · exact fun hend => absurd (htype.symm.trans hend) hupdateEnd
  case isFalse hsame =>
    by_cases hactive : e.id.toUInt32 ∈ actives s.touches
    · simp only [hactive, not_true_eq_false, and_false, if_false]
      by_cases hbegin : e.type = XI_TouchBegin
      · rw [hbegin]
        exact queue_begin hnodup (hbegin.trans_ne hbeginEnd) (.inl hbegin)
      by_cases hupdate : e.type = XI_TouchUpdate
      · rw [hupdate]
        exact queue_update hnodup hactive hupdate
      by_cases hend : e.type = XI_TouchEnd
      · rw [hend]
        exact queue_end hnodup hactive hend
      · exact queue_other hbegin hupdate hend
    · simp only [hactive, not_false_eq_true, and_true]
      by_cases hupdate : e.type = XI_TouchUpdate
      · simp only [hupdate, if_true, hbeginEnd, if_false]
        exact queue_begin hnodup (hupdate.trans_ne hupdateEnd) (.inr hactive)
      simp only [hupdate, if_false]
      split
      case isTrue hend =>
        exact .dropped (fun hbegin => hbeginEnd (hbegin.symm.trans hend))
          (fun h => absurd h hupdate) (fun _ => hactive)
          rfl rfl
      case isFalse hend =>
        by_cases hbegin : e.type = XI_TouchBegin
        · rw [hbegin]
          exact queue_begin hnodup hend (.inl hbegin)
        · exact queue_other hbegin hupdate hend

/-! ## The sender's view of the server -/

def typeCode : X11.TouchSender.TouchType → UInt16
  | .begin => XI_TouchBegin
  | .update => XI_TouchUpdate
  | .finish => XI_TouchEnd

/-- The server that the sender is verified against, which says of a touch no more than that it is
active, does with every message what this one does. -/
theorem actives_handleTouchEvent (hnodup : (actives s.touches).Nodup)
    {active : X11.TouchSender.Active}
    (hactive : ∀ id : UInt16, active id.toNat = true ↔ id.toUInt32 ∈ actives s.touches)
    {touch : X11.TouchSender.Touch}
    (htype : e.type = typeCode touch.type) (hid : e.id.toNat = touch.id) (id : UInt16) :
    X11.TouchSender.handleTouchEvent active touch id.toNat = true ↔
      id.toUInt32 ∈ actives (handleTouchEvent e s).touches := by
  have hafter : X11.TouchSender.handleTouchEvent active touch id.toNat =
      if id = e.id then decide (e.type ≠ XI_TouchEnd) else active id.toNat := by
    rw [X11.TouchSender.handleTouchEvent, htype, ← hid]
    cases touch.type <;>
      simp [typeCode, Function.update_apply, UInt16.toNat_inj, XI_TouchBegin, XI_TouchUpdate,
      XI_TouchEnd]
  rw [hafter]
  cases handleTouchEvent_handles (e := e) hnodup with
  | dropped hbegin hupdate hend htouches _ =>
    rw [htouches]
    split
    case isFalse hne => exact hactive id
    case isTrue heq =>
      subst heq
      rw [decide_eq_true_iff]
      cases htouch : touch.type with
      | begin => exact absurd (htype.trans (congrArg typeCode htouch)) hbegin
      | update =>
        have hupdates := htype.trans (congrArg typeCode htouch)
        exact iff_of_true (hupdates.trans_ne (by decide)) (hupdate hupdates)
      | finish =>
        have hends := htype.trans (congrArg typeCode htouch)
        exact iff_of_false (not_not_intro hends) (hend hends)
  | queued event hends _ _ hmem _ =>
    rw [hmem]
    by_cases heq : id = e.id
    · subst heq
      rw [if_pos rfl, if_pos rfl, decide_eq_true_iff, ne_eq, ← hends]
      cases event <;> simp [EventType.letter, Sessions.Letter.leavesOpen]
    · rw [if_neg heq, if_neg fun h => heq (UInt16.toUInt32_inj.mp h)]
      exact hactive id

/-! ## Runs -/

/-- A queued event adds its letter to the word of its touch. -/
theorem word_snoc {event : EventType} {i : UInt32} (hqueue : s'.queue = s.queue ++ [(id, event)]) :
    s'.word i = s.word i ++ if id = i then [event.letter] else [] := by
  rw [Server.word, hqueue, List.filterMap_append]
  split
  case isTrue h => simp [Server.word, h]
  case isFalse h => simp [Server.word, h]

theorem word_of_queue_eq (hqueue : s'.queue = s.queue) : s'.word = s.word := by
  funext id
  rw [Server.word, Server.word, hqueue]

theorem tracks_start (width height : Int16) : Tracks (start width height) where
  nodup := by
    rw [start, actives_blank]
    exact List.nodup_nil
  isOpen id := by
    rw [start, actives_blank]
    simp [Server.word]

theorem wellFormed_start (width height : Int16) : WellFormed (start width height) :=
  fun _ => Sessions.startOfSessions_nil

/-- **Step lemma.** The touch records keep track of the words. -/
theorem Tracks.next (h : Tracks s) (hstep : step s a = some s') : Tracks s' := by
  cases a with
  | resize width height =>
    cases hstep
    exact ⟨h.nodup, h.isOpen⟩
  | touch e =>
    cases hstep
    cases handleTouchEvent_handles (e := e) h.nodup with
    | dropped _ _ _ htouches hqueue =>
      refine ⟨htouches ▸ h.nodup, fun id => ?_⟩
      rw [htouches, word_of_queue_eq hqueue]
      exact h.isOpen id
    | queued event _ hqueue hnodup hmem _ =>
      refine ⟨hnodup, fun id => ?_⟩
      rw [hmem, word_snoc hqueue]
      by_cases hid : id = e.id.toUInt32
      · simp [hid]
      · simp [hid, Ne.symm hid, h.isOpen]

/-- A step leaves the words well formed exactly when its begin is for a touch that is not active. -/
theorem wellFormed_step (h : Tracks s) (hstep : step s a = some s') :
    WellFormed s' ↔ WellFormed s ∧ BeginsInactive s a := by
  cases a with
  | resize width height =>
    cases hstep
    exact (and_iff_left trivial).symm
  | touch e =>
    cases hstep
    simp only [BeginsInactive, find_isNone]
    cases handleTouchEvent_handles (e := e) h.nodup with
    | dropped htype _ _ _ hqueue =>
      rw [WellFormed, word_of_queue_eq hqueue]
      exact (and_iff_left fun hbegin => absurd hbegin htype).symm
    | queued event _ hqueue _ _ hallowed =>
      rw [← hallowed, h.isOpen, ← Bool.eq_iff_iff]
      constructor
      · intro hwell
        refine ⟨fun id => ?_, ?_⟩
        · have hword := hwell id
          rw [word_snoc hqueue] at hword
          split at hword
          case isTrue => exact (Sessions.startOfSessions_snoc.mp hword).1
          case isFalse => rwa [List.append_nil] at hword
        · have hword := hwell e.id.toUInt32
          rw [word_snoc hqueue, if_pos rfl] at hword
          exact (Sessions.startOfSessions_snoc.mp hword).2
      · rintro ⟨hwell, hletter⟩ id
        rw [word_snoc hqueue]
        split
        case isTrue hid =>
          subst hid
          exact Sessions.startOfSessions_snoc.mpr ⟨hwell _, hletter⟩
        case isFalse => simpa using hwell id

/-- **What is queued for each touch is well formed** exactly when no `XI_TouchBegin` came for an
active one. -/
theorem wellFormed_iff_beginsInactive {width height : Int16} {actions : List Action}
    (h : run step (start width height) actions = some s) :
    WellFormed s ↔ Meets step BeginsInactive (start width height) actions := by
  have hkeeps := run_iff Tracks.next wellFormed_step (tracks_start width height) h
  exact hkeeps.trans (and_iff_right (wellFormed_start width height))

/-- A touch begins, moves and ends, and begins again. -/
def touchedTwice : List Action :=
  [.touch ⟨XI_TouchBegin, 0, 10, 10⟩, .touch ⟨XI_TouchUpdate, 0, 20, 10⟩,
    .touch ⟨XI_TouchEnd, 0, 20, 10⟩,
    .touch ⟨XI_TouchBegin, 0, 30, 10⟩]

theorem touchedTwice_wellFormed :
    WellFormed ((run step (start 100 100) touchedTwice).get (by decide +kernel)) :=
  (wellFormed_iff_beginsInactive (Option.some_get _).symm).mpr (by decide +kernel)

/-- The end of the first touch was lost. -/
def endLost : List Action := [.touch ⟨XI_TouchBegin, 0, 10, 10⟩, .touch ⟨XI_TouchBegin, 0, 30, 10⟩]

theorem endLost_not_wellFormed :
    ∃ s, run step (start 100 100) endLost = some s ∧ ¬WellFormed s := by
  refine ⟨_, rfl, fun hwell => ?_⟩
  have hword := Sessions.inOrder_iff.mpr (hwell 0)
  revert hword
  decide +kernel

end WinEmulator.Lorie.TouchInput
