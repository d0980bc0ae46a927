import WinEmulator.Lib.Machine
import WinEmulator.Lib.RingBuffer
import WinEmulator.Lib.Superseding
import WinEmulator.Lorie.EventQueue

/-!
# What becomes of input events

The array is a ring buffer, and what is in it is what has been accepted and not handed on. The
number of buckets is always a power of two: that is why the index before the first one, which wraps
around at the size of an `unsigned int`, is the last one of the array.
-/

set_option autoImplicit false

namespace WinEmulator.Lorie.EventQueue

open WinEmulator.Lib RingBuffer

variable {Body Screen : Type} {q : EventQueueRec Body Screen} {s s' : State Body Screen}

/-- A motion and a later one of the same device. -/
def Superseded (d e : EventRec Body Screen) : Prop :=
  isMotion d.pDev d.event ≠ 0 ∧ isMotion d.pDev d.event = isMotion e.pDev e.event

/-- What is in the queue. -/
def Waiting (q : EventQueueRec Body Screen) (entries : List (EventRec Body Screen)) : Prop :=
  contents q.events q.head q.tail = entries.map some

/-! ## The array -/

/-- The sizes that the array can have, and indices into it. -/
structure Bounds (q : EventQueueRec Body Screen) : Prop where
  doubled : ∃ k, q.nevents = QUEUE_INITIAL_SIZE * 2 ^ k
  small : q.nevents < 2 ^ 31
  head : q.head < q.nevents
  tail : q.tail < q.nevents

theorem Bounds.unsigned_eq (h : Bounds q) {n : Nat} (hn : n ≤ q.nevents) : unsigned n = n :=
  Nat.mod_eq_of_lt (Nat.lt_of_le_of_lt hn (Nat.lt_trans h.small (by decide)))

/-- The size divides the number of values of an `unsigned int`. -/
theorem Bounds.dvd (h : Bounds q) : q.nevents ∣ 2 ^ 32 := by
  obtain ⟨k, hk⟩ := h.doubled
  have hpow : q.nevents = 2 ^ (9 + k) := by rw [hk, Nat.pow_add]; rfl
  have hlt : 9 + k < 31 := (Nat.pow_lt_pow_iff_right (by decide : 1 < 2)).mp (hpow ▸ h.small)
  rw [hpow]
  exact Nat.pow_dvd_pow 2 (by omega)

/-- The index before another one. -/
theorem Bounds.next_pred (h : Bounds q) {i : Nat} (hi : i < q.nevents) :
    unsigned (i + (2 ^ 32 - 1)) % q.nevents < q.nevents ∧
      next q.nevents (unsigned (i + (2 ^ 32 - 1)) % q.nevents) = i := by
  refine ⟨Nat.mod_lt _ (Nat.lt_of_le_of_lt (Nat.zero_le i) hi), ?_⟩
  obtain ⟨m, hm⟩ := h.dvd
  calc next q.nevents (unsigned (i + (2 ^ 32 - 1)) % q.nevents)
      = ((i + (2 ^ 32 - 1)) % 2 ^ 32 % q.nevents + 1) % q.nevents := rfl
    _ = (i + (2 ^ 32 - 1) + 1) % q.nevents := by rw [Nat.mod_mod_of_dvd _ h.dvd, Nat.mod_add_mod]
    _ = (i + 2 ^ 32) % q.nevents := by rw [Nat.add_assoc, Nat.sub_add_cancel (Nat.two_pow_pos 32)]
    _ = i := by rw [hm, Nat.add_mul_mod_self_left, Nat.mod_eq_of_lt hi]

/-- The queue's own count is the distance from its head to its tail. -/
theorem Bounds.mieqNumEnqueued_eq (h : Bounds q) :
    mieqNumEnqueued q = distance q.nevents q.head q.tail := by
  have hhead := h.head
  have htail := h.tail
  have hsmall := h.small
  unfold mieqNumEnqueued distance
  rw [if_neg (by omega)]
  simp only
  split <;> split <;> omega

/-- A bucket is written, and `tail` is the one behind it. -/
theorem Bounds.store (h : Bounds q) {i m : Nat} (hi : i < q.nevents) (pDev : Option (Device Screen))
    (e : InternalEvent Body) :
    ∃ q', store q i m pDev e = .enqueued q' ∧ Bounds q' ∧ q'.lastMotion = m ∧
      contents q'.events q'.head q'.tail =
        contents (q.events.set i (some ⟨e, pDev.map Device.enqueueScreen, pDev⟩)) q.head
          (next q.events.length i) := by
  have htail : unsigned (i + 1) % q.nevents = next q.nevents i := by
    rw [h.unsigned_eq (by omega), next]
  refine ⟨_, if_pos hi, ⟨?_, ?_, ?_, ?_⟩, rfl, ?_⟩
  · simpa [EventQueueRec.nevents] using h.doubled
  · simpa [EventQueueRec.nevents] using h.small
  · simpa [EventQueueRec.nevents] using h.head
  · rw [htail]
    simpa [EventQueueRec.nevents] using next_lt hi
  · rw [htail]
    rfl

/-- The array is twice as large, with the same events. -/
theorem Bounds.grow (h : Bounds q) (hroom : q.nevents * 2 < 2 ^ 31) :
    ∃ q', mieqGrowQueue q (q.nevents * 2) .enough = .grown q' ∧ Bounds q' ∧
      q'.tail + 1 < q'.nevents ∧ q'.head = 0 ∧
      contents q'.events q'.head q'.tail = contents q.events q.head q.tail := by
  have hdistance := distance_lt h.head h.tail
  have hlength : (q.events.drop q.head ++ q.events.take q.head ++
      List.replicate (q.nevents * 2 - q.nevents) (none : Option (EventRec Body Screen))).length =
          q.nevents * 2 := by
    have := h.head
    simp only [EventQueueRec.nevents, List.length_append, List.length_drop, List.length_take,
      List.length_replicate] at this ⊢
    omega
  refine ⟨_, by rw [mieqGrowQueue, if_neg (by have := h.head; omega)], ⟨?_, ?_, ?_, ?_⟩, ?_,
    rfl, ?_⟩
  · obtain ⟨k, hk⟩ := h.doubled
    exact ⟨k + 1, by rw [EventQueueRec.nevents, hlength, hk, Nat.pow_succ, Nat.mul_assoc]⟩
  · rw [EventQueueRec.nevents, hlength]
    exact hroom
  · show 0 < _
    rw [EventQueueRec.nevents, hlength]
    omega
  · show mieqNumEnqueued q < _
    rw [EventQueueRec.nevents, hlength, h.mieqNumEnqueued_eq]
    omega
  · show mieqNumEnqueued q + 1 < _
    rw [EventQueueRec.nevents, hlength, h.mieqNumEnqueued_eq]
    omega
  · show contents _ 0 (mieqNumEnqueued q) = _
    rw [h.mieqNumEnqueued_eq]
    exact contents_grow h.head h.tail _

/-! ## One event -/

variable {entries : List (EventRec Body Screen)}

/-- There is room behind the last event. -/
theorem store_tail (h : Bounds q) (hwaiting : Waiting q entries)
    (hroom : distance q.nevents q.head q.tail + 1 < q.nevents)
    (m : Nat) (pDev : Option (Device Screen)) (e : InternalEvent Body) :
    ∃ q', store q (unsigned q.tail) m pDev e = .enqueued q' ∧ Bounds q' ∧ q'.lastMotion = m ∧
      Waiting q' (entries ++ [⟨e, pDev.map Device.enqueueScreen, pDev⟩]) := by
  rw [h.unsigned_eq (Nat.le_of_lt h.tail)]
  obtain ⟨q', hstore, hbounds, hmotion, hcontents⟩ := h.store h.tail (m := m) pDev e
  refine ⟨q', hstore, hbounds, hmotion, ?_⟩
  have hpush :=
    contents_push h.head h.tail hroom
    (some (⟨e, pDev.map Device.enqueueScreen, pDev⟩ : EventRec Body Screen))
  rw [Waiting, hcontents, hpush, hwaiting, List.map_append, List.map_singleton]

/-- The event comes behind the others, or in the place of the last one if that is a motion of the
same device. It is dropped only if the queue is full and there is no memory for a larger one. -/
theorem mieqEnqueue_spec (h : Bounds q) (hwaiting : Waiting q entries)
    (hlast : ∀ d, entries.getLast? = some d → isMotion d.pDev d.event = q.lastMotion)
    (pDev : Option (Device Screen))
    (e : InternalEvent Body) {memory : Memory} (hlists : memory ≠ .noEventList)
    (hmemory : memory = .noArray ∨ q.nevents * 2 < 2 ^ 31) :
    (∃ q', mieqEnqueue q pDev e memory = .enqueued q' ∧ Bounds q' ∧
      q'.lastMotion = isMotion pDev e ∧
      (Waiting q' (entries ++ [⟨e, pDev.map Device.enqueueScreen, pDev⟩]) ∨
        ∃ earlier d, entries = earlier ++ [d] ∧
          Superseded d ⟨e, pDev.map Device.enqueueScreen, pDev⟩ ∧
          Waiting q' (earlier ++ [⟨e, pDev.map Device.enqueueScreen, pDev⟩]))) ∨
    memory = .noArray ∧ entries.length + 1 = q.nevents ∧
      mieqEnqueue q pDev e memory = .dropped { q with dropped := q.dropped + 1 } := by
  have hlength : entries.length = distance q.nevents q.head q.tail := by
    rw [← List.length_map (f := some), ← hwaiting]
    exact length_contents h.head h.tail
  have hdistance := distance_lt h.head h.tail
  have htail := h.unsigned_eq (Nat.le_of_lt h.tail)
  rw [mieqEnqueue, htail]
  by_cases hmerge : isMotion pDev e ≠ 0 ∧ isMotion pDev e = q.lastMotion ∧ q.tail ≠ q.head
  · rw [if_pos hmerge]
    obtain ⟨hmotion, hsame, hne⟩ := hmerge
    obtain ⟨hpred, hnext⟩ := h.next_pred h.tail
    obtain ⟨q', hstore, hbounds, hmotion', hcontents⟩ := h.store hpred (m := isMotion pDev e) pDev e
    refine .inl ⟨q', hstore, hbounds, hmotion', .inr ?_⟩
    rcases List.eq_nil_or_concat' entries with rfl | ⟨earlier, d, rfl⟩
    · exact absurd ((contents_eq_nil_iff h.head h.tail).mp hwaiting).symm hne
    · have hd := hlast d List.getLast?_concat
      refine ⟨earlier, d, rfl, ⟨hd ▸ hsame ▸ hmotion, hd.trans hsame.symm⟩, ?_⟩
      have hreplace := contents_replace h.head hpred (hnext.symm ▸ hne.symm)
        (some (⟨e, pDev.map Device.enqueueScreen, pDev⟩ : EventRec Body Screen))
      rw [Waiting, hcontents]
      refine hreplace.trans ?_
      rw [show next q.events.length _ = q.tail from hnext, hwaiting, List.map_append,
        List.map_singleton,
        List.dropLast_concat, List.map_append, List.map_singleton]
  · rw [if_neg hmerge, h.mieqNumEnqueued_eq]
    by_cases hfull : distance q.nevents q.head q.tail + 1 = q.nevents
    · rw [if_pos hfull]
      cases memory with
      | noEventList => exact absurd rfl hlists
      | noArray =>
        refine .inr ⟨rfl, hlength ▸ hfull, ?_⟩
        rw [mieqGrowQueue, if_neg (by have := h.head; omega)]
      | enough =>
        obtain ⟨q₁, hgrow, hbounds₁, hroom, hhead, hcontents⟩ :=
          h.grow (hmemory.resolve_left (fun heq => by cases heq))
        rw [hgrow]
        have hdistance₁ : distance q₁.nevents q₁.head q₁.tail + 1 < q₁.nevents := by
          rw [hhead, distance, if_pos (Nat.zero_le _)]
          exact hroom
        obtain ⟨q', hstore, hbounds, hmotion, hwaiting'⟩ :=
          store_tail hbounds₁ (hcontents.trans hwaiting) hdistance₁ (isMotion pDev e) pDev e
        exact .inl ⟨q', hstore, hbounds, hmotion, .inl hwaiting'⟩
    · rw [if_neg hfull]
      obtain ⟨q', hstore, hbounds, hmotion, hwaiting'⟩ :=
        store_tail h hwaiting (by omega) (isMotion pDev e) pDev e
      exact .inl ⟨q', htail ▸ hstore, hbounds, hmotion, .inl hwaiting'⟩

/-! ## Runs -/

/-- What holds in every state that a run comes to. -/
structure Inv (s : State Body Screen) : Prop where
  faulted : s.faulted = false
  bounds : Bounds s.queue
  waiting : ∃ entries, Waiting s.queue entries ∧
    Superseding Superseded s.accepted (s.processed ++ entries)
  lastMotion : ∀ d, s.accepted.getLast? = some d → isMotion d.pDev d.event = s.queue.lastMotion
  accepted : s.accepted.Sublist s.arrived

/-- The queue is empty at the start. -/
theorem inv_initial (now : Nat) : Inv (initial now : State Body Screen) where
  faulted := rfl
  bounds := by
    have hlength : (mieqInit now : EventQueueRec Body Screen).nevents = QUEUE_INITIAL_SIZE :=
      List.length_replicate
    have hpos : 0 < (mieqInit now : EventQueueRec Body Screen).nevents := hlength ▸ by decide
    exact ⟨⟨0, hlength⟩, hlength ▸ by decide, hpos, hpos⟩
  waiting := by
    refine ⟨[], ?_, Superseding.nil⟩
    exact List.take_zero
  lastMotion _ h := by cases h
  accepted := List.Sublist.refl []

/-- The last event that waits is the last one that was accepted. -/
theorem Inv.lastWaiting (h : Inv s)
    (hsuperseding : Superseding Superseded s.accepted (s.processed ++ entries)) :
    ∀ d, entries.getLast? = some d → isMotion d.pDev d.event = s.queue.lastMotion := by
  intro d hd
  have heq := hsuperseding.getLast?_eq
  rw [List.getLast?_append, hd] at heq
  exact h.lastMotion d heq.symm

/-- What memory there is for an action that may need some. -/
def Action.memory? : Action Body Screen → Option Memory
  | .mieqEnqueue _ _ memory => some memory
  | _ => none

/-- Adding an event keeps the invariant, and only a ring that cannot grow turns one away. -/
theorem Inv.enqueue (h : Inv s) (pDev : Option (Device Screen)) (e : InternalEvent Body)
    {memory : Memory}
    (hlists : memory ≠ .noEventList) (hmemory : memory = .noArray ∨ s.queue.nevents * 2 < 2 ^ 31) :
    Inv (s.enqueue pDev e memory) ∧
      (memory ≠ .noArray → s.accepted = s.arrived →
        (s.enqueue pDev e memory).accepted = (s.enqueue pDev e memory).arrived) := by
  obtain ⟨entries, hwaiting, hsuperseding⟩ := h.waiting
  unfold State.enqueue
  rcases mieqEnqueue_spec h.bounds hwaiting (h.lastWaiting hsuperseding) pDev e hlists hmemory with
    ⟨q', henqueue, hbounds, hmotion, hwaiting'⟩ | ⟨hnoArray, -, hdropped⟩
  · simp only [henqueue]
    refine ⟨⟨h.faulted, hbounds, ?_, fun d hd => ?_, h.accepted.append_right _⟩,
      fun _ heq => congrArg (· ++ _) heq⟩
    · rcases hwaiting' with hbehind | ⟨earlier, d, rfl, hd, hplace⟩
      · exact ⟨_, hbehind, by rw [← List.append_assoc]; exact hsuperseding.snoc _⟩
      · refine ⟨_, hplace, ?_⟩
        rw [← List.append_assoc] at hsuperseding ⊢
        exact hsuperseding.replace hd
    · rw [List.getLast?_concat] at hd
      rw [← Option.some.inj hd, hmotion]
  · simp only [hdropped]
    refine ⟨⟨h.faulted, ?_, ⟨entries, hwaiting, hsuperseding⟩, h.lastMotion, ?_⟩,
      fun hmemory => absurd hnoArray hmemory⟩
    · exact ⟨h.bounds.doubled, h.bounds.small, h.bounds.head, h.bounds.tail⟩
    · exact h.accepted.trans (List.sublist_append_left _ _)

/-- An event is accepted, or all buckets but one hold an event that waits and there is no larger
array. -/
theorem Inv.accepted_or_full (h : Inv s) {pDev : Option (Device Screen)} {e : InternalEvent Body}
    {memory : Memory}
    (hlists : memory ≠ .noEventList) (hstep : step s (.mieqEnqueue pDev e memory) = some s') :
    s'.accepted = s.accepted ++ [⟨e, pDev.map Device.enqueueScreen, pDev⟩] ∨
      s'.accepted = s.accepted ∧ memory = .noArray ∧
        ∃ waiting, Waiting s.queue waiting ∧ waiting.length + 1 = s.queue.nevents := by
  obtain ⟨entries, hwaiting, hsuperseding⟩ := h.waiting
  rw [step] at hstep
  split at hstep
  case isTrue => cases hstep
  case isFalse =>
    split at hstep
    case isFalse => cases hstep
    case isTrue hmemory =>
      cases hstep
      unfold State.enqueue
      rcases mieqEnqueue_spec h.bounds hwaiting (h.lastWaiting hsuperseding) pDev e hlists
        hmemory with
        ⟨q', henqueue, -⟩ | ⟨hnoArray, hfull, hdropped⟩
      · refine .inl ?_
        simp only [henqueue]
      · refine .inr ⟨?_, hnoArray, entries, hwaiting, hfull⟩
        simp only [hdropped]

/-- The first of the events that are in the queue is handed on. -/
theorem Inv.whileNext (h : Inv s) :
    Inv s.whileNext ∧ s.whileNext.accepted = s.accepted ∧ s.whileNext.arrived = s.arrived := by
  unfold State.whileNext
  by_cases hempty : s.queue.head = s.queue.tail
  · rw [if_pos hempty]
    exact ⟨⟨h.faulted, h.bounds, h.waiting, h.lastMotion, h.accepted⟩, rfl, rfl⟩
  · obtain ⟨entries, hwaiting, hsuperseding⟩ := h.waiting
    rw [if_neg hempty]
    have hpop := contents_pop h.bounds.head h.bounds.tail hempty
    rw [hwaiting] at hpop
    cases entries with
    | nil => cases hpop
    | cons e entries =>
      rw [List.map_cons] at hpop
      obtain ⟨hfirst, hrest⟩ := List.cons.inj hpop
      have hbucket : s.queue.events[s.queue.head]? = some (some e) := by
        rw [hfirst]
        exact List.getElem?_eq_getElem h.bounds.head
      rw [hbucket]
      refine ⟨⟨h.faulted, ?_, ⟨entries, hrest.symm, ?_⟩, h.lastMotion, h.accepted⟩, rfl, rfl⟩
      · exact ⟨h.bounds.doubled, h.bounds.small, next_lt h.bounds.head, h.bounds.tail⟩
      · rw [List.append_assoc]
        exact hsuperseding

/-- **Step lemma.** Every step keeps the invariant. -/
theorem step_inv {a : Action Body Screen} (h : Inv s) (ha : a.memory? ≠ some .noEventList)
    (hstep : step s a = some s') :
    Inv s' ∧ (a.memory? ≠ some .noArray → s.accepted = s.arrived → s'.accepted = s'.arrived) := by
  cases a with
  | mieqEnqueue pDev e memory =>
    rw [step] at hstep
    split at hstep
    case isTrue => cases hstep
    case isFalse =>
      split at hstep
      case isFalse => cases hstep
      case isTrue hmemory =>
        cases hstep
        obtain ⟨hinv, harrived⟩ := h.enqueue pDev e (fun heq => ha (congrArg some heq)) hmemory
        exact ⟨hinv, fun hnoArray => harrived fun heq => hnoArray (congrArg some heq)⟩
  | mieqProcessInputEvents =>
    cases hstep
    have hbegun :
        Inv { s with queue := { s.queue with dropped := 0 }, processing := s.processing + 1 } :=
      ⟨h.faulted, ⟨h.bounds.doubled, h.bounds.small, h.bounds.head, h.bounds.tail⟩, h.waiting,
        h.lastMotion, h.accepted⟩
    obtain ⟨hinv, haccepted, harrived⟩ := hbegun.whileNext
    exact ⟨hinv, fun _ heq => by rw [haccepted, harrived]; exact heq⟩
  | eventProcessed =>
    rw [step] at hstep
    split at hstep
    case isTrue => cases hstep
    case isFalse =>
      cases hstep
      obtain ⟨hinv, haccepted, harrived⟩ := h.whileNext
      exact ⟨hinv, fun _ heq => by rw [haccepted, harrived]; exact heq⟩

/-- Only a motion event is superseded. -/
theorem Superseded.motion {d e : EventRec Body Screen} (h : Superseded d e) :
    d.event.motion = true := by
  by_contra hmotion
  exact h.1 (if_neg hmotion)

/-- **Input events are handed on once each and in order.** However the calls of `mieqEnqueue` fall
between the steps of the passes, and however often the array grows or cannot: what has been handed
on and what still waits are the events that were accepted, in the order they came in, without
motions that the very next event, a motion of the same device, has superseded. So all that are not
motions are there. An event is not accepted only where the array is full and there is no larger
one. -/
theorem events_handed_on_in_order (now : Nat) (as : List (Action Body Screen))
    (hlists : ∀ a ∈ as, a.memory? ≠ some .noEventList) (s : State Body Screen)
    (h : run step (initial now) as = some s) :
    s.faulted = false ∧
      (∃ waiting, Waiting s.queue waiting ∧
        Superseding Superseded s.accepted (s.processed ++ waiting) ∧
        (s.processed ++ waiting).filter (!·.event.motion) = s.accepted.filter (!·.event.motion)) ∧
      s.accepted.Sublist s.arrived ∧
        ((∀ a ∈ as, a.memory? ≠ some .noArray) → s.accepted = s.arrived) ∧
        ∀ before pDev e memory after, as = before ++ .mieqEnqueue pDev e memory :: after →
          ∃ t t', run step (initial now) before = some t ∧
            step t (.mieqEnqueue pDev e memory) = some t' ∧
            (t'.accepted = t.accepted ++ [⟨e, pDev.map Device.enqueueScreen, pDev⟩] ∨
              t'.accepted = t.accepted ∧ memory = .noArray ∧
                ∃ waiting, Waiting t.queue waiting ∧ waiting.length + 1 = t.queue.nevents) := by
  have hmeets : Meets step (fun _ a => a.memory? ≠ some .noEventList) (initial now) as :=
    Meets.of_forall (fun a ha _ => hlists a ha) (initial now)
  have hinv : Inv s :=
    run_induction (fun hinv hok hstep => (step_inv hinv hok hstep).1) (inv_initial now) hmeets h
  obtain ⟨waiting, hwaiting, hsuperseding⟩ := hinv.waiting
  refine ⟨hinv.faulted, ⟨waiting, hwaiting, hsuperseding, ?_⟩, hinv.accepted, fun hmemory => ?_, ?_⟩
  · exact hsuperseding.filter_eq fun d e hd => by rw [hd.motion]; rfl
  · have hmeets :
        Meets step (fun _ a => a.memory? ≠ some .noEventList ∧ a.memory? ≠ some .noArray)
          (initial now) as :=
      Meets.of_forall (fun a ha _ => ⟨hlists a ha, hmemory a ha⟩) (initial now)
    have hkeeps :
        ∀ {s s' : State Body Screen} {a : Action Body Screen}, Inv s ∧ s.accepted = s.arrived →
        a.memory? ≠ some .noEventList ∧ a.memory? ≠ some .noArray → step s a = some s' → Inv s' ∧
            s'.accepted = s'.arrived := by
      rintro s s' a ⟨hinv, heq⟩ hok hstep
      obtain ⟨hnext, harrived⟩ := step_inv hinv hok.1 hstep
      exact ⟨hnext, harrived hok.2 heq⟩
    exact (run_induction hkeeps ⟨inv_initial now, rfl⟩ hmeets h).2
  · rintro before pDev e memory after rfl
    obtain ⟨t, hbefore, hafter⟩ := exists_of_run_append h
    obtain ⟨t', hstep, -⟩ := run_cons.mp hafter
    have hmeets : Meets step (fun _ a => a.memory? ≠ some .noEventList) (initial now) before :=
      Meets.of_forall (fun a ha _ => hlists a (List.mem_append_left _ ha)) (initial now)
    have hbound : Inv t :=
      run_induction (fun hinv hok hstep => (step_inv hinv hok hstep).1)
        (inv_initial now) hmeets hbefore
    have hmemory : memory ≠ .noEventList :=
      fun heq => hlists _ (List.mem_append_right _ List.mem_cons_self) (congrArg some heq)
    exact ⟨t, t', hbefore, hstep, hbound.accepted_or_full hmemory hstep⟩

/-- Motions of two devices and a button, some of them while a pass is under way. -/
def moveAndClick : List (Action Char Unit) :=
  let mouse : Option (Device Unit) := some ⟨6, ()⟩
  let pen : Option (Device Unit) := some ⟨9, ()⟩
  [.mieqEnqueue mouse ⟨true, 10, 'a'⟩ .enough, .mieqEnqueue mouse ⟨true, 11, 'b'⟩ .enough,
    .mieqEnqueue pen ⟨true, 12, 'c'⟩ .noArray,
    .mieqProcessInputEvents, .mieqEnqueue pen ⟨true, 13, 'd'⟩ .enough, .eventProcessed,
      .mieqEnqueue pen ⟨true, 14, 'e'⟩ .enough,
    .mieqEnqueue mouse ⟨false, 15, 'f'⟩ .enough, .eventProcessed, .eventProcessed, .eventProcessed]

theorem events_handed_on_in_order_moveAndClick :
    ∃ s, run step (initial 0) moveAndClick = some s ∧ s.faulted = false ∧
    s.processed.map (·.event.body) = ['b', 'd', 'e', 'f'] ∧ s.accepted.Sublist s.arrived := by
  have hruns : (run step (initial 0) moveAndClick).isSome = true := by decide +kernel
  obtain ⟨s, hs⟩ := Option.isSome_iff_exists.mp hruns
  have hlaw := events_handed_on_in_order 0 moveAndClick (by decide) s hs
  have hprocessed :
      (run step (initial 0) moveAndClick).map (·.processed.map (·.event.body)) =
        some ['b', 'd', 'e', 'f'] := by
    decide +kernel
  rw [hs] at hprocessed
  exact ⟨s, hs, hlaw.1, Option.some.inj hprocessed, hlaw.2.2.1⟩

end WinEmulator.Lorie.EventQueue
