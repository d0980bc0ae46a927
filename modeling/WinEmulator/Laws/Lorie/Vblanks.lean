import Mathlib.Data.List.Count
import Mathlib.Data.List.Induction
import Mathlib.Data.List.Nodup
import Mathlib.Data.List.Perm.Subperm
import WinEmulator.Lorie.Present

/-!
# The queue of vblanks

Present is told of every vblank once, in time and not after it was given up, while its notifications
neither finish flips nor queue again. A resize of the screen, which is to tell it of all of them,
tells it only of those that are due, and what is queued again on the way stays.
-/

set_option autoImplicit false

namespace WinEmulator.Lorie.Present

open WinEmulator.Lib

/-! ## The loop -/

theorem notified_report_vblank (s : State) (id : EventId) (msc : Msc) :
    notified { s with reports := s.reports ++ [.vblank id msc] } = notified s ++ [id] := by
  simp [notified]

theorem notified_call (s : State) (c : Call) : notified (call s c) = notified s := by
  cases c <;> simp [notified, call, loriePresentGetUstMsc, loriePresentAfterFlip]

theorem queue_call (s : State) (c : Call) : (call s c).vblank_queue = s.vblank_queue := by
  cases c <;> rfl

theorem notified_notice (s : State) (n : Notice) : notified (notice s n) = notified s := by
  cases n with
  | call c => exact notified_call s c
  | queueVblank allocated id msc => cases allocated <;> rfl

theorem notified_notices (s : State) (notices : List Notice) :
    notified (notices.foldl notice s) = notified s := by
  induction notices generalizing s with
  | nil => rfl
  | cons n notices ih => exact (ih _).trans (notified_notice s n)

/-- The vblank that is queued again. -/
def Notice.vblank : Notice → Option Vblank
  | .call _ => none
  | .queueVblank allocated id msc => if allocated then some ⟨id, msc⟩ else none

/-- What is queued again comes before the rest, the last first. -/
theorem queue_notices (s : State) (notices : List Notice) :
    (notices.foldl notice s).vblank_queue =
    (notices.filterMap Notice.vblank).reverse ++ s.vblank_queue := by
  induction notices generalizing s with
  | nil => rfl
  | cons n notices ih =>
    rw [List.foldl_cons, ih]
    cases n with
    | call c =>
      rw [show (notice s (.call c)).vblank_queue = _ from queue_call s c]
      rfl
    | queueVblank allocated id msc =>
      cases allocated with
      | false => rfl
      | true =>
        rw [List.filterMap_cons_some
          (show Notice.vblank (.queueVblank true id msc) = some ⟨id, msc⟩ from rfl),
          List.reverse_cons, List.append_assoc]
        rfl

/-- The state when the loop goes on after a vblank that was due. -/
def performed (notify : EventId → List Notice) (v : Vblank) (s : State) : State :=
  let done := (notify v.id).foldl notice
    { s with reports := s.reports ++ [.vblank v.id s.current_msc] }
  { done with vblank_queue := done.vblank_queue.erase v }

theorem performVblanks_cons (notify : EventId → List Notice) (v : Vblank) (vs : List Vblank)
    (s : State) :
    performVblanks notify (v :: vs) s =
      if v.msc ≤ s.current_msc then performVblanks notify vs (performed notify v s)
      else performVblanks notify vs s :=
  rfl

/-- Performing a vblank notifies its event. -/
theorem notified_performed (notify : EventId → List Notice) (v : Vblank) (s : State) :
    notified (performed notify v s) = notified s ++ [v.id] :=
  (notified_notices _ _).trans (notified_report_vblank s v.id s.current_msc)

/-- What a notification queues stands in the queue before the vblank is taken out. -/
theorem queue_performed (notify : EventId → List Notice) (v : Vblank) (s : State) :
    (performed notify v s).vblank_queue =
      (((notify v.id).filterMap Notice.vblank).reverse ++ s.vblank_queue).erase v :=
  congrArg (List.erase · v) (queue_notices _ _)

/-- The loop adds to the queue what is queued again only. -/
theorem queue_performVblanks {notify : EventId → List Notice} {vs : List Vblank} {s : State}
    {v : Vblank}
    (h : v ∈ (performVblanks notify vs s).vblank_queue) :
    v ∈ s.vblank_queue ∨ ∃ w ∈ vs, ∃ n ∈ notify w.id, n.vblank = some v := by
  induction vs generalizing s with
  | nil => exact .inl h
  | cons w vs ih =>
    have hmore : ∀ {p : Vblank → Prop}, (∃ u ∈ vs, p u) → ∃ u ∈ w :: vs, p u := fun ⟨u, hu, hp⟩ =>
      ⟨u, List.mem_cons_of_mem _ hu, hp⟩
    rw [performVblanks_cons] at h
    split at h
    · rcases ih h with hold | hnew
      · rw [queue_performed] at hold
        rcases List.mem_append.mp (List.mem_of_mem_erase hold) with hagain | hold
        · obtain ⟨n, hn, hv⟩ := List.mem_filterMap.mp (List.mem_reverse.mp hagain)
          exact .inr ⟨w, List.mem_cons_self, n, hn, hv⟩
        · exact .inl hold
      · exact .inr (hmore hnew)
    · exact (ih h).imp_right hmore

/-- And it tells of what it comes by only. -/
theorem notified_performVblanks {notify : EventId → List Notice} {vs : List Vblank} {s : State}
    {id : EventId} (h : id ∈ notified (performVblanks notify vs s)) :
    id ∈ notified s ∨ ∃ v ∈ vs, v.id = id := by
  induction vs generalizing s with
  | nil => exact .inl h
  | cons v vs ih =>
    rw [performVblanks_cons] at h
    split at h
    · rcases ih h with hold | ⟨w, hw, hid⟩
      · rw [notified_performed] at hold
        rcases List.mem_append.mp hold with hold | hnew
        · exact .inl hold
        · exact .inr ⟨v, List.mem_cons_self, (List.mem_singleton.mp hnew).symm⟩
      · exact .inr ⟨w, List.mem_cons_of_mem _ hw, hid⟩
    · rcases ih h with hold | ⟨w, hw, hid⟩
      · exact .inl hold
      · exact .inr ⟨w, List.mem_cons_of_mem _ hw, hid⟩

/-! ## Notifications that neither finish a flip nor queue again -/

/-- The notifications ask for the counter at most. -/
def QuietCalls (notify : EventId → List Notice) : Prop :=
  ∀ id, ∀ n ∈ notify id, n = .call .getUstMsc

def Quiet : Action → Prop
  | .redraw notify => QuietCalls notify
  | .resize notify => QuietCalls notify
  | _ => True

theorem current_msc_performed {notify : EventId → List Notice} (quiet : QuietCalls notify)
    (v : Vblank)
    (s : State) : (performed notify v s).current_msc = s.current_msc := by
  have hnotices : ∀ (notices : List Notice) (s : State), (∀ n ∈ notices, n = .call .getUstMsc) →
      (notices.foldl notice s).current_msc = s.current_msc := by
    intro notices
    induction notices with
    | nil => exact fun _ _ => rfl
    | cons n notices ih =>
      intro s hquiet
      rw [hquiet n List.mem_cons_self]
      exact ih _ fun n hn => hquiet n (List.mem_cons_of_mem _ hn)
  exact hnotices (notify v.id) _ (quiet v.id)

theorem queue_performed_quiet {notify : EventId → List Notice} (quiet : QuietCalls notify)
    (v : Vblank)
    (s : State) : (performed notify v s).vblank_queue = s.vblank_queue.erase v := by
  have hnone : (notify v.id).filterMap Notice.vblank = [] := by
    rw [List.filterMap_eq_nil_iff]
    intro n hn
    rw [quiet v.id n hn]
    rfl
  rw [queue_performed, hnone]
  rfl

/-- The vblanks that are due. -/
def dueOf (msc : Msc) (vs : List Vblank) : List Vblank := vs.filter (·.msc ≤ msc)

/-- With quiet calls, the due vblanks are notified in their order and leave the queue. -/
theorem performVblanks_quiet {notify : EventId → List Notice} (quiet : QuietCalls notify)
    (vs : List Vblank)
    (s : State) :
    (performVblanks notify vs s).current_msc = s.current_msc ∧
      (performVblanks notify vs s).vblank_queue = (dueOf s.current_msc vs).foldl List.erase
        s.vblank_queue ∧
      notified (performVblanks notify vs s) = notified s ++ (dueOf s.current_msc vs).map
        (·.id) := by
  induction vs generalizing s with
  | nil => exact ⟨rfl, rfl, (List.append_nil _).symm⟩
  | cons v vs ih =>
    rw [performVblanks_cons]
    by_cases hdue : v.msc ≤ s.current_msc
    · have hcons : dueOf s.current_msc (v :: vs) = v :: dueOf s.current_msc vs :=
        List.filter_cons_of_pos (by simpa using hdue)
      obtain ⟨hmsc, hqueue, hnotified⟩ := ih (performed notify v s)
      rw [current_msc_performed quiet, queue_performed_quiet quiet] at hqueue
      rw [current_msc_performed quiet, notified_performed] at hnotified
      rw [if_pos hdue, hcons, hmsc, hqueue, hnotified, current_msc_performed quiet]
      exact ⟨rfl, rfl, by simp⟩
    · have hcons : dueOf s.current_msc (v :: vs) = dueOf s.current_msc vs :=
        List.filter_cons_of_neg (by simpa using hdue)
      rw [if_neg hdue, hcons]
      exact ih s

/-- It only deletes. -/
theorem queue_performVblanks_sublist {notify : EventId → List Notice} (quiet : QuietCalls notify)
    (vs : List Vblank)
    (s : State) : (performVblanks notify vs s).vblank_queue.Sublist s.vblank_queue := by
  rw [(performVblanks_quiet quiet vs s).2.1, ← List.diff_eq_foldl]
  exact List.diff_sublist _ _

/-- The loop takes what is due from the queue and tells of it. -/
theorem loriePerformVblanks_quiet {notify : EventId → List Notice} (quiet : QuietCalls notify)
    {s : State}
    (hnodup : (s.vblank_queue.map (·.id)).Nodup) :
    (loriePerformVblanks notify s).current_msc = s.current_msc ∧
      (∀ v, v ∈ (loriePerformVblanks notify s).vblank_queue ↔
        v ∈ s.vblank_queue ∧ ¬ v.msc ≤ s.current_msc) ∧
      notified (loriePerformVblanks notify s) =
        notified s ++ (dueOf s.current_msc s.vblank_queue).map (·.id) := by
  obtain ⟨hmsc, hqueue, hnotified⟩ := performVblanks_quiet quiet s.vblank_queue s
  have hdistinct : s.vblank_queue.Nodup := List.Nodup.of_map _ hnodup
  refine ⟨hmsc, fun v => ?_, hnotified⟩
  rw [show (loriePerformVblanks notify s).vblank_queue = _ from hqueue, ← List.diff_eq_foldl,
    hdistinct.mem_sdiff_iff, dueOf, List.mem_filter]
  constructor
  · rintro ⟨hv, hnot⟩
    exact ⟨hv, fun hdue => hnot ⟨hv, by simpa using hdue⟩⟩
  · rintro ⟨hv, hdue⟩
    exact ⟨hv, fun hmem => hdue (by simpa using hmem.2)⟩

/-! ## Actions -/

/-- The next frame. -/
def tick (s : State) : State := { s with current_msc := s.current_msc + 1 }

/-- The id an action puts into the queue. -/
def Action.queues : Action → Option EventId
  | .queueVblank true id _ => some id
  | _ => none

/-- The id may come into the queue, by the action or by a notification that it makes. -/
def Action.Puts (a : Action) (id : EventId) : Prop :=
  a.queues = some id ∨ ∃ notify, (a = .redraw notify ∨ a = .resize notify) ∧
    ∃ id', ∃ n ∈ notify id', ∃ v, n.vblank = some v ∧ v.id = id

theorem queues_of_puts {a : Action} {id : EventId} (quiet : Quiet a) (h : a.Puts id) :
    a.queues = some id := by
  rcases h with hqueues | ⟨notify, haction, id', n, hn, v, hv, -⟩
  · exact hqueues
  · have hquiet : QuietCalls notify := by
      rcases haction with rfl | rfl
      · exact quiet
      · exact quiet
    rw [hquiet id' n hn] at hv
    cases hv

/-- What an action leaves in the queue was there or is put there by it. -/
theorem queue_act {s : State} {a : Action} {v : Vblank} (h : v ∈ (act s a).vblank_queue) :
    v ∈ s.vblank_queue ∨ a.Puts v.id := by
  have hagain {notify : EventId → List Notice} (haction : a = .redraw notify ∨ a = .resize notify)
    {s' : State}
      (hloop : v ∈ (performVblanks notify s.vblank_queue s').vblank_queue)
        (hqueue : s'.vblank_queue = s.vblank_queue) :
      v ∈ s.vblank_queue ∨ a.Puts v.id := by
    rcases queue_performVblanks hloop with hold | ⟨w, -, n, hn, hv⟩
    · exact .inl (hqueue ▸ hold)
    · exact .inr (.inr ⟨notify, haction, w.id, n, hn, v, hv, rfl⟩)
  cases a with
  | call c => exact .inl (queue_call s c ▸ h)
  | queueVblank allocated id msc =>
    cases allocated with
    | false => exact .inl h
    | true =>
      rcases List.mem_cons.mp h with rfl | hold
      · exact .inr (.inl rfl)
      · exact .inl hold
  | abortVblank id => exact .inl (List.mem_of_mem_eraseP h)
  | redraw notify =>
    have hloop : v ∈ (performVblanks notify s.vblank_queue (tick s)).vblank_queue := h
    exact hagain (.inl rfl) hloop rfl
  | resize notify => exact hagain (.inr rfl) h rfl

/-- An event is notified in a step only if it was queued before. -/
theorem notified_act {s : State} {a : Action} {id : EventId} (h : id ∈ notified (act s a)) :
    id ∈ notified s ∨ ∃ v ∈ s.vblank_queue, v.id = id := by
  cases a with
  | call c => exact .inl (notified_call s c ▸ h)
  | queueVblank allocated id' msc =>
    cases allocated with
    | false => exact .inl h
    | true => exact .inl h
  | abortVblank id' => exact .inl h
  | redraw notify => exact notified_performVblanks (s := tick s) h
  | resize notify => exact notified_performVblanks h

/-- An id that is not in the queue and is not put there is not told of any more. -/
theorem not_notified_of_gone {id : EventId} {as : List Action} {s : State}
    (hgone : ∀ v ∈ s.vblank_queue, v.id ≠ id) (has : ∀ a ∈ as, ¬a.Puts id)
    (h : id ∈ notified (as.foldl act s)) : id ∈ notified s := by
  induction as generalizing s with
  | nil => exact h
  | cons a as ih =>
    have hgone' : ∀ v ∈ (act s a).vblank_queue, v.id ≠ id := by
      intro v hv
      rcases queue_act hv with hold | hputs
      · exact hgone v hold
      · rintro rfl
        exact has a List.mem_cons_self hputs
    rcases notified_act (ih hgone' (fun a ha => has a (List.mem_cons_of_mem _ ha)) h)
      with hold | ⟨v, hv, hid⟩
    · exact hold
    · exact absurd hid (hgone v hv)

theorem after_concat (as : List Action) (a : Action) : after (as ++ [a]) = act (after as) a :=
  List.foldl_concat _ _ _ _

theorem after_append (as bs : List Action) : after (as ++ bs) = bs.foldl act (after as) :=
  List.foldl_append

/-- The ids of the vblanks queued in a run. -/
def queuedIds (as : List Action) : List EventId := as.filterMap Action.queues

theorem queuedIds_concat (as : List Action) (a : Action) :
    queuedIds (as ++ [a]) = queuedIds as ++ a.queues.toList := by
  cases h : a.queues <;> simp [queuedIds, h]

theorem nodup_of_concat {as : List Action} {a : Action} (h : (queuedIds (as ++ [a])).Nodup) :
    (queuedIds as).Nodup ∧ ∀ id, a.queues = some id → id ∉ queuedIds as := by
  rw [queuedIds_concat] at h
  obtain ⟨hold, -, hnew⟩ := List.nodup_append.mp h
  exact ⟨hold, fun id hid hmem => hnew id hmem id (by simp [hid]) rfl⟩

/-- In a quiet run with distinct ids the queue has distinct ids, and only queued ones. -/
theorem queue_ids {as : List Action} (quiet : ∀ a ∈ as, Quiet a) (distinct : (queuedIds as).Nodup) :
    ((after as).vblank_queue.map (·.id)).Nodup ∧ ∀ v ∈
    (after as).vblank_queue, v.id ∈ queuedIds as := by
  induction as using List.reverseRecOn with
  | nil => exact ⟨List.nodup_nil, fun _ hv => by cases hv⟩
  | append_singleton as a ih =>
    obtain ⟨hdistinct, hnew⟩ := nodup_of_concat distinct
    have hquiet : Quiet a := quiet a (by simp)
    obtain ⟨hnodup, hqueued⟩ := ih (fun b hb => quiet b (List.mem_append_left _ hb)) hdistinct
    have hsub : ∀ v ∈ (after (as ++ [a])).vblank_queue, v.id ∈ queuedIds (as ++ [a]) := by
      intro v hv
      rw [after_concat] at hv
      rw [queuedIds_concat]
      rcases queue_act hv with hold | hputs
      · exact List.mem_append_left _ (hqueued v hold)
      · exact List.mem_append_right _ (by simp [queues_of_puts hquiet hputs])
    refine ⟨?_, hsub⟩
    rw [after_concat]
    cases a with
    | call c =>
      rw [show (act (after as) (.call c)).vblank_queue = _ from queue_call _ c]
      exact hnodup
    | queueVblank allocated id msc =>
      cases allocated with
      | false => exact hnodup
      | true =>
        refine List.nodup_cons.mpr ⟨?_, hnodup⟩
        intro hmem
        obtain ⟨v, hv, hid⟩ := List.mem_map.mp hmem
        exact hnew v.id (congrArg some hid.symm) (hqueued v hv)
    | abortVblank id => exact hnodup.sublist (List.eraseP_sublist.map _)
    | redraw notify => exact hnodup.sublist ((queue_performVblanks_sublist hquiet _ _).map _)
    | resize notify => exact hnodup.sublist ((queue_performVblanks_sublist hquiet _ _).map _)

/-! ## Once and in time -/

/-- The vblank was queued and not given up since. -/
def Wanted (as : List Action) (v : Vblank) : Prop :=
  ∃ pre post, as = pre ++ .queueVblank true v.id v.msc :: post ∧ .abortVblank v.id ∉ post

/-- And Present was not told of it. -/
def Pending (as : List Action) (v : Vblank) : Prop := Wanted as v ∧ v.id ∉ notified (after as)

/-- Nothing was told twice, and only what was queued was told, when it was due; the queue is what is
pending. -/
structure ToldOnce (as : List Action) : Prop where
  once : (notified (after as)).Nodup
  due : ∀ id msc', .vblank id msc' ∈ (after as).reports →
    ∃ msc, .queueVblank true id msc ∈ as ∧ msc ≤ msc'
  queue : ∀ v, v ∈ (after as).vblank_queue ↔ Pending as v

/-- And nothing was told after it was given up, and everything at the first frame at which it was
due. -/
structure ToldInTime (as : List Action) : Prop extends ToldOnce as where
  aborted : ∀ pre post id, as = pre ++ .abortVblank id :: post → id ∈ queuedIds pre →
    id ∈ notified (after as) → id ∈ notified (after pre)
  punctual : ∀ pre notify post, as = pre ++ .redraw notify :: post → ∀ v, Pending pre v →
    v.msc ≤ (after (pre ++ [.redraw notify])).current_msc →
      v.id ∈ notified (after (pre ++ [.redraw notify]))

/-- What is wanted after one more step. -/
theorem wanted_concat {as : List Action} {a : Action} {v : Vblank} :
    Wanted (as ++ [a]) v ↔
      a = .queueVblank true v.id v.msc ∨ Wanted as v ∧ a ≠ .abortVblank v.id := by
  constructor
  · rintro ⟨pre, post, heq, hnot⟩
    cases post using List.reverseRecOn with
    | nil =>
      obtain ⟨-, hlast⟩ := List.append_inj' heq rfl
      exact .inl (List.cons.inj hlast).1
    | append_singleton post b =>
      rw [← List.cons_append, ← List.append_assoc] at heq
      obtain ⟨has, hlast⟩ := List.append_inj' heq rfl
      obtain rfl := (List.cons.inj hlast).1
      refine .inr ⟨⟨pre, post, has, fun hmem => hnot (List.mem_append_left _ hmem)⟩, ?_⟩
      rintro rfl
      exact hnot (by simp)
  · rintro (rfl | ⟨⟨pre, post, rfl, hnot⟩, hne⟩)
    · exact ⟨as, [], rfl, by simp⟩
    · refine ⟨pre, post ++ [a], by simp, ?_⟩
      intro hmem
      rcases List.mem_append.mp hmem with hmem | hmem
      · exact hnot hmem
      · exact hne (List.mem_singleton.mp hmem).symm

theorem wanted_concat_of_ne {as : List Action} {a : Action} {v : Vblank}
    (hqueue : a.queues = none) (habort : ∀ id, a ≠ .abortVblank id) :
    Wanted (as ++ [a]) v ↔ Wanted as v := by
  rw [wanted_concat]
  constructor
  · rintro (rfl | ⟨hwanted, -⟩)
    · cases hqueue
    · exact hwanted
  · exact fun hwanted => .inr ⟨hwanted, habort v.id⟩

theorem mem_notified {s : State} {id : EventId} :
    id ∈ notified s ↔ ∃ msc, .vblank id msc ∈ s.reports := by
  unfold notified
  rw [List.mem_filterMap]
  constructor
  · rintro ⟨r, hr, hid⟩
    cases r with
    | ustMsc msc => cases hid
    | vblank id' msc =>
      cases hid
      exact ⟨msc, hr⟩
    | flip id' msc => cases hid
  · rintro ⟨msc, hr⟩
    exact ⟨_, hr, rfl⟩

/-- The events that were queued in a run. -/
theorem mem_queuedIds {as : List Action} {id : EventId} :
    id ∈ queuedIds as ↔ ∃ msc, .queueVblank true id msc ∈ as := by
  unfold queuedIds
  rw [List.mem_filterMap]
  constructor
  · rintro ⟨a, ha, hid⟩
    unfold Action.queues at hid
    split at hid
    next id' msc =>
      cases hid
      exact ⟨msc, ha⟩
    next => cases hid
  · rintro ⟨msc, ha⟩
    exact ⟨_, ha, rfl⟩

/-- Only queued events are notified. -/
theorem ToldOnce.notified_queued {as : List Action} (h : ToldOnce as) {id : EventId}
    (hid : id ∈ notified (after as)) : id ∈ queuedIds as := by
  obtain ⟨msc', hr⟩ := mem_notified.mp hid
  obtain ⟨msc, hmem, -⟩ := h.due id msc' hr
  exact mem_queuedIds.mpr ⟨msc, hmem⟩

theorem mem_reports_call {s : State} {c : Call} {id : EventId} {msc : Msc}
    (h : .vblank id msc ∈ (call s c).reports) : .vblank id msc ∈ s.reports := by
  cases c with
  | getUstMsc => simpa [call, loriePresentGetUstMsc] using h
  | afterFlip event_id target_msc => simpa [call, loriePresentAfterFlip] using h

theorem mem_reports_notices {s : State} {notices : List Notice} {id : EventId} {msc : Msc}
    (h : .vblank id msc ∈ (notices.foldl notice s).reports) : .vblank id msc ∈ s.reports := by
  induction notices generalizing s with
  | nil => exact h
  | cons n notices ih =>
    have hnotice := ih h
    cases n with
    | call c => exact mem_reports_call hnotice
    | queueVblank allocated id' msc' =>
      cases allocated with
      | false => exact hnotice
      | true => exact hnotice

/-- What the loop tells of was due when it did. -/
theorem mem_reports_performVblanks {notify : EventId → List Notice} {vs : List Vblank} {s : State}
    {id : EventId} {msc : Msc} (h : .vblank id msc ∈ (performVblanks notify vs s).reports) :
    .vblank id msc ∈ s.reports ∨ ∃ v ∈ vs, v.id = id ∧ v.msc ≤ msc := by
  induction vs generalizing s with
  | nil => exact .inl h
  | cons v vs ih =>
    rw [performVblanks_cons] at h
    split at h
    next hdue =>
      rcases ih h with hold | ⟨w, hw, hrest⟩
      · rcases List.mem_append.mp (mem_reports_notices hold) with hold | hnew
        · exact .inl hold
        · cases List.mem_singleton.mp hnew
          exact .inr ⟨v, List.mem_cons_self, rfl, hdue⟩
      · exact .inr ⟨w, List.mem_cons_of_mem _ hw, hrest⟩
    next =>
      rcases ih h with hold | ⟨w, hw, hrest⟩
      · exact .inl hold
      · exact .inr ⟨w, List.mem_cons_of_mem _ hw, hrest⟩

/-- The step of the loop, after a change of the counter that leaves the rest as it is. -/
theorem ToldOnce.perform {as : List Action} {a : Action} {notify : EventId → List Notice}
    {s : State}
    (h : ToldOnce as) (hnodup : ((after as).vblank_queue.map (·.id)).Nodup)
    (quiet : QuietCalls notify)
    (hact : act (after as) a = loriePerformVblanks notify s)
    (hqueue : s.vblank_queue = (after as).vblank_queue) (hreports : s.reports = (after as).reports)
    (hqueues : a.queues = none) (habort : ∀ id, a ≠ .abortVblank id) : ToldOnce (as ++ [a]) := by
  have hnotified : notified s = notified (after as) := by unfold notified; rw [hreports]
  obtain ⟨-, hleft, htold⟩ := loriePerformVblanks_quiet quiet (hqueue ▸ hnodup)
  rw [hnotified] at htold
  have hinj : ∀ v ∈ s.vblank_queue, ∀ w ∈ s.vblank_queue, v.id = w.id → v = w := by
    rw [hqueue]
    exact List.inj_on_of_nodup_map hnodup
  rw [← hact, ← after_concat] at hleft htold
  refine ⟨?_, ?_, ?_⟩
  · rw [htold]
    refine List.nodup_append.mpr ⟨h.once, ?_, ?_⟩
    · rw [hqueue]
      exact hnodup.sublist (List.filter_sublist.map _)
    · rintro id hid _ hdue rfl
      obtain ⟨v, hv, rfl⟩ := List.mem_map.mp hdue
      have hmem : v ∈ (after as).vblank_queue := hqueue ▸ (List.mem_filter.mp hv).1
      exact ((h.queue v).mp hmem).2 hid
  · intro id msc' hr
    rw [after_concat, hact] at hr
    rcases mem_reports_performVblanks hr with hold | ⟨v, hv, rfl, hle⟩
    · rw [hreports] at hold
      obtain ⟨msc, hmem, hle⟩ := h.due id msc' hold
      exact ⟨msc, List.mem_append_left _ hmem, hle⟩
    · obtain ⟨⟨pre, post, heq, -⟩, -⟩ := (h.queue v).mp (hqueue ▸ hv)
      exact ⟨v.msc, by simp [heq], hle⟩
  · intro v
    unfold Pending
    rw [hleft, wanted_concat_of_ne hqueues habort, htold, hqueue, List.mem_append, not_or]
    constructor
    · rintro ⟨hv, hnot⟩
      obtain ⟨hwanted, hold⟩ := (h.queue v).mp hv
      refine ⟨hwanted, hold, fun hdue => ?_⟩
      obtain ⟨w, hw, hid⟩ := List.mem_map.mp hdue
      obtain ⟨hmem, hle⟩ := List.mem_filter.mp hw
      rw [← hinj w (hqueue ▸ hmem) v (hqueue ▸ hv) hid] at hnot
      exact hnot (by simpa using hle)
    · rintro ⟨hwanted, hold, hdue⟩
      have hv := (h.queue v).mpr ⟨hwanted, hold⟩
      refine ⟨hv, fun hle => hdue ?_⟩
      exact List.mem_map.mpr ⟨v, List.mem_filter.mpr ⟨hv, by simpa using hle⟩, rfl⟩

/-- An action that neither queues nor gives up nor tells. -/
theorem ToldOnce.same {as : List Action} {a : Action} (h : ToldOnce as) (hqueues : a.queues = none)
    (habort : ∀ id, a ≠ .abortVblank id)
    (hqueue : (act (after as) a).vblank_queue = (after as).vblank_queue)
    (hnotified : notified (act (after as) a) = notified (after as))
    (hreports : ∀ id msc, .vblank id msc ∈ (act (after as) a).reports →
      .vblank id msc ∈ (after as).reports) :
    ToldOnce (as ++ [a]) := by
  rw [← after_concat] at hqueue hnotified hreports
  refine ⟨hnotified ▸ h.once, fun id msc' hr => ?_, fun v => ?_⟩
  · obtain ⟨msc, hmem, hle⟩ := h.due id msc' (hreports id msc' hr)
    exact ⟨msc, List.mem_append_left _ hmem, hle⟩
  · unfold Pending
    rw [hqueue, hnotified, wanted_concat_of_ne hqueues habort]
    exact h.queue v

/-- Taking out an event leaves the others. -/
theorem mem_eraseP_id {vs : List Vblank} (hnodup : (vs.map (·.id)).Nodup) {id : EventId}
    {v : Vblank} :
    v ∈ vs.eraseP (·.id = id) ↔ v ∈ vs ∧ v.id ≠ id := by
  induction vs with
  | nil => simp
  | cons w vs ih =>
    obtain ⟨hnew, hrest⟩ := List.nodup_cons.mp hnodup
    by_cases hid : w.id = id
    · rw [List.eraseP_cons_of_pos (by simpa using hid), List.mem_cons]
      constructor
      · intro hv
        exact ⟨.inr hv, fun heq => hnew (List.mem_map.mpr ⟨v, hv, heq.trans hid.symm⟩)⟩
      · rintro ⟨rfl | hv, hne⟩
        · exact absurd hid hne
        · exact hv
    · rw [List.eraseP_cons_of_neg (by simpa using hid), List.mem_cons, List.mem_cons, ih hrest]
      constructor
      · rintro (rfl | ⟨hv, hne⟩)
        · exact ⟨.inl rfl, hid⟩
        · exact ⟨.inr hv, hne⟩
      · rintro ⟨rfl | hv, hne⟩
        · exact .inl rfl
        · exact .inr ⟨hv, hne⟩

/-- A new event waits. -/
theorem ToldOnce.queued {as : List Action} (h : ToldOnce as) {id : EventId} (msc : Msc)
    (hnew : id ∉ queuedIds as) : ToldOnce (as ++ [.queueVblank true id msc]) := by
  refine ⟨?_, ?_, ?_⟩
  · rw [after_concat]
    exact h.once
  · intro id' msc' hr
    rw [after_concat] at hr
    obtain ⟨msc₀, hmem, hle⟩ := h.due id' msc' hr
    exact ⟨msc₀, List.mem_append_left _ hmem, hle⟩
  · intro v
    have hfresh : id ∉ notified (after as) := fun hid => hnew (h.notified_queued hid)
    unfold Pending
    rw [after_concat, wanted_concat]
    change v ∈ (⟨id, msc⟩ : Vblank) :: (after as).vblank_queue ↔ _ ∧ v.id ∉ notified (after as)
    rw [List.mem_cons, h.queue v]
    constructor
    · rintro (rfl | ⟨hwanted, hnot⟩)
      · exact ⟨.inl rfl, hfresh⟩
      · exact ⟨.inr ⟨hwanted, fun hne => by cases hne⟩, hnot⟩
    · rintro ⟨heq | ⟨hwanted, -⟩, hnot⟩
      · cases heq
        exact .inl rfl
      · exact .inr ⟨hwanted, hnot⟩

/-- An event that is aborted no longer waits. -/
theorem ToldOnce.aborted {as : List Action} (h : ToldOnce as)
    (hnodup : ((after as).vblank_queue.map (·.id)).Nodup) (id : EventId) :
    ToldOnce (as ++ [.abortVblank id]) := by
  refine ⟨?_, ?_, ?_⟩
  · rw [after_concat]
    exact h.once
  · intro id' msc' hr
    rw [after_concat] at hr
    obtain ⟨msc₀, hmem, hle⟩ := h.due id' msc' hr
    exact ⟨msc₀, List.mem_append_left _ hmem, hle⟩
  · intro v
    unfold Pending
    rw [after_concat, wanted_concat]
    change v ∈ (after as).vblank_queue.eraseP (·.id = id) ↔ _ ∧ v.id ∉ notified (after as)
    rw [mem_eraseP_id hnodup, h.queue v]
    constructor
    · rintro ⟨⟨hwanted, hnot⟩, hne⟩
      exact ⟨.inr ⟨hwanted, fun heq => hne (by cases heq; rfl)⟩, hnot⟩
    · rintro ⟨heq | ⟨hwanted, hne⟩, hnot⟩
      · cases heq
      · exact ⟨⟨hwanted, hnot⟩, fun hid => hne (by rw [hid])⟩

/-- Every quiet run with distinct ids tells once. -/
theorem toldOnce {as : List Action} (quiet : ∀ a ∈ as, Quiet a) (distinct : (queuedIds as).Nodup) :
    ToldOnce as := by
  induction as using List.reverseRecOn with
  | nil =>
    refine ⟨List.nodup_nil, fun _ _ hr => (by cases hr), fun v => ⟨fun hv => (by cases hv), ?_⟩⟩
    rintro ⟨⟨pre, post, heq, -⟩, -⟩
    simp at heq
  | append_singleton as a ih =>
    obtain ⟨hdistinct, hnew⟩ := nodup_of_concat distinct
    have h := ih (fun b hb => quiet b (List.mem_append_left _ hb)) hdistinct
    have hnodup := (queue_ids (fun b hb => quiet b (List.mem_append_left _ hb)) hdistinct).1
    have hquiet := quiet a (by simp)
    cases a with
    | call c =>
      exact h.same rfl (fun _ hne => by cases hne) (queue_call _ c)
          (notified_call _ c) fun id msc hr =>
        mem_reports_call hr
    | queueVblank allocated id msc =>
      cases allocated with
      | false =>
        exact h.same rfl (fun _ hne => by cases hne) rfl rfl fun _ _ hr => hr
      | true => exact h.queued msc (hnew id rfl)
    | abortVblank id => exact h.aborted hnodup id
    | redraw notify =>
      exact h.perform (s := tick (after as)) hnodup hquiet rfl rfl rfl rfl fun _ hne => by cases hne
    | resize notify =>
      exact h.perform hnodup hquiet rfl rfl rfl rfl fun _ hne => by cases hne

theorem queuedIds_append (as bs : List Action) :
    queuedIds (as ++ bs) = queuedIds as ++ queuedIds bs :=
  List.filterMap_append

/-- **Every vblank is told once and in time**, and none after it was given up. -/
theorem toldInTime {as : List Action} (quiet : ∀ a ∈ as, Quiet a)
    (distinct : (queuedIds as).Nodup) :
    ToldInTime as := by
  have hpart : ∀ pre post, as = pre ++ post → ToldOnce pre := by
    rintro pre post rfl
    rw [queuedIds_append] at distinct
    exact toldOnce (fun a ha => quiet a (List.mem_append_left _ ha))
      (List.nodup_append.mp distinct).1
  refine { toldOnce quiet distinct with aborted := ?_, punctual := ?_ }
  · intro pre post id heq hqueued hnotified
    have hpre := hpart (pre ++ [.abortVblank id]) post (by simp [heq])
    rw [heq, List.append_cons, after_append] at hnotified
    have hgone : ∀ v ∈ (after (pre ++ [.abortVblank id])).vblank_queue, v.id ≠ id := by
      intro v hv hid
      obtain ⟨hwanted, -⟩ := (hpre.queue v).mp hv
      rcases wanted_concat.mp hwanted with hqueue | ⟨-, hne⟩
      · cases hqueue
      · exact hne (by rw [hid])
    have hpost : ∀ a ∈ post, ¬a.Puts id := by
      intro a ha hputs
      have hid := queues_of_puts (quiet a (by simp [heq, ha])) hputs
      rw [heq, queuedIds_append] at distinct
      refine (List.nodup_append.mp distinct).2.2 id hqueued id ?_ rfl
      exact List.mem_filterMap.mpr ⟨a, List.mem_cons_of_mem _ ha, hid⟩
    have hbefore := not_notified_of_gone hgone hpost hnotified
    rwa [after_concat] at hbefore
  · intro pre notify post heq v hpending hdue
    have hpre := hpart pre (.redraw notify :: post) heq
    have hquiet : QuietCalls notify := quiet (.redraw notify) (by simp [heq])
    rw [after_concat] at hdue ⊢
    obtain ⟨hmsc, -, htold⟩ :=
      performVblanks_quiet hquiet (after pre).vblank_queue (tick (after pre))
    change v.msc ≤ (performVblanks notify _ (tick (after pre))).current_msc at hdue
    change v.id ∈ notified (performVblanks notify _ (tick (after pre)))
    rw [hmsc] at hdue
    rw [htold]
    refine List.mem_append_right _ (List.mem_map.mpr ⟨v, List.mem_filter.mpr ⟨?_, ?_⟩, rfl⟩)
    · exact (hpre.queue v).mpr hpending
    · simpa using hdue

/-- Two vblanks that come due in the order in which they were not queued, and one given up. -/
theorem toldInTime_outOfOrder :
    notified (after [.queueVblank true 1 2, .queueVblank true 2 1, .queueVblank true 3 1,
      .abortVblank 3,
        .redraw fun _ => [.call .getUstMsc], .redraw fun _ => []]) = [2, 1] ∧
      ToldInTime [.queueVblank true 1 2, .queueVblank true 2 1, .queueVblank true 3 1,
        .abortVblank 3,
        .redraw fun _ => [.call .getUstMsc], .redraw fun _ => []] := by
  refine ⟨by decide, toldInTime ?_ (by decide)⟩
  intro a ha
  simp only [List.mem_cons, List.not_mem_nil, or_false] at ha
  rcases ha with rfl | rfl | rfl | rfl | rfl | rfl
  · trivial
  · trivial
  · trivial
  · trivial
  · exact fun _ c hc => List.mem_singleton.mp hc
  · exact fun _ c hc => by cases hc

/-! ## A resize -/

/-- Every vblank of the queue is due when the loop comes to it. -/
def AllDue (notify : EventId → List Notice) : List Vblank → State → Prop
  | [], _ => True
  | v :: vs, s => v.msc ≤ s.current_msc ∧ AllDue notify vs (performed notify v s)

/-- No notification of these queues one of them again. -/
def NoneAgain (notify : EventId → List Notice) (vs : List Vblank) : Prop :=
  ∀ v ∈ vs, ∀ n ∈ notify v.id, ∀ w, n.vblank = some w → w.id ∉ vs.map (·.id)

/-- No vblank queued before the resize is still pending, and Present is not told of one later. -/
def Drains (s : State) (notify : EventId → List Notice) : Prop :=
  (∀ v ∈ s.vblank_queue, ∀ w ∈ (act s (.resize notify)).vblank_queue, w.id ≠ v.id) ∧
    ∀ as : List Action, (∀ a ∈ as, ∀ v ∈ s.vblank_queue, ¬a.Puts v.id) →
      ∀ v ∈ s.vblank_queue,
        v.id ∉ notified (as.foldl act { act s (.resize notify) with reports := [] })

/-- Each turn deletes one vblank at most. -/
theorem count_le_performVblanks (notify : EventId → List Notice) (vs : List Vblank) (s : State)
    (v : Vblank) :
    s.vblank_queue.count v ≤ (performVblanks notify vs s).vblank_queue.count v + vs.count v := by
  induction vs generalizing s with
  | nil => exact Nat.le_refl _
  | cons w vs ih =>
    rw [performVblanks_cons]
    split
    · have hrest := ih (performed notify w s)
      rw [queue_performed, List.count_erase, List.count_append] at hrest
      rw [List.count_cons]
      omega
    · have hrest := ih s
      have hmore : vs.count v ≤ (w :: vs).count v := List.count_le_count_cons
      omega

/-- Performing one vblank leaves the rest of the pass in the queue. -/
theorem subperm_performed {notify : EventId → List Notice} {v : Vblank} {vs : List Vblank}
    {s : State}
    (h : (v :: vs).Subperm s.vblank_queue) : vs.Subperm (performed notify v s).vblank_queue := by
  rw [queue_performed]
  have hmore :
      (v :: vs).Subperm (((notify v.id).filterMap Notice.vblank).reverse ++ s.vblank_queue) :=
    h.trans (List.sublist_append_right _ _).subperm
  have herased := hmore.erase v
  rwa [List.erase_cons_head] at herased

/-- What is not due stays. -/
theorem allDue_of_gone {notify : EventId → List Notice} {vs : List Vblank} {s : State}
    (hqueue : vs.Subperm s.vblank_queue)
    (hgone : ∀ v ∈ vs, v ∉ (performVblanks notify vs s).vblank_queue) :
    AllDue notify vs s := by
  induction vs generalizing s with
  | nil => trivial
  | cons v vs ih =>
    rw [performVblanks_cons] at hgone
    by_cases hle : v.msc ≤ s.current_msc
    · rw [if_pos hle] at hgone
      exact ⟨hle, ih (subperm_performed hqueue) fun w hw => hgone w (List.mem_cons_of_mem _ hw)⟩
    · rw [if_neg hle] at hgone
      have hstill := count_le_performVblanks notify vs s v
      have hthere := hqueue.count_le v
      rw [List.count_cons_self] at hthere
      have hzero := List.count_eq_zero.mpr (hgone v List.mem_cons_self)
      omega

/-- If all are due, an id is as often in the queue as it was, less what was told and with what is
queued again. -/
theorem countP_performVblanks {notify : EventId → List Notice} {vs : List Vblank} {s : State}
    (hqueue : vs.Subperm s.vblank_queue) (hdue : AllDue notify vs s) (p : Vblank → Bool) :
    (performVblanks notify vs s).vblank_queue.countP p + vs.countP p =
      s.vblank_queue.countP p + (vs.flatMap fun v => (notify v.id).filterMap Notice.vblank).countP
        p := by
  induction vs generalizing s with
  | nil => rfl
  | cons v vs ih =>
    obtain ⟨hle, hrest⟩ := hdue
    have hmem : v ∈ ((notify v.id).filterMap Notice.vblank).reverse ++ s.vblank_queue :=
      List.mem_append_right _ (hqueue.subset List.mem_cons_self)
    have hturn := ih (subperm_performed hqueue) hrest
    have hpositive (hp : p v = true) :
        0 < (((notify v.id).filterMap Notice.vblank).reverse ++ s.vblank_queue).countP p :=
      List.countP_pos_iff.mpr ⟨v, hmem, hp⟩
    rw [queue_performed, List.countP_erase] at hturn
    rw [performVblanks_cons, if_pos hle, List.countP_cons, List.flatMap_cons, List.countP_append]
    rw [List.countP_append, List.countP_reverse] at hturn hpositive
    by_cases hp : p v = true
    · have hpos := hpositive hp
      rw [if_pos ⟨hmem, hp⟩] at hturn
      rw [if_pos hp]
      omega
    · rw [if_neg fun h => hp h.2] at hturn
      rw [if_neg hp]
      omega

/-- If all are due, the queue is what is queued again. -/
theorem gone_iff_noneAgain {notify : EventId → List Notice} {s : State}
    (hdue : AllDue notify s.vblank_queue s) :
    (∀ v ∈ s.vblank_queue, ∀ w ∈ (act s (.resize notify)).vblank_queue, w.id ≠ v.id) ↔
      NoneAgain notify s.vblank_queue := by
  have hcount (id : EventId) : (act s (.resize notify)).vblank_queue.countP (·.id = id) =
      (s.vblank_queue.flatMap fun v => (notify v.id).filterMap Notice.vblank).countP
          (·.id = id) := by
    have hall := countP_performVblanks (List.Subperm.refl _) hdue (·.id = id)
    rw [Nat.add_comm] at hall
    exact Nat.add_left_cancel hall
  constructor
  · intro hgone v hv n hn w hw hid
    obtain ⟨old, hold, heq⟩ := List.mem_map.mp hid
    have hzero := hcount w.id
    rw [List.countP_eq_zero.mpr fun u hu hid' =>
      hgone old hold u hu ((of_decide_eq_true hid').trans heq.symm)] at hzero
    refine List.countP_eq_zero.mp hzero.symm w ?_ (decide_eq_true rfl)
    exact List.mem_flatMap.mpr ⟨v, hv, List.mem_filterMap.mpr ⟨n, hn, hw⟩⟩
  · intro hnone v hv w hw hid
    have hzero : (act s (.resize notify)).vblank_queue.countP (·.id = v.id) = 0 := by
      rw [hcount, List.countP_eq_zero]
      intro u hu hid'
      obtain ⟨old, hold, hu⟩ := List.mem_flatMap.mp hu
      obtain ⟨n, hn, hu⟩ := List.mem_filterMap.mp hu
      exact hnone old hold n hn u hu (List.mem_map.mpr ⟨v, hv, (of_decide_eq_true hid').symm⟩)
    exact List.countP_eq_zero.mp hzero w hw (decide_eq_true hid)

/-- With quiet calls a pass is complete exactly when every vblank is due. -/
theorem allDue_quiet {notify : EventId → List Notice} (quiet : QuietCalls notify) (vs : List Vblank)
    (s : State) : AllDue notify vs s ↔ ∀ v ∈ vs, v.msc ≤ s.current_msc := by
  induction vs generalizing s with
  | nil => exact ⟨fun _ _ hv => (by cases hv), fun _ => trivial⟩
  | cons v vs ih => rw [AllDue, ih, current_msc_performed quiet, List.forall_mem_cons]

theorem noneAgain_quiet {notify : EventId → List Notice} (quiet : QuietCalls notify)
    (vs : List Vblank) :
    NoneAgain notify vs := by
  intro v _ n hn w hw
  rw [quiet v.id n hn] at hw
  cases hw

/-- **A resize drains the queue exactly when every vblank in it is due** when the loop comes to it,
and none is queued again. Without flips in between that means due at the resize. -/
theorem drains_iff (s : State) (notify : EventId → List Notice) :
    (Drains s notify ↔ AllDue notify s.vblank_queue s ∧ NoneAgain notify s.vblank_queue) ∧
      (QuietCalls notify → (Drains s notify ↔ ∀ v ∈ s.vblank_queue, v.msc ≤ s.current_msc)) := by
  have hmain : Drains s notify ↔ AllDue notify s.vblank_queue s ∧
      NoneAgain notify s.vblank_queue := by
    constructor
    · rintro ⟨hgone, -⟩
      have hdue : AllDue notify s.vblank_queue s :=
        allDue_of_gone (List.Subperm.refl _) fun v hv hstill => hgone v hv v hstill rfl
      exact ⟨hdue, (gone_iff_noneAgain hdue).mp hgone⟩
    · rintro ⟨hdue, hnone⟩
      have hgone := (gone_iff_noneAgain hdue).mpr hnone
      refine ⟨hgone, fun as has v hv hmem => ?_⟩
      have hnever : v.id ∈ notified { act s (.resize notify) with reports := [] } :=
        not_notified_of_gone (hgone v hv) (fun a ha => has a ha v hv) hmem
      exact absurd hnever List.not_mem_nil
  refine ⟨hmain, fun quiet => hmain.trans ?_⟩
  rw [allDue_quiet quiet, and_iff_left (noneAgain_quiet quiet _)]

/-- The frame of the second vblank has not come. -/
theorem not_drains_early :
    (queuedIds [.queueVblank true 1 0, .queueVblank true 2 5]).Nodup ∧
      (act (after [.queueVblank true 1 0, .queueVblank true 2 5])
        (.resize fun _ => [])).vblank_queue
        = [⟨2, 5⟩] ∧
      ¬ ∀ as, (queuedIds as).Nodup → ∀ notify, Drains (after as) notify := by
  refine ⟨by decide, by decide, fun h => ?_⟩
  have hdrains := h [.queueVblank true 1 0, .queueVblank true 2 5] (by decide) fun _ => []
  exact hdrains.1 ⟨2, 5⟩ (by decide) ⟨2, 5⟩ (by decide) rfl

/-- Both vblanks are due at the fifth frame. -/
theorem drains_late :
    Drains { after [.queueVblank true 1 0, .queueVblank true 2 5] with current_msc := 5 } fun _ =>
      [] := by
  refine ((drains_iff _ fun _ => []).2 fun _ _ hc => (by cases hc)).mpr ?_
  decide

end WinEmulator.Lorie.Present
