import Mathlib.Data.List.DropRight
import WinEmulator.Lib.Machine
import WinEmulator.Lorie.WorkQueue

/-!
# What becomes of queued work

The pass that is under way divides the queue: before `p` are the items whose functions it has called
and which stay, and after it those that it has still to call. An item that is put at the end is one
of these, also if the pass is at the last one, whose `next` is not fetched before its function has
returned.
-/

set_option autoImplicit false

namespace WinEmulator.Lorie.WorkQueue

open WinEmulator.Lib LinkedNodes

variable {Work : Type} [DecidableEq Work]

/-! ## What is to hold -/

/-- What has happened since the last pass began. -/
def inPass (trace : List (Event Work)) : List (Event Work) := trace.rtakeWhile (· ≠ .passBegins)

/-- A pass is under way. -/
def Passing (trace : List (Event Work)) : Prop := .passBegins ∈ trace ∧ .passEnds ∉ inPass trace

/-- What may happen next. Items are numbered as they come. A pass calls the functions of what is in
the queue in this order, each when all before it have returned `FALSE` in this pass, and ends when
all have. A function returns once for each call, and its item is removed, once, if it returns
`TRUE`. -/
def Permitted (before : List (Event Work)) : Event Work → Prop
  | .queued item => item.number = (queuedItems before).length
  | .passBegins => ¬Passing before
  | .called item =>
    Passing before ∧ (item ∈ queuedItems before ∧ .removed item ∉ before) ∧
      (∀ other, .called other ∈ inPass before → other.number < item.number) ∧
      ∀ other ∈ queuedItems before, .removed other ∉ before → other.number < item.number →
        .returned other false ∈ inPass before
  | .returned item _ =>
    .called item ∈ inPass before ∧ ∀ result, .returned item result ∉ inPass before
  | .removed item => before.getLast? = some (.returned item true) ∧ .removed item ∉ before
  | .passEnds =>
    Passing before ∧ ∀ item ∈ queuedItems before, .removed item ∉ before →
      .returned item false ∈ inPass before

/-- Only that happens, and an item whose function has returned `TRUE` is removed at once. -/
structure Served (trace : List (Event Work)) : Prop where
  permitted : ∀ before e after, trace = before ++ e :: after → Permitted before e
  removed : ∀ before item after, trace = before ++ .returned item true :: after →
    after.head? = some (.removed item)

/-- What is in the queue. -/
def pending (trace : List (Event Work)) : List (Item Work) :=
  (queuedItems trace).filter fun item => .removed item ∉ trace

/-- `workQueueLast` is the link that ends the list of all that is in the queue. -/
def EndsQueue (s : State Work) : Prop :=
  ∃ addresses, Holds s.memory addresses (pending s.trace) ∧
    s.workQueueLast = endLink .head addresses

/-! ## Traces -/

variable {t : List (Event Work)} {e : Event Work} {us ws : List (Item Work)} {item : Item Work}

theorem inPass_snoc (t : List (Event Work)) (e : Event Work) :
    inPass (t ++ [e]) = if e = .passBegins then [] else inPass t ++ [e] := by
  unfold inPass
  rw [List.rtakeWhile_concat]
  by_cases h : e = .passBegins
  · rw [if_pos h, if_neg (by simpa using h)]
  · rw [if_neg h, if_pos (by simpa using h)]

theorem mem_inPass_snoc {x : Event Work} (h : x ∈ inPass t) (he : e ≠ .passBegins) :
    x ∈ inPass (t ++ [e]) := by
  rw [inPass_snoc, if_neg he]
  exact List.mem_append_left [e] h

theorem of_mem_inPass_snoc {x : Event Work} (h : x ∈ inPass (t ++ [e])) : x ∈ inPass t ∨ x = e := by
  rw [inPass_snoc] at h
  split at h
  case isTrue => cases h
  case isFalse => exact (List.mem_append.mp h).imp_right List.mem_singleton.mp

/-- Only the beginning and the end of a pass make a difference to whether one is under way. -/
theorem passing_snoc (e : Event Work) (hbegins : e ≠ .passBegins) (hends : e ≠ .passEnds) :
    Passing (t ++ [e]) ↔ Passing t := by
  unfold Passing
  rw [inPass_snoc, if_neg hbegins, List.mem_append, List.mem_append, List.mem_singleton,
    List.mem_singleton,
    or_iff_left hbegins.symm, or_iff_left hends.symm]

theorem passing_begins : Passing (t ++ [.passBegins]) := by
  refine ⟨List.mem_append_right t (List.mem_singleton_self _), ?_⟩
  rw [inPass_snoc, if_pos rfl]
  exact List.not_mem_nil

theorem not_passing_ends : ¬Passing (t ++ [.passEnds]) := by
  rintro ⟨-, hnot⟩
  rw [inPass_snoc, if_neg nofun] at hnot
  exact hnot (List.mem_append_right _ (List.mem_singleton_self _))

omit [DecidableEq Work] in
/-- What has been queued after one more event. -/
theorem queuedItems_snoc (t : List (Event Work)) (e : Event Work) :
    queuedItems (t ++ [e]) = queuedItems t ++ e.queued?.toList := by
  unfold queuedItems
  rw [List.filterMap_append]
  cases e <;> rfl

omit [DecidableEq Work] in
theorem queuedItems_snoc_of_none (t : List (Event Work)) (h : e.queued? = none) :
    queuedItems (t ++ [e]) = queuedItems t := by
  rw [queuedItems_snoc, h, Option.toList_none, List.append_nil]

omit [DecidableEq Work] in
/-- The last event of a trace, or one before it. -/
theorem snoc_cases {before after : List (Event Work)} {x : Event Work}
    (h : t ++ [e] = before ++ x :: after) :
    before = t ∧ x = e ∧ after = [] ∨ ∃ rest, after = rest ++ [e] ∧ t = before ++ x :: rest := by
  rcases List.eq_nil_or_concat' after with rfl | ⟨rest, y, rfl⟩
  · obtain ⟨hinit, hlast⟩ := List.append_inj' h rfl
    exact .inl ⟨hinit.symm, (List.singleton_inj.mp hlast).symm, rfl⟩
  · rw [← List.cons_append, ← List.append_assoc] at h
    obtain ⟨hinit, hlast⟩ := List.append_inj' h rfl
    exact .inr ⟨rest, by rw [List.singleton_inj.mp hlast], hinit⟩

/-- An event that is permitted and removes nothing keeps the trace served. -/
theorem Served.snoc (h : Served t) (hpermitted : Permitted t e)
    (hreturned : ∀ item, e ≠ .returned item true) :
    Served (t ++ [e]) := by
  constructor
  · intro before x after heq
    rcases snoc_cases heq with ⟨rfl, rfl, -⟩ | ⟨rest, -, hrest⟩
    · exact hpermitted
    · exact h.permitted before x rest hrest
  · intro before item after heq
    rcases snoc_cases heq with ⟨-, heq, -⟩ | ⟨rest, rfl, hrest⟩
    · exact absurd heq.symm (hreturned item)
    · have hhead := h.removed before item rest hrest
      rw [List.head?_append, hhead]
      rfl

/-- A function that returns `TRUE`. -/
theorem Served.removing (h : Served t) (hpermitted : Permitted t (.returned item true))
    (hnew : .removed item ∉ t) :
    Served (t ++ [.returned item true] ++ [.removed item]) := by
  constructor
  · intro before x after heq
    rcases snoc_cases heq with ⟨rfl, rfl, -⟩ | ⟨rest, -, hrest⟩
    · refine ⟨List.getLast?_concat, ?_⟩
      simpa using hnew
    · rcases snoc_cases hrest with ⟨rfl, rfl, -⟩ | ⟨rest, -, hrest⟩
      · exact hpermitted
      · exact h.permitted before x rest hrest
  · intro before other after heq
    rcases snoc_cases heq with ⟨-, heq, -⟩ | ⟨rest, rfl, hrest⟩
    · cases heq
    · rcases snoc_cases hrest with ⟨-, hsame, rfl⟩ | ⟨rest', rfl, hrest'⟩
      · rw [(Event.returned.inj hsame).1]
        rfl
      · have hhead := h.removed before other rest' hrest'
        rw [List.append_assoc, List.head?_append, hhead]
        rfl

/-- What holds of every trace. -/
structure TraceOk (t : List (Event Work)) : Prop where
  served : Served t
  numbers : (queuedItems t).map Item.number = List.range (queuedItems t).length
  queued : ∀ item, .removed item ∈ t → item ∈ queuedItems t
  called : ∀ item result, .returned item result ∈ inPass t → .called item ∈ inPass t

/-- An event that leaves the queue's items where they are. -/
theorem TraceOk.snoc (h : TraceOk t) (hpermitted : Permitted t e)
    (hreturned : ∀ item, e ≠ .returned item true)
    (hremoved : ∀ item, e ≠ .removed item) : TraceOk (t ++ [e]) where
  served := h.served.snoc hpermitted hreturned
  numbers := by
    rw [queuedItems_snoc]
    cases e with
    | queued item =>
      have hnumber : item.number = (queuedItems t).length := hpermitted
      rw [Event.queued?, Option.toList_some, List.map_append, h.numbers, List.length_append,
        List.length_singleton,
        List.range_succ, List.map_singleton, hnumber]
    | _ => simpa [Event.queued?] using h.numbers
  queued item hitem := by
    rw [queuedItems_snoc]
    rcases List.mem_append.mp hitem with hold | hnew
    · exact List.mem_append_left _ (h.queued item hold)
    · exact absurd (List.mem_singleton.mp hnew).symm (hremoved item)
  called item result hitem := by
    by_cases hbegins : e = .passBegins
    · rw [inPass_snoc, if_pos hbegins] at hitem
      cases hitem
    · rcases of_mem_inPass_snoc hitem with hold | rfl
      · exact mem_inPass_snoc (h.called item result hold) hbegins
      · exact mem_inPass_snoc hpermitted.1 hbegins

omit [DecidableEq Work] in
theorem sorted_queuedItems
    (h : (queuedItems t).map Item.number = List.range (queuedItems t).length) :
    (queuedItems t).Pairwise fun x y => x.number < y.number := by
  have hpairwise := h ▸ List.pairwise_lt_range
  exact List.pairwise_map.mp hpairwise

theorem TraceOk.sorted (h : TraceOk t) : (pending t).Pairwise fun x y => x.number < y.number :=
  (sorted_queuedItems h.numbers).sublist List.filter_sublist

/-- The pending items are those queued and not removed. -/
theorem mem_pending : item ∈ pending t ↔ item ∈ queuedItems t ∧ .removed item ∉ t := by
  unfold pending
  rw [List.mem_filter, decide_eq_true_iff]

/-- Neither queued nor removed: the queue is as before. -/
theorem pending_snoc (hqueued : e.queued? = none) (hremoved : ∀ item, e ≠ .removed item) :
    pending (t ++ [e]) = pending t := by
  unfold pending
  rw [queuedItems_snoc_of_none t hqueued]
  refine List.filter_congr fun item _ => ?_
  have hmem : .removed item ∈ t ++ [e] ↔ .removed item ∈ t := by
    rw [List.mem_append, List.mem_singleton, or_iff_left fun heq => hremoved item heq.symm]
  rw [decide_eq_decide, hmem]

/-! ## Where a pass is -/

/-- Between two calls: the items before are kept, those after are not called yet. -/
structure AtHead (t : List (Event Work)) (us ws : List (Item Work)) : Prop where
  ok : TraceOk t
  passing : Passing t
  pending : pending t = us ++ ws
  kept : ∀ x ∈ us, .returned x false ∈ inPass t
  later : ∀ x, .called x ∈ inPass t → ∀ y ∈ ws, x.number < y.number

/-- In a call. -/
structure InCall (t : List (Event Work)) (us : List (Item Work)) (item : Item Work)
    (ws : List (Item Work)) : Prop where
  ok : TraceOk t
  passing : Passing t
  pending : pending t = us ++ item :: ws
  kept : ∀ x ∈ us, .returned x false ∈ inPass t
  called : .called item ∈ inPass t
  unreturned : ∀ result, .returned item result ∉ inPass t
  latest : ∀ x, .called x ∈ inPass t → x.number ≤ item.number

/-- The new item is the last. -/
theorem TraceOk.queue (h : TraceOk t) (work : Work) :
    TraceOk (t ++ [.queued ⟨(queuedItems t).length, work⟩]) ∧
      pending (t ++ [.queued ⟨(queuedItems t).length, work⟩]) =
        pending t ++ [⟨(queuedItems t).length, work⟩] := by
  refine ⟨h.snoc rfl nofun nofun, ?_⟩
  generalize hitem : (⟨(queuedItems t).length, work⟩ : Item Work) = item
  have hnew : .removed item ∉ t := by
    intro hmem
    have hnumber : item.number ∈ (queuedItems t).map Item.number :=
      List.mem_map_of_mem (h.queued item hmem)
    rw [h.numbers, List.mem_range, ← hitem] at hnumber
    exact absurd hnumber (Nat.lt_irrefl _)
  have hmem : ∀ x, Event.removed x ∈ t ++ [.queued item] ↔ .removed x ∈ t := fun x => by
    rw [List.mem_append, List.mem_singleton, or_iff_left nofun]
  unfold WorkQueue.pending
  rw [queuedItems_snoc, Event.queued?, Option.toList_some, List.filter_append]
  congr 1
  · exact List.filter_congr fun x _ => by rw [decide_eq_decide, hmem]
  · exact List.filter_eq_self.mpr fun x hx =>
      decide_eq_true (List.mem_singleton.mp hx ▸ (hmem item).not.mpr hnew)

/-- An item that is queued within a call comes to the end. -/
theorem InCall.queue (h : InCall t us item ws) (work : Work) :
    InCall (t ++ [.queued ⟨(queuedItems t).length, work⟩]) us item
      (ws ++ [⟨(queuedItems t).length, work⟩]) where
  ok := (h.ok.queue work).1
  passing := (passing_snoc (.queued _) nofun nofun).mpr h.passing
  pending := by rw [(h.ok.queue work).2, h.pending, List.append_assoc, List.cons_append]
  kept x hx := mem_inPass_snoc (h.kept x hx) nofun
  called := mem_inPass_snoc h.called nofun
  unreturned result hmem := (of_mem_inPass_snoc hmem).elim (h.unreturned result) nofun
  latest x hx := (of_mem_inPass_snoc hx).elim (h.latest x) nofun

/-- A pass begins before the first item. -/
theorem TraceOk.begin (h : TraceOk t) (hidle : ¬Passing t) :
    AtHead (t ++ [.passBegins]) [] (pending t) where
  ok := h.snoc hidle nofun nofun
  passing := passing_begins
  pending := pending_snoc rfl (fun _ h => by cases h)
  kept _ hx := absurd hx List.not_mem_nil
  later x hx := by
    rw [inPass_snoc, if_pos rfl] at hx
    cases hx

/-- Calling the first item that is left. -/
theorem AtHead.call (h : AtHead t us (item :: ws)) : InCall (t ++ [.called item]) us item ws := by
  have hmem : item ∈ queuedItems t ∧ .removed item ∉ t :=
    mem_pending.mp (h.pending ▸ List.mem_append_right us List.mem_cons_self)
  have hsorted := h.ok.sorted
  rw [h.pending, List.pairwise_append, List.pairwise_cons] at hsorted
  have hpermitted : Permitted t (.called item) := by
    refine ⟨h.passing, hmem, fun other hother => h.later other hother item List.mem_cons_self,
      fun other hother hnot hlt => ?_⟩
    -- what is in the queue before it has been called
    have hpending := mem_pending.mpr ⟨hother, hnot⟩
    rw [h.pending, List.mem_append, List.mem_cons] at hpending
    rcases hpending with hkept | rfl | hafter
    · exact h.kept other hkept
    · exact absurd hlt (Nat.lt_irrefl _)
    · exact absurd (hsorted.2.1.1 other hafter) (Nat.lt_asymm hlt)
  refine ⟨h.ok.snoc hpermitted nofun nofun, (passing_snoc (.called item) nofun nofun).mpr h.passing,
    ?_, fun x hx => mem_inPass_snoc (h.kept x hx) nofun, ?_, fun result hresult => ?_,
    fun x hx => ?_⟩
  · rw [pending_snoc rfl (fun _ h => by cases h), h.pending]
  · rw [inPass_snoc, if_neg nofun]
    exact List.mem_append_right _ (List.mem_singleton_self _)
  · rcases of_mem_inPass_snoc hresult with hold | hnew
    · exact absurd (h.later item (h.ok.called item result hold) item List.mem_cons_self)
        (Nat.lt_irrefl _)
    · cases hnew
  · rcases of_mem_inPass_snoc hx with hold | hnew
    · exact Nat.le_of_lt (h.later x hold item List.mem_cons_self)
    · rw [Event.called.inj hnew]

/-- All that are in the queue have been called. -/
theorem AtHead.end (h : AtHead t us []) :
    TraceOk (t ++ [.passEnds]) ∧ WorkQueue.pending (t ++ [.passEnds]) = us := by
  have hpending : WorkQueue.pending t = us := h.pending.trans (List.append_nil us)
  refine ⟨h.ok.snoc ⟨h.passing, fun item hitem hnot => h.kept item ?_⟩ nofun nofun,
    (pending_snoc rfl (fun _ h => by cases h)).trans hpending⟩
  exact hpending ▸ mem_pending.mpr ⟨hitem, hnot⟩

theorem InCall.permitted (h : InCall t us item ws) (result : Bool) :
    Permitted t (.returned item result) :=
  ⟨h.called, h.unreturned⟩

/-- What has been called comes before what follows the item. -/
theorem InCall.later (h : InCall t us item ws) {x y : Item Work} (hx : .called x ∈ inPass t)
    (hy : y ∈ ws) :
    x.number < y.number := by
  have hsorted := h.ok.sorted
  rw [h.pending, List.pairwise_append] at hsorted
  exact Nat.lt_of_le_of_lt (h.latest x hx) ((List.pairwise_cons.mp hsorted.2.1).1 y hy)

/-- `FALSE`: the item is kept. -/
theorem InCall.keep (h : InCall t us item ws) :
    AtHead (t ++ [.returned item false]) (us ++ [item]) ws where
  ok := h.ok.snoc (h.permitted false) nofun nofun
  passing := (passing_snoc (.returned item false) nofun nofun).mpr h.passing
  pending := by
    rw [pending_snoc rfl (fun _ h => by cases h), h.pending, List.append_assoc,
      List.singleton_append]
  kept x hx := by
    rcases List.mem_append.mp hx with hold | hnew
    · exact mem_inPass_snoc (h.kept x hold) nofun
    · rw [inPass_snoc, if_neg nofun, List.mem_singleton.mp hnew]
      exact List.mem_append_right _ (List.mem_singleton_self _)
  later x hx y hy := (of_mem_inPass_snoc hx).elim (fun hold => h.later hold hy) nofun

theorem pending_removing (t : List (Event Work)) (item : Item Work) :
    pending (t ++ [.returned item true] ++ [.removed item]) = (pending t).filter (· ≠ item) := by
  unfold pending
  rw [queuedItems_snoc_of_none _ rfl, queuedItems_snoc_of_none _ rfl, List.filter_filter]
  refine List.filter_congr fun x _ => ?_
  have hmem :
      .removed x ∈ t ++ [.returned item true] ++ [.removed item] ↔ .removed x ∈ t ∨ x = item := by
    simp
  rw [← Bool.decide_and, decide_eq_decide, hmem, not_or, and_comm]

/-- `TRUE`: it is removed. -/
theorem InCall.remove (h : InCall t us item ws) :
    AtHead (t ++ [.returned item true] ++ [.removed item]) us ws := by
  have hitem : item ∈ queuedItems t ∧ .removed item ∉ t :=
    mem_pending.mp (h.pending ▸ List.mem_append_right us List.mem_cons_self)
  have hqueued : queuedItems (t ++ [.returned item true] ++ [.removed item]) = queuedItems t := by
    rw [queuedItems_snoc_of_none _ rfl, queuedItems_snoc_of_none _ rfl]
  have hold : ∀ {x}, x ∈ inPass (t ++ [.returned item true] ++ [.removed item]) →
      x ∈ inPass t ∨ x = .returned item true ∨ x = .removed item := fun hx =>
    (of_mem_inPass_snoc hx).elim (fun hx => (of_mem_inPass_snoc hx).imp_right .inl) fun heq =>
      .inr (.inr heq)
  have hnew : ∀ {x}, x ∈ inPass t →
      x ∈ inPass (t ++ [.returned item true] ++ [.removed item]) := fun hx =>
    mem_inPass_snoc (mem_inPass_snoc hx nofun) nofun
  have hsorted := h.ok.sorted
  rw [h.pending, List.pairwise_append, List.pairwise_cons] at hsorted
  obtain ⟨-, ⟨hafter, -⟩, hbefore⟩ := hsorted
  have hpassing :=
    (passing_snoc (.removed item) nofun nofun).mpr
      ((passing_snoc (.returned item true) nofun nofun).mpr h.passing)
  refine ⟨⟨h.ok.served.removing (h.permitted true) hitem.2, ?_, fun x hx => ?_,
    fun x result hx => ?_⟩, hpassing, ?_,
    fun x hx => hnew (h.kept x hx), fun x hx y hy => ?_⟩
  · rw [hqueued]
    exact h.ok.numbers
  · rw [hqueued]
    simp only [List.mem_append, List.mem_singleton, Event.removed.injEq, reduceCtorEq, or_false]
      at hx
    rcases hx with hx | rfl
    · exact h.ok.queued x hx
    · exact hitem.1
  · rcases hold hx with hx | hx | hx
    · exact hnew (h.ok.called x result hx)
    · rw [(Event.returned.inj hx).1]
      exact hnew h.called
    · cases hx
  · have hus : us.filter (· ≠ item) = us :=
        List.filter_eq_self.mpr fun x hx => decide_eq_true fun heq =>
      absurd (hbefore x hx item List.mem_cons_self) (heq ▸ Nat.lt_irrefl _)
    have hws : ws.filter (· ≠ item) = ws :=
        List.filter_eq_self.mpr fun x hx => decide_eq_true fun heq =>
      absurd (hafter x hx) (heq ▸ Nat.lt_irrefl _)
    rw [pending_removing, h.pending, List.filter_append, hus,
      List.filter_cons_of_neg (by simp), hws]
  · rcases hold hx with hx | hx | hx
    · exact h.later hx hy
    · cases hx
    · cases hx

/-! ## Runs -/

/-- The pass that is under way is at a node of the list. -/
def AtNode (s : State Work) (addresses : List Address) : Prop :=
  ∀ p q, s.calling = some (p, q) → ∃ as bs us item ws, addresses = as ++ q :: bs ∧
    as.length = us.length ∧
    p = endLink .head as ∧ InCall s.trace us item ws

/-- What holds in every state that a run comes to. -/
structure Inv (s : State Work) : Prop where
  faulted : s.faulted = false
  ok : TraceOk s.trace
  idle : s.calling = none → ¬Passing s.trace
  list : ∃ addresses, Holds s.memory addresses (pending s.trace) ∧
    s.workQueueLast = endLink .head addresses ∧ AtNode s addresses

/-- The queue is empty at the start. -/
theorem inv_initial : Inv (initial : State Work) where
  faulted := rfl
  ok := ⟨⟨fun before e after heq => by simp [initial] at heq,
    fun before item after heq => by simp [initial] at heq⟩, rfl,
    fun _ hmem => absurd hmem List.not_mem_nil, fun _ _ hmem => absurd hmem List.not_mem_nil⟩
  idle _ h := absurd h.1 List.not_mem_nil
  list := ⟨[], ⟨trivial, List.nodup_nil, rfl, rfl⟩, rfl, nofun⟩

variable {s s' : State Work} {as bs : List Address}

omit [DecidableEq Work] in
/-- At the end of the list the pass ends. -/
theorem whileNext_end {p : Link} (h : s.memory.read p = some none) :
    s.whileNext p =
      some { s with trace := s.trace ++ [.passEnds], calling := none, workQueueLast := p } := by
  unfold State.whileNext
  rw [h]
  rfl

omit [DecidableEq Work] in
/-- Otherwise the next item is called. -/
theorem whileNext_call {p : Link} {q : Address} (h : s.memory.read p = some (some q))
    (hitem : s.memory.value q = some item) :
    s.whileNext p = some { s with trace := s.trace ++ [.called item], calling := some (p, q) } := by
  unfold State.whileNext
  rw [h]
  show (s.memory.value q).map _ = _
  rw [hitem]
  rfl

/-- Up to the next call, or the end of the pass. -/
theorem whileNext_spec (hlist : Holds s.memory (as ++ bs) (us ++ ws))
    (hlength : as.length = us.length)
    (hlast : bs ≠ [] → s.workQueueLast = endLink .head (as ++ bs)) (hhead : AtHead s.trace us ws)
    (hfaulted : s.faulted = false) : ∃ s', s.whileNext (endLink .head as) = some s' ∧ Inv s' := by
  have hlengths := hlist.length_eq
  rw [List.length_append, List.length_append, hlength, Nat.add_left_cancel_iff] at hlengths
  cases bs with
  | nil =>
    obtain rfl := List.length_eq_zero_iff.mp hlengths.symm
    rw [List.append_nil, List.append_nil] at hlist
    obtain ⟨hok, hpending⟩ := hhead.end
    exact ⟨_, whileNext_end hlist.ends, hfaulted, hok, fun _ => not_passing_ends, as,
      hpending.symm ▸ hlist, rfl, nofun⟩
  | cons b bs =>
    cases ws with
    | nil => cases hlengths
    | cons item ws =>
      have hcall := hhead.call
      refine ⟨_, whileNext_call hlist.read_node.1 (hlist.value_node hlength), hfaulted, hcall.ok,
        nofun, as ++ b :: bs, ?_,
        hlast (List.cons_ne_nil b bs), ?_⟩
      · exact hcall.pending.symm ▸ hlist
      · rintro p q heq
        cases heq
        exact ⟨as, bs, us, item, ws, rfl, hlength, rfl, hcall⟩

/-- What is queued comes to the end, also while a function runs. -/
theorem queueWorkProc_inv {malloc : Option Address} {work : Work} (h : Inv s)
    (hstep : step s (.queueWorkProc malloc work) = some s') : Inv s' := by
  obtain ⟨addresses, hlist, hlast, hat⟩ := h.list
  cases malloc with
  | none =>
    cases hstep
    exact h
  | some q =>
    rw [step] at hstep
    split at hstep
    case isFalse => cases hstep
    case isTrue hfree =>
      obtain ⟨hok, hpending⟩ := h.ok.queue work
      obtain ⟨memory, hwrite, hlist'⟩ :=
        hlist.append (Option.isNone_iff_eq_none.mp hfree) ⟨(queuedItems s.trace).length, work⟩
      rw [State.queueWorkProc, hlast, hwrite] at hstep
      cases hstep
      have hpassing :=
        passing_snoc (t := s.trace) (.queued ⟨(queuedItems s.trace).length, work⟩)
        (fun h => by cases h)
        fun h => by cases h
      have hidle := fun hcalling => hpassing.not.mpr (h.idle hcalling)
      refine ⟨h.faulted, hok, hidle, addresses ++ [q], hpending.symm ▸ hlist', ?_,
        fun p q' hcalling => ?_⟩
      · exact (endLink_append .head addresses [q]).symm
      · obtain ⟨as, bs, us, item, ws, rfl, hlength, hp, hcall⟩ := hat p q' hcalling
        exact ⟨as, bs ++ [q], us, item, ws ++ [_], by simp, hlength, hp, hcall.queue work⟩

/-- An item that is done is taken out, and the pass goes on behind it; another one stays. -/
theorem functionReturns_inv {result : Bool} (h : Inv s)
    (hstep : step s (.functionReturns result) = some s') : Inv s' := by
  obtain ⟨addresses, hlist, hlast, hat⟩ := h.list
  cases hcalling : s.calling with
  | none =>
    rw [step, hcalling] at hstep
    cases hstep
  | some pq =>
    obtain ⟨p, q⟩ := pq
    obtain ⟨as, bs, us, item, ws, rfl, hlength, rfl, hcall⟩ := hat p q hcalling
    rw [hcall.pending] at hlist
    obtain ⟨n, hn, hnext⟩ := hlist.read_node.2
    obtain rfl : n.value = item := by
      have hvalue := hlist.value_node hlength
      rw [Memory.value, hn] at hvalue
      exact Option.some.inj hvalue
    rw [step, hcalling] at hstep
    obtain rfl := Option.some.inj hstep
    rw [State.functionReturns, hn, Option.bind_some, hnext]
    cases result with
    | true =>
      obtain ⟨memory, hwrite, hlist'⟩ := hlist.remove hlength
      have hlast' : bs ≠ [] → s.workQueueLast = endLink .head (as ++ bs) := fun hne => by
        rw [hlast, endLink_append, endLink_append, endLink, endLink_of_ne_nil hne]
      obtain ⟨next, hwhile, hinv⟩ := @whileNext_spec _ _ us ws
        ({ s.record (.returned n.value true) with memory := memory.free q }.record
          (.removed n.value)) as bs hlist' hlength
        hlast' hcall.remove h.faulted
      rw [if_pos rfl]
      show Inv (orFault s ((s.memory.write bs.head? (endLink .head as)).bind _))
      rw [hwrite, Option.bind_some, hwhile]
      exact hinv
    | false =>
      have hend : endLink .head (as ++ [q]) = .next q := endLink_append .head as [q]
      have hlist' : Holds s.memory (as ++ [q] ++ bs) (us ++ [n.value] ++ ws) := by
        rw [List.append_assoc, List.append_assoc]
        exact hlist
      obtain ⟨next, hwhile, hinv⟩ :=
        @whileNext_spec _ _ _ _ (s.record (.returned n.value false)) _ bs hlist'
        (by rw [List.length_append, List.length_append, hlength]; rfl)
        (fun _ => by rw [List.append_assoc]; exact hlast) hcall.keep h.faulted
      rw [if_neg Bool.false_ne_true, ← hend, hwhile]
      exact hinv

/-- One step: what was in the queue stays in it, and the pass goes on from where it was. -/
theorem step_inv {a : Action Work} (h : Inv s) (hstep : step s a = some s') : Inv s' := by
  cases a with
  | queueWorkProc malloc work => exact queueWorkProc_inv h hstep
  | processWorkQueue =>
    obtain ⟨addresses, hlist, hlast, -⟩ := h.list
    cases hcalling : s.calling with
    | some _ =>
      rw [step, hcalling] at hstep
      cases hstep
    | none =>
      have hbegin := h.ok.begin (h.idle hcalling)
      obtain ⟨next, hnext, hinv⟩ :=
        @whileNext_spec _ _ [] _ (s.record .passBegins) [] addresses hlist rfl
          (fun _ => hlast) hbegin h.faulted
      rw [step, hcalling] at hstep
      obtain rfl := Option.some.inj hstep
      rw [State.processWorkQueue, orFault]
      exact hnext ▸ hinv
  | functionReturns result => exact functionReturns_inv h hstep

/-- **The work queue loses nothing.** Whatever is queued and whatever the functions return, in
whatever order: no memory is used that has been freed, `workQueueLast` is the link that ends the
list of all that has been queued and not removed, and functions are called, and items removed, as
they are to be. -/
theorem workQueue_loses_nothing (as : List (Action Work)) (s : State Work)
    (h : run step initial as = some s) :
    s.faulted = false ∧ EndsQueue s ∧ Served s.trace := by
  have hinv := run_invariant step_inv inv_initial h
  obtain ⟨addresses, hlist, hlast, -⟩ := hinv.list
  exact ⟨hinv.faulted, ⟨addresses, hlist, hlast⟩, hinv.ok.served⟩

/-- Work that is queued while the functions run, once at an address that has been freed, and work
that stays for a second pass. -/
def requeued : List (Action Char) :=
  [.queueWorkProc (some 1) 'a', .queueWorkProc (some 2) 'b', .processWorkQueue,
    .queueWorkProc (some 3) 'c',
    .functionReturns false, .functionReturns true, .queueWorkProc (some 2) 'd',
      .functionReturns true, .functionReturns false,
    .processWorkQueue, .functionReturns true, .queueWorkProc none 'e', .functionReturns true]

theorem workQueue_loses_nothing_requeued :
    ∃ s, run step initial requeued = some s ∧ s.faulted = false ∧ EndsQueue s ∧ Served s.trace := by
  have hruns : (run step initial requeued).isSome = true := by decide +kernel
  obtain ⟨s, hs⟩ := Option.isSome_iff_exists.mp hruns
  exact ⟨s, hs, workQueue_loses_nothing requeued s hs⟩

example :
    ((run step initial requeued).map fun s => s.trace.filterMap fun
      | .called item => some item.work
      | _ => none) = some ['a', 'b', 'c', 'd', 'a', 'd'] := by
  decide +kernel

end WinEmulator.Lorie.WorkQueue
