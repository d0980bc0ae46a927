import WinEmulator.Lorie.InitOutput

/-!
# The buffer on the screen is known to the activity

`Faithful` says that `registeredBuffers` is exactly what the events on the current connection
announced. Registering, unregistering and hanging up keep it in every state. A new connection does
not: the list outlives the old one, and only the screen pixmap is announced on the new one. So the
laws below are about the runs in which a connection is made with nothing registered and the screen
pixmap on the screen, and in which the pixmap on the screen lives through a redraw that shows it:
what is stored is its id, although a vblank may have put another one in its place (`Fresh`).
-/

set_option autoImplicit false

namespace WinEmulator.Lorie

/-- An `EVENT_ADD_BUFFER` for `id`, not followed by its `EVENT_REMOVE_BUFFER`, was sent on `fd`. -/
def Announced (fd : Connection) (id : BufferId) (sent : List (Connection × BufferEvent)) : Prop :=
  ∃ before after, sent = before ++ (fd, .add id) :: after ∧ (fd, .remove id) ∉ after

/-- `registeredBuffers` is the set of buffers announced on the current connection. -/
structure Registry.Faithful (r : Registry) : Prop where
  nodup : r.registeredBuffers.Nodup
  mem_iff : ∀ id, id ∈ r.registeredBuffers ↔ ∃ fd, r.conn_fd = some fd ∧ Announced fd id r.sent

/-- One more event announces what it adds and what was announced and is not removed by it. -/
theorem announced_append_add {fd : Connection} {id new : BufferId}
    {sent : List (Connection × BufferEvent)} :
    Announced fd id (sent ++ [(fd, .add new)]) ↔ Announced fd id sent ∨ id = new := by
  constructor
  · rintro ⟨before, after, heq, hrem⟩
    rcases List.eq_nil_or_concat' after with rfl | ⟨init, last, rfl⟩
    · obtain ⟨-, hlast⟩ := List.append_inj' heq rfl
      cases hlast
      exact .inr rfl
    · have hsplit : sent ++ [(fd, .add new)] = (before ++ (fd, .add id) :: init) ++ [last] := by
        rw [heq]
        simp
      obtain ⟨rfl, -⟩ := List.append_inj' hsplit rfl
      exact .inl ⟨before, init, rfl, fun hmem => hrem (List.mem_append_left _ hmem)⟩
  · rintro (⟨before, after, rfl, hrem⟩ | rfl)
    · refine ⟨before, after ++ [(fd, .add new)], by simp, ?_⟩
      simpa using hrem
    · exact ⟨sent, [], rfl, List.not_mem_nil⟩

/-- A removal takes back the announcement of its own buffer alone. -/
theorem announced_append_remove {fd : Connection} {id old : BufferId}
    {sent : List (Connection × BufferEvent)} :
    Announced fd id (sent ++ [(fd, .remove old)]) ↔ Announced fd id sent ∧ id ≠ old := by
  constructor
  · rintro ⟨before, after, heq, hrem⟩
    rcases List.eq_nil_or_concat' after with rfl | ⟨init, last, rfl⟩
    · obtain ⟨-, hlast⟩ := List.append_inj' heq rfl
      cases hlast
    · have hsplit : sent ++ [(fd, .remove old)] = (before ++ (fd, .add id) :: init) ++ [last] := by
        rw [heq]
        simp
      obtain ⟨rfl, hlast⟩ := List.append_inj' hsplit rfl
      cases hlast
      refine ⟨⟨before, init, rfl, fun hmem => hrem (List.mem_append_left _ hmem)⟩, ?_⟩
      rintro rfl
      exact hrem (by simp)
  · rintro ⟨⟨before, after, rfl, hrem⟩, hne⟩
    refine ⟨before, after ++ [(fd, .remove old)], by simp, ?_⟩
    simpa [hne] using hrem

namespace Registry

/-- Registering a buffer keeps the list faithful. -/
theorem faithful_register {r : Registry} (h : r.Faithful) (id : BufferId) :
    (r.lorieRegisterBuffer id).Faithful := by
  unfold lorieRegisterBuffer
  cases hfd : r.conn_fd with
  | none => exact h
  | some fd =>
    by_cases hmem : id ∈ r.registeredBuffers
    · simp only [hmem, if_true]
      exact h
    · simp only [hmem, if_false]
      refine ⟨List.nodup_cons.mpr ⟨hmem, h.nodup⟩, fun id' => ?_⟩
      have hold := h.mem_iff id'
      simp only [hfd, Option.some.injEq, exists_eq_left'] at hold ⊢
      rw [announced_append_add, List.mem_cons, hold, or_comm]

/-- Unregistering a buffer keeps the list faithful. -/
theorem faithful_unregister {r : Registry} (h : r.Faithful) (id : BufferId) :
    (r.lorieUnregisterBuffer id).Faithful := by
  unfold lorieUnregisterBuffer
  by_cases hmem : id ∈ r.registeredBuffers
  · rw [if_neg (not_not.mpr hmem)]
    cases hfd : r.conn_fd with
    | none => exact h
    | some fd =>
      refine ⟨h.nodup.erase id, fun id' => ?_⟩
      have hold := h.mem_iff id'
      simp only [hfd, Option.some.injEq, exists_eq_left'] at hold ⊢
      rw [announced_append_remove, h.nodup.mem_erase_iff, hold, and_comm]
  · rw [if_pos hmem]
    exact h

/-- Nothing is owed to a connection that is gone. -/
theorem faithful_hangUp (r : Registry) : r.hangUp.Faithful := by
  refine ⟨List.nodup_nil, fun id => ⟨fun hmem => (by cases hmem), ?_⟩⟩
  rintro ⟨fd, hfd, -⟩
  cases hfd

/-- A new connection is faithful when nothing was registered before it. -/
theorem faithful_setConnFd {r : Registry} {fd : Connection}
    (none_registered : r.registeredBuffers = [])
    (unused : ∀ p ∈ r.sent, p.1 < fd) : (r.setConnFd fd).Faithful := by
  have hlist : (r.setConnFd fd).registeredBuffers = [] := none_registered
  refine ⟨by rw [hlist]; exact List.nodup_nil, fun id => ?_⟩
  rw [hlist]
  refine ⟨fun hmem => (by cases hmem), ?_⟩
  rintro ⟨fd', hfd, before, after, hsent, -⟩
  cases hfd
  have := unused (fd, .add id) (by
    rw [show r.sent = before ++ (fd, .add id) :: after from hsent]
    simp)
  exact absurd this (Nat.lt_irrefl _)

/-! ### What the operations leave alone -/

@[simp] theorem conn_fd_register (r : Registry) (id : BufferId) :
    (r.lorieRegisterBuffer id).conn_fd = r.conn_fd := by
  unfold lorieRegisterBuffer
  split
  · rfl
  · split <;> rfl

@[simp] theorem conn_fd_unregister (r : Registry) (id : BufferId) :
    (r.lorieUnregisterBuffer id).conn_fd = r.conn_fd := by
  unfold lorieUnregisterBuffer
  split
  · rfl
  · split <;> rfl

/-- With a connection, registering a buffer gets it into the list, and the others stay. -/
theorem mem_register {r : Registry} {id : BufferId} (h : r.conn_fd ≠ none) :
    id ∈ (r.lorieRegisterBuffer id).registeredBuffers := by
  unfold lorieRegisterBuffer
  cases hfd : r.conn_fd with
  | none => exact absurd hfd h
  | some fd =>
    by_cases hmem : id ∈ r.registeredBuffers
    · simp only [hmem, if_true]
    · simp only [hmem, if_false, List.mem_cons, true_or]

theorem mem_register_of_mem {r : Registry} {id other : BufferId} (h : other ∈ r.registeredBuffers) :
    other ∈ (r.lorieRegisterBuffer id).registeredBuffers := by
  unfold lorieRegisterBuffer
  split
  · exact h
  · split
    · exact h
    · exact List.mem_cons_of_mem _ h

theorem mem_unregister_of_ne {r : Registry} {id other : BufferId} (hne : other ≠ id)
    (h : other ∈ r.registeredBuffers) : other ∈ (r.lorieUnregisterBuffer id).registeredBuffers := by
  unfold lorieUnregisterBuffer
  split
  · exact h
  · split
    · exact h
    · exact (List.mem_erase_of_ne hne).mpr h

/-- Every event is written on the current connection. -/
theorem sent_register {r : Registry} {id : BufferId} {p : Connection × BufferEvent}
    (h : p ∈ (r.lorieRegisterBuffer id).sent) : p ∈ r.sent ∨ r.conn_fd = some p.1 := by
  unfold lorieRegisterBuffer at h
  cases hfd : r.conn_fd with
  | none =>
    simp only [hfd] at h
    exact .inl h
  | some fd =>
    by_cases hmem : id ∈ r.registeredBuffers
    · simp only [hfd, hmem, if_true] at h
      exact .inl h
    · simp only [hfd, hmem, if_false, List.mem_append, List.mem_singleton] at h
      rcases h with h | rfl
      · exact .inl h
      · exact .inr rfl

/-- What is sent goes to the connection of the moment. -/
theorem sent_unregister {r : Registry} {id : BufferId} {p : Connection × BufferEvent}
    (h : p ∈ (r.lorieUnregisterBuffer id).sent) : p ∈ r.sent ∨ r.conn_fd = some p.1 := by
  unfold lorieUnregisterBuffer at h
  split at h
  · exact .inl h
  · cases hfd : r.conn_fd with
    | none =>
      simp only [hfd] at h
      exact .inl h
    | some fd =>
      simp only [hfd, List.mem_append, List.mem_singleton] at h
      rcases h with h | rfl
      · exact .inl h
      · exact .inr rfl

end Registry

namespace Display

open WinEmulator.Lib

/-- A connection is made with nothing registered and the screen pixmap on the screen; and the
vblanks of a redraw that shows something do not end in the destruction of what was on the screen
before them. -/
def Fresh (s : State) : Action → Prop
  | .connect => s.registry.registeredBuffers = [] ∧ s.root = s.screen
  | .redraw vblanks f =>
    s.registry.conn_fd ≠ none ∧ f.pollOk ∧ f.surfaceAvailable ∧ f.drawRequested →
      Call.destroyPixmap s.root ∉ vblanks
  | .disconnect | .resize _ | .createPixmap | .call _ => True

/-- The invariant of a run: the list of buffers is faithful, with a connection both the buffer on
the screen and the screen pixmap's are in it, and ids and connections are new when they are given
out. -/
structure Inv (s : State) : Prop where
  faithful : s.registry.Faithful
  root_registered : s.registry.conn_fd ≠ none → s.root ∈ s.registry.registeredBuffers
  screen_registered : s.registry.conn_fd ≠ none → s.screen ∈ s.registry.registeredBuffers
  sent_lt : ∀ p ∈ s.registry.sent, p.1 < s.opened
  conn_lt : ∀ fd, s.registry.conn_fd = some fd → fd < s.opened
  screen_lt : s.screen < s.nextId
  pixmaps_lt : ∀ id ∈ s.pixmaps, id < s.nextId
  screen_not_pixmap : s.screen ∉ s.pixmaps
  root_cases : s.root = s.screen ∨ s.root ∈ s.pixmaps

theorem inv_start (width : Nat) : Inv (start width) where
  faithful := ⟨List.nodup_nil,
    fun id => ⟨fun hmem => (by cases hmem), fun ⟨_, hfd, _⟩ => (by cases hfd)⟩⟩
  root_registered h := absurd rfl h
  screen_registered h := absurd rfl h
  sent_lt _ hmem := by cases hmem
  conn_lt _ hfd := by cases hfd
  screen_lt := Nat.zero_lt_one
  pixmaps_lt _ hmem := by cases hmem
  screen_not_pixmap hmem := by cases hmem
  root_cases := .inl rfl

/-- An event written on the current connection or before is on an opened one. -/
theorem lt_of_written {s : State} (inv : Inv s) {p : Connection × BufferEvent}
    (h : p ∈ s.registry.sent ∨ s.registry.conn_fd = some p.1) : p.1 < s.opened := by
  rcases h with hold | hcur
  · exact inv.sent_lt p hold
  · exact inv.conn_lt p.1 hcur

/-- A connect that finds nothing registered and the screen pixmap shown keeps the invariant. -/
theorem inv_connect {s : State} (inv : Inv s) (nothing : s.registry.registeredBuffers = [])
    (onScreen : s.root = s.screen) :
    Inv { s with
      opened := s.opened + 1
      registry := (s.registry.setConnFd s.opened).lorieRegisterBuffer s.screen } := by
  have hconn : (s.registry.setConnFd s.opened).conn_fd ≠ none := by
    intro h
    cases h
  refine ⟨Registry.faithful_register (Registry.faithful_setConnFd nothing inv.sent_lt) _,
    ?_, ?_, ?_,
    ?_, inv.screen_lt, inv.pixmaps_lt, inv.screen_not_pixmap, inv.root_cases⟩
  · intro _
    show s.root ∈ _
    rw [onScreen]
    exact Registry.mem_register hconn
  · intro _
    exact Registry.mem_register hconn
  · intro p hp
    rcases Registry.sent_register hp with hold | hcur
    · exact Nat.lt_succ_of_lt (inv.sent_lt p hold)
    · exact Nat.lt_succ_of_le (Nat.le_of_eq (Option.some.inj hcur).symm)
  · intro fd hfd
    rw [Registry.conn_fd_register] at hfd
    cases hfd
    exact Nat.lt_succ_self _

/-- A disconnect keeps the invariant. -/
theorem inv_disconnect {s : State} (inv : Inv s) : Inv { s with registry := s.registry.hangUp } :=
  ⟨Registry.faithful_hangUp _, fun h => absurd rfl h, fun h => absurd rfl h, inv.sent_lt,
    fun _ hfd => (by cases hfd), inv.screen_lt, inv.pixmaps_lt, inv.screen_not_pixmap,
      inv.root_cases⟩

/-- A resize keeps the invariant. -/
theorem inv_resize {s : State} (inv : Inv s) (width : Nat) :
    Inv { s with
      width := width
      nextId := s.nextId + 1
      screen := s.nextId
      root := s.nextId
      registry := (s.registry.lorieUnregisterBuffer s.screen).lorieRegisterBuffer s.nextId } := by
  refine ⟨Registry.faithful_register (Registry.faithful_unregister inv.faithful _) _, ?_,
    ?_, ?_, ?_,
    Nat.lt_succ_self _, fun id hid => Nat.lt_succ_of_lt (inv.pixmaps_lt id hid), ?_, .inl rfl⟩
  · intro h
    rw [Registry.conn_fd_register] at h
    exact Registry.mem_register h
  · intro h
    rw [Registry.conn_fd_register] at h
    exact Registry.mem_register h
  · intro p hp
    rcases Registry.sent_register hp with hold | hcur
    · exact lt_of_written inv (Registry.sent_unregister hold)
    · rw [Registry.conn_fd_unregister] at hcur
      exact lt_of_written inv (.inr hcur)
  · intro fd hfd
    rw [Registry.conn_fd_register, Registry.conn_fd_unregister] at hfd
    exact inv.conn_lt fd hfd
  · intro hmem
    exact absurd (inv.pixmaps_lt _ hmem) (Nat.lt_irrefl _)

/-- A new pixmap keeps the invariant. -/
theorem inv_createPixmap {s : State} (inv : Inv s) :
    Inv { s with nextId := s.nextId + 1, pixmaps := s.nextId :: s.pixmaps } := by
  refine ⟨inv.faithful, inv.root_registered, inv.screen_registered, inv.sent_lt, inv.conn_lt,
    Nat.lt_succ_of_lt inv.screen_lt, ?_, ?_, inv.root_cases.imp_right (List.mem_cons_of_mem _)⟩
  · intro id hid
    rcases List.mem_cons.mp hid with rfl | hold
    · exact Nat.lt_succ_self _
    · exact Nat.lt_succ_of_lt (inv.pixmaps_lt id hold)
  · intro hmem
    rcases List.mem_cons.mp hmem with heq | hold
    · exact absurd heq (Nat.ne_of_lt inv.screen_lt)
    · exact inv.screen_not_pixmap hold

/-- A flip keeps the invariant. -/
theorem inv_flip {s : State} (inv : Inv s) {id : BufferId} (hid : id ∈ s.pixmaps) :
    Inv { s with root := id, registry := s.registry.lorieRegisterBuffer id } := by
  refine ⟨Registry.faithful_register inv.faithful _, ?_, ?_, ?_, ?_, inv.screen_lt, inv.pixmaps_lt,
    inv.screen_not_pixmap, .inr hid⟩
  · intro h
    rw [Registry.conn_fd_register] at h
    exact Registry.mem_register h
  · intro h
    rw [Registry.conn_fd_register] at h
    exact Registry.mem_register_of_mem (inv.screen_registered h)
  · intro p hp
    exact lt_of_written inv (Registry.sent_register hp)
  · intro fd hfd
    rw [Registry.conn_fd_register] at hfd
    exact inv.conn_lt fd hfd

/-- Destroying a pixmap that is not shown keeps the invariant. -/
theorem inv_destroyPixmap {s : State} (inv : Inv s) {id : BufferId} (hid : id ∈ s.pixmaps)
    (notShown : id ≠ s.root) :
    Inv { s with
      pixmaps := s.pixmaps.erase id, registry := s.registry.lorieUnregisterBuffer id } := by
  have hscreen : s.screen ≠ id := by
    rintro rfl
    exact inv.screen_not_pixmap hid
  refine ⟨Registry.faithful_unregister inv.faithful _, ?_, ?_, ?_, ?_, inv.screen_lt, ?_, ?_, ?_⟩
  · intro h
    rw [Registry.conn_fd_unregister] at h
    exact Registry.mem_unregister_of_ne notShown.symm (inv.root_registered h)
  · intro h
    rw [Registry.conn_fd_unregister] at h
    exact Registry.mem_unregister_of_ne hscreen (inv.screen_registered h)
  · intro p hp
    exact lt_of_written inv (Registry.sent_unregister hp)
  · intro fd hfd
    rw [Registry.conn_fd_unregister] at hfd
    exact inv.conn_lt fd hfd
  · intro id' hid'
    exact inv.pixmaps_lt id' (List.mem_of_mem_erase hid')
  · intro hmem
    exact inv.screen_not_pixmap (List.mem_of_mem_erase hmem)
  · exact inv.root_cases.imp_right (List.mem_erase_of_ne notShown.symm).mpr

/-- Every call of the server keeps the invariant. -/
theorem inv_call {s s' : State} {c : Call} (inv : Inv s) (h : call s c = some s') : Inv s' := by
  cases c with
  | flip env p =>
    obtain ⟨hflip, heq⟩ := Option.ite_none_right_eq_some.mp h
    obtain rfl := Option.some.inj heq
    exact inv_flip inv hflip.1
  | unflip =>
    cases h
    exact ⟨inv.faithful, inv.screen_registered, inv.screen_registered, inv.sent_lt, inv.conn_lt,
      inv.screen_lt, inv.pixmaps_lt, inv.screen_not_pixmap, .inl rfl⟩
  | destroyPixmap id =>
    obtain ⟨hdestroy, heq⟩ := Option.ite_none_right_eq_some.mp h
    obtain rfl := Option.some.inj heq
    exact inv_destroyPixmap inv hdestroy.1 hdestroy.2

/-- The flips and other calls that are due keep the invariant. -/
theorem inv_calls {s s' : State} {vblanks : List Call} (inv : Inv s)
    (h : run call s vblanks = some s') : Inv s' :=
  run_invariant inv_call inv h

/-- A step that is fresh keeps the invariant. -/
theorem inv_step {s s' : State} {a : Action} (inv : Inv s) (fresh : Fresh s a)
    (h : step s a = some s') : Inv s' := by
  cases a with
  | connect =>
    cases h
    obtain ⟨nothing, onScreen⟩ := fresh
    exact inv_connect inv nothing onScreen
  | disconnect =>
    simp only [step] at h
    split at h
    · cases h
      exact inv_disconnect inv
    · cases h
  | resize width =>
    cases h
    exact inv_resize inv width
  | createPixmap =>
    cases h
    exact inv_createPixmap inv
  | call c => exact inv_call inv h
  | redraw vblanks f =>
    obtain ⟨⟨t, stored⟩, hredraw, heq⟩ := Option.map_eq_some_iff.mp h
    obtain ⟨t', hcalls, hpair⟩ := Option.map_eq_some_iff.mp hredraw
    obtain ⟨rfl, -⟩ := Prod.mk.inj hpair
    obtain rfl := heq
    obtain ⟨hfaithful, hroot, hscreen, hsent, hconn, hlt, hpixmaps, hnot, hcases⟩ :=
      inv_calls inv hcalls
    exact ⟨hfaithful, hroot, hscreen, hsent, hconn, hlt, hpixmaps, hnot, hcases⟩

/-- Calls do not end a connection. -/
theorem conn_fd_call {s s' : State} {c : Call} (h : call s c = some s') :
    s'.registry.conn_fd = s.registry.conn_fd := by
  cases c with
  | flip env p =>
    obtain ⟨-, heq⟩ := Option.ite_none_right_eq_some.mp h
    obtain rfl := Option.some.inj heq
    exact Registry.conn_fd_register _ _
  | unflip => exact Option.some.inj h ▸ rfl
  | destroyPixmap id =>
    obtain ⟨-, heq⟩ := Option.ite_none_right_eq_some.mp h
    obtain rfl := Option.some.inj heq
    exact Registry.conn_fd_unregister _ _

/-- A buffer stays registered as long as its pixmap is there. -/
theorem registered_call {s s' : State} {c : Call} {id : BufferId} (hne : c ≠ .destroyPixmap id)
    (hmem : id ∈ s.registry.registeredBuffers) (h : call s c = some s') :
    id ∈ s'.registry.registeredBuffers := by
  cases c with
  | flip env p =>
    obtain ⟨-, heq⟩ := Option.ite_none_right_eq_some.mp h
    obtain rfl := Option.some.inj heq
    exact Registry.mem_register_of_mem hmem
  | unflip => exact Option.some.inj h ▸ hmem
  | destroyPixmap old =>
    obtain ⟨-, heq⟩ := Option.ite_none_right_eq_some.mp h
    obtain rfl := Option.some.inj heq
    refine Registry.mem_unregister_of_ne (fun hsame => hne ?_) hmem
    rw [hsame]

theorem conn_fd_calls {s s' : State} {vblanks : List Call} (h : run call s vblanks = some s') :
    s'.registry.conn_fd = s.registry.conn_fd := by
  have hcalls :
      ∀ {t u : State} {c : Call}, t.registry.conn_fd = s.registry.conn_fd → call t c = some u →
      u.registry.conn_fd = s.registry.conn_fd := fun hsame hcall => (conn_fd_call hcall).trans hsame
  exact run_invariant hcalls rfl h

/-- They leave a buffer registered whose pixmap they do not destroy. -/
theorem registered_calls {s s' : State} {vblanks : List Call} {id : BufferId}
    (hnot : Call.destroyPixmap id ∉ vblanks)
    (hmem : id ∈ s.registry.registeredBuffers) (h : run call s vblanks = some s') :
    id ∈ s'.registry.registeredBuffers := by
  have hkept : Meets call (fun _ c => c ≠ .destroyPixmap id) s vblanks := by
    refine Meets.of_forall (fun c hc _ => ?_) s
    rintro rfl
    exact hnot hc
  exact run_induction (fun hmem hne hcall => registered_call hne hmem hcall) hmem hkept h

/-- **The displayed buffer is known to the peer.** In every run of fresh steps `registeredBuffers`
is the set of buffers announced on the current connection in every state reached, and the id that a
redraw from there stores is one of them when it is stored, if that redraw is fresh too. -/
theorem displayed_is_announced {width : Nat} {as : List Action} {s : State}
    (fresh : Meets step Fresh (start width) as) (h : run step (start width) as = some s) :
    (∀ id, id ∈ s.registry.registeredBuffers ↔
        ∃ fd, s.registry.conn_fd = some fd ∧ Announced fd id s.registry.sent) ∧
      ∀ vblanks f s' id, Fresh s (.redraw vblanks f) →
        lorieRedraw s vblanks f = some (s', some id) →
        ∃ fd, s'.registry.conn_fd = some fd ∧ Announced fd id s'.registry.sent := by
  have inv := run_induction inv_step (inv_start width) fresh h
  refine ⟨inv.faithful.mem_iff, ?_⟩
  intro vblanks f s' id hfresh hredraw
  obtain ⟨t, hcalls, hpair⟩ := Option.map_eq_some_iff.mp hredraw
  obtain ⟨rfl, hstored⟩ := Prod.mk.inj hpair
  obtain ⟨halive, hid⟩ := Option.ite_none_right_eq_some.mp hstored
  obtain rfl := Option.some.inj hid
  rw [conn_fd_calls hcalls] at halive
  exact ((inv_calls inv hcalls).faithful.mem_iff s.root).mp
    (registered_calls (hfresh halive) (inv.root_registered halive.1) hcalls)

instance : ∀ s a, Decidable (Fresh s a)
  | s, .connect =>
    inferInstanceAs (Decidable (s.registry.registeredBuffers = [] ∧ s.root = s.screen))
  | s, .redraw vblanks f =>
    inferInstanceAs
      (Decidable (s.registry.conn_fd ≠ none ∧ f.pollOk ∧ f.surfaceAvailable ∧ f.drawRequested →
      Call.destroyPixmap s.root ∉ vblanks))
  | _, .disconnect | _, .resize _ | _, .createPixmap | _, .call _ =>
    inferInstanceAs (Decidable True)

/-- A square client pixmap with the first id the server gives to a client. -/
def clientPixmap : Pixmap := ⟨1, 800, 800, false, false, .regular⟩

/-- Another one of that size. -/
def nextPixmap : Pixmap := ⟨2, 800, 800, false, false, .regular⟩

/-- A flip to the first of them, and one to the other. -/
def flip : Call := .flip ⟨false, .ahardwarebuffer⟩ clientPixmap

def flipNext : Call := .flip ⟨false, .ahardwarebuffer⟩ nextPixmap

/-- Connect, flip a client's pixmap onto the screen and back, hang up, connect again and flip. -/
def freshConnections : List Action :=
  [.createPixmap, .createPixmap, .connect, .call flip, .redraw [] ⟨true, true, true⟩, .call .unflip,
    .disconnect,
    .connect, .call flip]

/-- A redraw at which the next flip is due: the id of the first pixmap is stored, which stays
announced. -/
theorem displayed_freshConnections :
    ∃ s s', run step (start 800) freshConnections = some s ∧
      lorieRedraw s [flipNext] ⟨true, true, true⟩ = some (s', some 1) ∧ s'.root = 2 ∧
        Announced 1 1 s'.registry.sent := by
  have hrun : run step (start 800) freshConnections = some
      ⟨⟨some 1, [1, 0], [(0, .add 0), (0, .add 1), (1, .add 0), (1, .add 1)]⟩, 2, 3, 0, 1, 800,
          [2, 1], some 1⟩ := by
    decide +kernel
  have hfresh : Meets step Fresh (start 800) freshConnections := by decide +kernel
  obtain ⟨fd, hfd, hannounced⟩ :=
    (displayed_is_announced hfresh hrun).2 [flipNext] ⟨true, true, true⟩ _ 1 (by decide +kernel) rfl
  cases hfd
  exact ⟨_, _, hrun, rfl, rfl, hannounced⟩

/-- The activity connects again while a client's pixmap is on the screen. -/
def reconnectWhileFlipped : List Action :=
  [.createPixmap, .connect, .call flip, .disconnect, .connect]

/-- The activity connects again before the end of its old connection was noticed. -/
def reconnectBeforeHangUp : List Action := [.connect, .connect]

/-- A client's pixmap is on the screen, which the client has given up already. -/
def flippedOnce : List Action := [.createPixmap, .createPixmap, .connect, .call flip]

/-- After the first, `lorieRedraw` stores the id of a buffer the new connection never heard of;
after the second, `registeredBuffers` holds a buffer that was announced on the old connection only;
after the third, a flip to another pixmap that is due destroys the one whose id is then stored. -/
theorem displayed_not_announced :
    (∃ s, run step (start 800) reconnectWhileFlipped = some s ∧ s.registry.conn_fd = some 1 ∧
      lorieRedraw s [] ⟨true, true, true⟩ = some (s, some 1) ∧ ¬ Announced 1 1 s.registry.sent) ∧
    (∃ s, run step (start 800) reconnectBeforeHangUp = some s ∧ s.registry.conn_fd = some 1 ∧
      0 ∈ s.registry.registeredBuffers ∧ ¬ Announced 1 0 s.registry.sent) ∧
    ∃ s s', run step (start 800) flippedOnce = some s ∧ s'.registry.conn_fd = some 0 ∧
      lorieRedraw s [flipNext, .destroyPixmap 1] ⟨true, true, true⟩ = some (s', some 1) ∧
      ¬ Announced 0 1 s'.registry.sent := by
  refine ⟨⟨⟨⟨some 1, [0], [(0, .add 0), (0, .add 1), (1, .add 0)]⟩, 2, 2, 0, 1, 800, [1], none⟩,
      by decide +kernel, rfl, rfl, ?_⟩,
    ⟨⟨⟨some 1, [0], [(0, .add 0)]⟩, 2, 1, 0, 0, 800, [], none⟩, by decide +kernel,
      rfl, by decide, ?_⟩,
    ⟨⟨⟨some 0, [1, 0], [(0, .add 0), (0, .add 1)]⟩, 1, 3, 0, 1, 800, [2, 1], none⟩,
      _, by decide +kernel, rfl, rfl, ?_⟩⟩
  · rintro ⟨before, after, hsent, -⟩
    have hmem : ((1, .add 1) : Connection × BufferEvent) ∈ before ++ (1, .add 1) :: after := by simp
    rw [← hsent] at hmem
    revert hmem
    decide
  · rintro ⟨before, after, hsent, -⟩
    have hmem : ((1, .add 0) : Connection × BufferEvent) ∈ before ++ (1, .add 0) :: after := by simp
    rw [← hsent] at hmem
    revert hmem
    decide
  · intro hannounced
    exact (announced_append_remove.mp hannounced).2 rfl

end Display

end WinEmulator.Lorie
