import WinEmulator.Lorie.Connections

/-!
# Reconnection

What an old connection can still do to the one that replaced it. The error branch of
`handleLorieEvents` resets the globals for whichever descriptor failed, and a clipboard text is read
from `conn_fd` for whichever descriptor its header came from. `Undisturbed` is what is wanted of
every step; `Ordered` is the order of events in which the code provides it, and
`undisturbed_iff_ordered` says that it provides it in no other.
-/

set_option autoImplicit false

namespace WinEmulator.Lorie.Connections

open WinEmulator.Lib

/-- Some connection newer than `m` has been added. -/
def Replaced (s : State) (m : Connection) : Prop := ∃ n ∈ s.added, m < n

/-- The step does no harm: the error of a replaced connection leaves `conn_fd`, the clipboard flag
and the registered buffers as they are, and a payload is read from the descriptor of its header. -/
def Undisturbed (s : State) (a : Action) : Prop :=
  ∀ s', step s a = some s' →
    match a with
    | .error m => Replaced s m →
        s'.registry.conn_fd = s.registry.conn_fd ∧ s'.clipboardEnabled = s.clipboardEnabled ∧
          s'.registry.registeredBuffers = s.registry.registeredBuffers
    | .payload => ∀ r, s'.reads = s.reads ++ [r] → r.source = some r.header
    | _ => True

/-- The order the code relies on: the error of a replaced connection comes when there is no current
connection and the clipboard flag is off, and a clipboard text is read while the connection of its
header is the current one. -/
def Ordered (s : State) : Action → Prop
  | .error m => Replaced s m → s.registry.conn_fd = none ∧ s.clipboardEnabled = 0
  | .payload => ∀ r ∈ s.reading, r.2 = .clipboard → s.registry.conn_fd = some r.1
  | _ => True

/-- Without a connection no buffer is registered. -/
def NoneRegistered (s : State) : Prop :=
  s.registry.conn_fd = none → s.registry.registeredBuffers = []

/-- Registering and unregistering leave `conn_fd` alone, and without a connection they do
nothing. -/
theorem noneRegistered_registerBuffer {r : Registry} (id : BufferId)
    (h : r.conn_fd = none → r.registeredBuffers = []) :
    (r.lorieRegisterBuffer id).conn_fd = none → (r.lorieRegisterBuffer id).registeredBuffers =
    [] := by
  unfold Registry.lorieRegisterBuffer
  cases hfd : r.conn_fd with
  | none =>
    intro _
    exact h hfd
  | some fd =>
    intro hnone
    by_cases hmem : id ∈ r.registeredBuffers
    · simp only [hmem, if_true, hfd, reduceCtorEq] at hnone
    · simp only [hmem, if_false, reduceCtorEq] at hnone

/-- Unregistering registers nothing. -/
theorem noneRegistered_unregisterBuffer {r : Registry} (id : BufferId)
    (h : r.conn_fd = none → r.registeredBuffers = []) :
    (r.lorieUnregisterBuffer id).conn_fd = none →
      (r.lorieUnregisterBuffer id).registeredBuffers = [] := by
  unfold Registry.lorieUnregisterBuffer
  by_cases hmem : id ∈ r.registeredBuffers
  · rw [if_neg (not_not.mpr hmem)]
    cases hfd : r.conn_fd with
    | none =>
      rw [h hfd] at hmem
      cases hmem
    | some fd =>
      intro hnone
      simp only [reduceCtorEq] at hnone
  · rw [if_pos hmem]
    exact h

/-- **Step lemma.** Without a connection nothing is registered. -/
theorem noneRegistered_step {s s' : State} {a : Action} (inv : NoneRegistered s)
    (h : step s a = some s') : NoneRegistered s' := by
  cases a with
  | getXConnection =>
    cases h
    exact inv
  | registerDev =>
    simp only [step] at h
    split at h
    · cases h
      exact inv
    · cases h
  | setConnFd =>
    simp only [step] at h
    split at h
    · cases h
      intro hnone
      cases hnone
    · cases h
  | activityConnected =>
    simp only [step] at h
    split at h
    · cases h
      exact noneRegistered_registerBuffer s.screen inv
    · cases h
  | registerBuffer id =>
    simp only [step] at h
    split at h
    · cases h
      exact noneRegistered_registerBuffer id inv
    · cases h
  | unregisterBuffer id =>
    simp only [step] at h
    split at h
    · cases h
      exact noneRegistered_unregisterBuffer id inv
    · cases h
  | header fd e =>
    simp only [step] at h
    split at h
    · cases h
      unfold State.enter
      split <;> exact inv
    · cases h
  | payload =>
    simp only [step] at h
    split at h
    · cases h
      exact inv
    · cases h
  | error fd =>
    simp only [step] at h
    split at h
    · cases h
      intro _
      rfl
    · cases h

/-- On one step, order is all that keeps it from doing harm. -/
theorem undisturbed_iff_ordered_step {s s' : State} {a : Action} (inv : NoneRegistered s)
    (h : step s a = some s') : Undisturbed s a ↔ Ordered s a := by
  cases a with
  | error m =>
    have hs' : s' = { s with
        devs := s.devs.erase m
        registry := s.registry.hangUp
        clipboardEnabled := 0 } := by
      simp only [step] at h
      split at h
      · exact (Option.some.inj h).symm
      · cases h
    constructor
    · intro safe replaced
      obtain ⟨hfd, hflag, -⟩ := safe s' h replaced
      rw [hs'] at hfd hflag
      exact ⟨hfd.symm, hflag.symm⟩
    · intro ordered next hnext replaced
      obtain rfl := Option.some.inj (h.symm.trans hnext)
      obtain ⟨hfd, hflag⟩ := ordered replaced
      rw [hs', hfd, hflag, inv hfd]
      exact ⟨rfl, rfl, rfl⟩
  | payload =>
    obtain ⟨fd, p, hreading, hs'⟩ : ∃ fd p, s.reading = some (fd, p) ∧
        s' = { s with reading := none, reads := s.reads ++ [⟨fd, source s fd p⟩] } := by
      simp only [step] at h
      split at h
      next fd p hreading => exact ⟨fd, p, hreading, (Option.some.inj h).symm⟩
      · cases h
    constructor
    · intro safe r hr hclip
      obtain rfl : (fd, p) = r := Option.some.inj (hreading.symm.trans hr)
      obtain rfl : p = .clipboard := hclip
      exact safe s' h _ (by rw [hs'])
    · intro ordered next hnext r hr
      obtain rfl := Option.some.inj (h.symm.trans hnext)
      rw [hs'] at hr
      obtain rfl : (⟨fd, source s fd p⟩ : PayloadRead) = r := by simpa using hr
      cases p with
      | name => rfl
      | clipboard => exact ordered (fd, .clipboard) hreading rfl
  | _ => exact ⟨fun _ => trivial, fun _ _ _ => trivial⟩

/-- **Reconnection safety.** A run does no harm to a newer connection, and reads every payload from
the descriptor of its header, if and only if its steps come in the order the code relies on. -/
theorem undisturbed_iff_ordered {screen : BufferId} {as : List Action} {s : State}
    (h : run step (start screen) as = some s) :
    Meets step Undisturbed (start screen) as ↔ Meets step Ordered (start screen) as :=
  meets_iff noneRegistered_step undisturbed_iff_ordered_step (fun _ => rfl) h

instance : ∀ s m, Decidable (Replaced s m) := fun s m =>
  inferInstanceAs (Decidable (∃ n ∈ s.added, m < n))

instance : ∀ s a, Decidable (Ordered s a)
  | s, .error m => inferInstanceAs
      (Decidable (Replaced s m → s.registry.conn_fd = none ∧ s.clipboardEnabled = 0))
  | s, .payload => inferInstanceAs
      (Decidable (∀ r ∈ s.reading, r.2 = .clipboard → s.registry.conn_fd = some r.1))
  | _, .getXConnection => inferInstanceAs (Decidable True)
  | _, .registerDev => inferInstanceAs (Decidable True)
  | _, .setConnFd => inferInstanceAs (Decidable True)
  | _, .activityConnected => inferInstanceAs (Decidable True)
  | _, .registerBuffer _ => inferInstanceAs (Decidable True)
  | _, .unregisterBuffer _ => inferInstanceAs (Decidable True)
  | _, .header _ _ => inferInstanceAs (Decidable True)

/-- One connection that switches the clipboard on and sends a text, its end, and then two others,
the newer one of which ends first. -/
def connectInTurn : List Action :=
  [.getXConnection, .registerDev, .setConnFd, .activityConnected,
    .header 0 (.ofEnable (Image.zero _) .clipboardEnable 1),
    .header 0 (.ofClipboardSend (Image.zero _) 1), .payload, .error 0,
    .getXConnection, .registerDev, .setConnFd, .activityConnected,
    .getXConnection, .registerDev, .setConnFd, .activityConnected, .error 2, .error 1]

theorem undisturbed_connectInTurn :
    ∃ s, run step (start 7) connectInTurn = some s ∧
      Meets step Undisturbed (start 7) connectInTurn := by
  obtain ⟨s, hrun⟩ := Option.isSome_iff_exists.mp
    (show (run step (start 7) connectInTurn).isSome = true by decide +kernel)
  exact ⟨s, hrun, (undisturbed_iff_ordered hrun).mpr (by decide +kernel)⟩

/-- Two connections, and only then the end of the first. -/
def connectOverlapping : List Action :=
  [.getXConnection, .registerDev, .setConnFd, .activityConnected,
    .getXConnection, .registerDev, .setConnFd, .activityConnected]

/-- The state in which both connections are up and the second is the current one. -/
def overlapping : State where
  opened := 2
  work := []
  addFd := .idle
  added := [1, 0]
  devs := [1, 0]
  registry := ⟨some 1, [7], [(0, .add 7)]⟩
  clipboardEnabled := 0
  reading := none
  reads := []
  screen := 7

/-- The end of the first connection takes `conn_fd` from the second and forgets its buffers. A
clipboard text the first one announces is read from the second. -/
theorem disturbed_connectOverlapping :
    run step (start 7) connectOverlapping = some overlapping ∧
      ¬ Undisturbed overlapping (.error 0) ∧
      ∃ s, run step overlapping [.header 0 (.ofClipboardSend (Image.zero _) 1)] = some s ∧
        ¬ Undisturbed s .payload := by
  refine ⟨by decide +kernel, ?_, ?_⟩
  · intro h
    have hreset := h { overlapping with
        devs := [1]
        registry := overlapping.registry.hangUp
        clipboardEnabled := 0 } (by decide +kernel) ⟨1, by decide, by decide⟩
    cases hreset.1
  · refine ⟨{ overlapping with reading := some (0, .clipboard) }, by decide +kernel, fun h => ?_⟩
    have hsource :=
      h { overlapping with reads := [⟨0, some 1⟩] } (by decide +kernel) ⟨0, some 1⟩ rfl
    cases hsource

end WinEmulator.Lorie.Connections
