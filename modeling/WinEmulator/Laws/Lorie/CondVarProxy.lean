import WinEmulator.Lorie.CondVarProxy

/-!
# Laws of the proxy for a second condition variable

The proxy never sleeps on a variable in memory that is not mapped, and while the renderer goes about
its work the variable is that of the page in use. If the proxy has come to its first sleep before it
is first asked to change over, the renderer never waits for it in vain: the steps that are left need
no signal of anybody else.
-/

set_option autoImplicit false

namespace WinEmulator.Lorie.CondVarProxy

open WinEmulator.Lib

variable {Page : Type}

/-- A variable in memory that is there. -/
def Mapped (mapped : Page → Bool) (var : Option Page) : Prop :=
  ∀ page, var = some page → mapped page = true

/-- The page that the renderer has let go and not yet unmapped. -/
def RendererAt.oldState : RendererAt Page → Option Page
  | .outside => none
  | .waiting oldState | .woken oldState | .returned oldState => oldState

/-- The renderer is in `pthreadCondVarProxyListenOtherCondVar`. -/
def RendererAt.Listens : RendererAt Page → Prop
  | .waiting _ | .woken _ => True
  | .outside | .returned _ => False

/-- How far the change to the renderer's page is: the proxy has yet to make it, or has made it. -/
def Changing (s : State Page) : Prop :=
  s.relocked = false ∧ s.pending = some s.state ∨
    s.relocked = true ∧ s.pending = none ∧ s.current = s.state ∧ ∃ oldState,
      s.rendererAt = .woken oldState

structure Inv (s : State Page) : Prop where
  waiting : ∀ var, s.proxyAt = .waiting var → var = s.current
  current : Mapped s.mapped s.current
  state : Mapped s.mapped s.state
  old : ∀ page, s.rendererAt.oldState = some page → s.state ≠ some page
  listens : s.rendererAt.Listens → Changing s
  outside : ¬s.rendererAt.Listens → s.pending = none ∧ s.current = s.state

theorem inv_start : Inv (start : State Page) where
  waiting := fun _ h => by cases h
  current := fun _ h => by cases h
  state := fun _ h => by cases h
  old := fun _ h => by cases h
  listens := False.elim
  outside := fun _ => ⟨rfl, rfl⟩

@[simp] theorem wakeRenderer_oldState (rendererAt : RendererAt Page) :
    (wakeRenderer rendererAt).oldState = rendererAt.oldState := by cases rendererAt <;> rfl

@[simp] theorem wakeRenderer_listens (rendererAt : RendererAt Page) :
    (wakeRenderer rendererAt).Listens ↔ rendererAt.Listens := by cases rendererAt <;> exact Iff.rfl

theorem RendererAt.Listens.wakeRenderer_eq {rendererAt : RendererAt Page} (h : rendererAt.Listens) :
    wakeRenderer rendererAt = .woken rendererAt.oldState := by
  cases rendererAt with
  | outside => exact h.elim
  | waiting oldState => rfl
  | woken oldState => rfl
  | returned oldState => exact h.elim

/-- A step of the proxy's thread keeps the invariant. -/
theorem inv_proxyThread {s s' : State Page} (hi : Inv s) (h : proxyThread s = some s') :
    Inv s' := by
  unfold proxyThread at h
  split at h
  · cases h
    exact { hi with waiting := fun var hvar => by cases hvar; rfl }
  · cases h
  · cases h
    -- the renderer, if it listens, has left its page's variable in `pending`
    by_cases hl : s.rendererAt.Listens
    · have hcurrent : s.pending.getD s.current = s.state := by
        obtain ⟨_, hpending⟩ | ⟨_, hpending, hcurrent, _⟩ := hi.listens hl
        · simp [hpending]
        · simp [hpending, hcurrent]
      exact {
        waiting := fun var hvar => by cases hvar; rfl
        current := by simpa only [hcurrent] using hi.state
        state := hi.state
        old := by simpa only [wakeRenderer_oldState] using hi.old
        listens := fun _ => .inr ⟨rfl, rfl, hcurrent, _, hl.wakeRenderer_eq⟩
        outside := fun h => (h ((wakeRenderer_listens _).mpr hl)).elim }
    · obtain ⟨hpending, hcurrent⟩ := hi.outside hl
      exact {
        waiting := fun var hvar => by cases hvar; rfl
        current := by simpa only [hpending, Option.getD_none] using hi.current
        state := hi.state
        old := by simpa only [wakeRenderer_oldState] using hi.old
        listens := fun h => (hl ((wakeRenderer_listens _).mp h)).elim
        outside := fun _ => ⟨rfl, by simpa only [hpending, Option.getD_none] using hcurrent⟩ }

/-- A step of the renderer's thread keeps the invariant. -/
theorem inv_rendererThread {s s' : State Page} (hi : Inv s) (h : rendererThread s = some s') :
    Inv s' := by
  unfold rendererThread at h
  split at h
  · next oldState hat =>
    have hl : s.rendererAt.Listens := by simp [hat, RendererAt.Listens]
    have hold : s.rendererAt.oldState = oldState := by simp [hat, RendererAt.oldState]
    cases h
    obtain ⟨hyet, hpending⟩ | ⟨hdone, hpending, hcurrent, _⟩ := hi.listens hl
    · rw [if_neg (by simp [hyet])]
      exact { hi with
        old := hold ▸ hi.old
        listens := fun _ => .inl ⟨hyet, hpending⟩
        outside := fun h => (h trivial).elim }
    · rw [if_pos hdone]
      exact { hi with
        old := hold ▸ hi.old
        listens := False.elim
        outside := fun _ => ⟨hpending, hcurrent⟩ }
  · cases h

theorem inv_wakeRenderer {s : State Page} (hi : Inv s) :
    Inv { s with rendererAt := wakeRenderer s.rendererAt } where
  waiting := hi.waiting
  current := hi.current
  state := hi.state
  old := by simpa only [wakeRenderer_oldState] using hi.old
  listens := by
    intro h
    have hl := (wakeRenderer_listens _).mp h
    obtain hyet | ⟨hrelocked, hpending, hcurrent, _⟩ := hi.listens hl
    · exact .inl hyet
    · exact .inr ⟨hrelocked, hpending, hcurrent, _, hl.wakeRenderer_eq⟩
  outside := fun h => hi.outside fun hl => h ((wakeRenderer_listens _).mpr hl)

/-- The proxy's next step takes the pending page and wakes the renderer. -/
theorem proxyThread_changes {s : State Page} (hwoken : s.proxyAt = .woken)
    (hl : s.rendererAt.Listens)
    (hpending : s.pending = some s.state) : ∃ s', proxyThread s = some s' ∧ s'.relocked = true ∧
      s'.rendererAt = .woken s.rendererAt.oldState ∧ s'.state = s.state ∧ s'.current = s.state := by
  refine ⟨{ s with
    current := s.pending.getD s.current
    pending := none
    relocked := true
    rendererAt := wakeRenderer s.rendererAt
    proxyAt := .waiting (s.pending.getD s.current) }, ?_, rfl, hl.wakeRenderer_eq, rfl, ?_⟩
  · simp only [proxyThread, hwoken]
  · simp only [hpending, Option.getD_some]

/-- The woken renderer returns when it has the mutex again. -/
theorem rendererThread_returns {s : State Page} {oldState : Option Page}
    (hat : s.rendererAt = .woken oldState)
    (hrelocked : s.relocked = true) :
    rendererThread s = some { s with rendererAt := .returned oldState } := by
  simp only [rendererThread, hat, hrelocked, if_true]

variable [DecidableEq Page]

theorem Mapped.update_true {mapped : Page → Bool} {var : Option Page} (h : Mapped mapped var)
    (page : Page) :
    Mapped (Function.update mapped page true) var := by
  intro page' hvar
  by_cases hpage : page' = page
  · simp [hpage]
  · simp [Function.update_of_ne hpage, h page' hvar]

theorem Mapped.update_false {mapped : Page → Bool} {var : Option Page} {page : Page}
    (h : Mapped mapped var)
    (hne : var ≠ some page) : Mapped (Function.update mapped page false) var := by
  intro page' hvar
  have hpage : page' ≠ page := fun he => hne (he ▸ hvar)
  simp [Function.update_of_ne hpage, h page' hvar]

/-- Who still waits after a wake-up waits on another variable. -/
theorem wake_eq_waiting {var v : Option Page} {proxyAt : ProxyAt Page}
    (h : wake var proxyAt = .waiting v) :
    proxyAt = .waiting v ∧ v ≠ var := by
  cases proxyAt with
  | starting => cases h
  | woken => cases h
  | waiting v' =>
    simp only [wake] at h
    split at h
    · cases h
    · cases h
      exact ⟨rfl, ‹_›⟩

/-- A change of the state keeps the invariant. -/
theorem inv_stateChanged {s : State Page} {pendingState : Option Page} (hi : Inv s)
    (hmapped : Mapped s.mapped pendingState) : Inv (stateChanged pendingState s) where
  waiting := by
    intro var hvar
    exact hi.waiting var (wake_eq_waiting hvar).1
  current := hi.current
  state := hmapped
  old := by
    intro page hold
    simp only [stateChanged, RendererAt.oldState] at hold ⊢
    split at hold
    · next hchanged => exact hold ▸ hchanged.2
    · cases hold
  listens := fun _ => .inl ⟨rfl, rfl⟩
  outside := fun h => (h trivial).elim

/-- Unmapping the old page keeps the invariant. -/
theorem inv_munmap {s s' : State Page} (hi : Inv s) (h : munmap s = some s') : Inv s' := by
  unfold munmap at h
  split at h
  · next oldState hat =>
    have hout : ¬s.rendererAt.Listens := by simp [hat, RendererAt.Listens]
    obtain ⟨hpending, hcurrent⟩ := hi.outside hout
    cases h
    cases oldState with
    | none =>
      exact { hi with
        old := fun _ h => by cases h
        listens := False.elim
        outside := fun _ => hi.outside hout }
    | some page =>
      have hstate : s.state ≠ some page := hi.old page (by simp [hat, RendererAt.oldState])
      exact {
        waiting := hi.waiting
        current := hi.current.update_false (hcurrent ▸ hstate)
        state := hi.state.update_false hstate
        old := fun _ h => by cases h
        listens := False.elim
        outside := fun _ => ⟨hpending, hcurrent⟩ }
  · cases h

/-- **Step lemma.** Every step keeps the invariant. -/
theorem Inv.step {s s' : State Page} {a : Action Page} (hi : Inv s) (h : step s a = some s') :
    Inv s' := by
  cases a with
  | mmap page =>
    cases h
    exact { hi with current := hi.current.update_true page, state := hi.state.update_true page }
  | stateChanged pendingState =>
    simp only [CondVarProxy.step] at h
    split at h
    · next hguard =>
      cases h
      exact inv_stateChanged hi fun page hpage => by simpa [hpage] using hguard.2
    · cases h
  | proxyThread => exact inv_proxyThread hi h
  | rendererThread => exact inv_rendererThread hi h
  | munmap => exact inv_munmap hi h
  | wakeProxy =>
    simp only [CondVarProxy.step] at h
    split at h
    · cases h
      exact { hi with waiting := fun _ hvar => by cases hvar }
    · cases h
  | wakeRenderer =>
    cases h
    exact inv_wakeRenderer hi

/-- **Whatever the order of changes, signals and spurious wakings, the variable that the proxy
sleeps on, and the one it is to sleep on next, are in memory that is mapped; and outside of a change
to another page they are those of the page in use, which is another than the page to be
unmapped.** -/
theorem waits_where_mapped {s : State Page} {actions : List (Action Page)}
    (h : run step start actions = some s) :
    (∀ var, s.proxyAt = .waiting var → Mapped s.mapped var) ∧ Mapped s.mapped
    (s.pending.getD s.current) ∧
      (¬s.rendererAt.Listens → s.pending.getD s.current = s.state ∧ ∀ var,
        s.proxyAt = .waiting var → var = s.state) ∧
      ∀ page, s.rendererAt.oldState = some page → s.state ≠ some page := by
  have hi : Inv s := run_invariant Inv.step inv_start h
  refine ⟨fun var hvar => hi.waiting var hvar ▸ hi.current, ?_, fun hl => ?_, hi.old⟩
  · by_cases hl : s.rendererAt.Listens
    · obtain ⟨_, hpending⟩ | ⟨_, hpending, _⟩ := hi.listens hl
      · simpa [hpending] using hi.state
      · simpa [hpending] using hi.current
    · simpa [(hi.outside hl).1] using hi.current
  · obtain ⟨hpending, hcurrent⟩ := hi.outside hl
    exact ⟨by simpa [hpending] using hcurrent, fun var hvar => (hi.waiting var hvar).trans hcurrent⟩

/-- From the first page to a second, which is then unmapped with the proxy asleep on the new one. -/
def changedOver : List (Action Nat) :=
  [.proxyThread, .mmap 1, .stateChanged (some 1), .proxyThread, .rendererThread, .munmap, .mmap 2,
    .stateChanged (some 2),
    .proxyThread, .rendererThread, .munmap]

theorem waits_where_mapped_changedOver :
    ∃ s, run step start changedOver = some s ∧ s.proxyAt = .waiting (some 2) ∧
    s.mapped 1 = false ∧ Mapped s.mapped (some 2) := by
  have hruns :
      (run step start changedOver).map (fun s => (s.proxyAt, s.mapped 1)) =
        some (.waiting (some 2), false) := by
    decide
  obtain ⟨s, hs, hends⟩ := Option.map_eq_some_iff.mp hruns
  simp only [Prod.mk.injEq] at hends
  exact ⟨s, hs, hends.1, hends.2, (waits_where_mapped hs).1 _ hends.1⟩

/-! ## Progress -/

/-- A change that the proxy has yet to make finds it awake. -/
def Heard (s : State Page) : Prop := s.rendererAt.Listens → s.relocked = false → s.proxyAt = .woken

/-- A wake-up on the current page's variable reaches the proxy. -/
theorem wake_current {s : State Page} (hi : Inv s) (hstarted : s.proxyAt ≠ .starting) :
    wake s.current s.proxyAt = .woken := by
  cases hat : s.proxyAt with
  | starting => exact (hstarted hat).elim
  | waiting var => simp [wake, hi.waiting var hat]
  | woken => rfl

/-- **Step lemma.** While the proxy runs, every step leaves the change heard. -/
theorem Heard.step {s s' : State Page} {a : Action Page} (hheard : Heard s) (hi : Inv s)
    (hstarted : ProxyStarted s a)
    (h : step s a = some s') : Heard s' := by
  cases a with
  | mmap page =>
    cases h
    exact hheard
  | stateChanged pendingState =>
    simp only [CondVarProxy.step] at h
    split at h
    · cases h
      exact fun _ _ => wake_current hi hstarted
    · cases h
  | proxyThread =>
    simp only [CondVarProxy.step, proxyThread] at h
    split at h
    · next hat =>
      cases h
      intro hl hrelocked
      exact absurd (hheard hl hrelocked) (by simp [hat])
    · cases h
    · cases h
      exact fun _ hrelocked => by cases hrelocked
  | rendererThread =>
    simp only [CondVarProxy.step, rendererThread] at h
    split at h
    · next oldState hat =>
      cases h
      exact fun _ hrelocked => hheard (by simp [hat, RendererAt.Listens]) hrelocked
    · cases h
  | munmap =>
    simp only [CondVarProxy.step, munmap] at h
    split at h
    · cases h
      exact fun hl => hl.elim
    · cases h
  | wakeProxy =>
    simp only [CondVarProxy.step] at h
    split at h
    · cases h
      exact fun _ _ => rfl
    · cases h
  | wakeRenderer =>
    cases h
    exact fun hl hrelocked => hheard ((wakeRenderer_listens _).mp hl) hrelocked

/-- **If the proxy has come to its first sleep before it is first asked to change over, then
whenever the renderer waits for it, the two threads' own next steps, with no signal from anyone, end
the waiting.** -/
theorem change_ends {s : State Page} {actions : List (Action Page)}
    (h : run step start actions = some s)
    (hstarted : Meets step ProxyStarted start actions) (hl : s.rendererAt.Listens) :
    ∃ s', (run step s [.rendererThread] = some s' ∨
      run step s [.proxyThread, .rendererThread] = some s') ∧
      s'.rendererAt = .returned s.rendererAt.oldState ∧ s'.state = s.state ∧
        s'.current = s.state := by
  have hkeeps :
      ∀ {s s' : State Page} {a}, Inv s ∧ Heard s → ProxyStarted s a → step s a = some s' → Inv s' ∧
        Heard s' :=
    fun hs hok hstep => ⟨hs.1.step hstep, hs.2.step hs.1 hok hstep⟩
  obtain ⟨hi, hheard⟩ := run_induction hkeeps ⟨inv_start, fun hl => hl.elim⟩ hstarted h
  obtain ⟨hrelocked, hpending⟩ | ⟨hrelocked, _, hcurrent, oldState, hat⟩ := hi.listens hl
  · -- the proxy changes over and wakes the renderer
    obtain ⟨t, ht, htrelocked, htat, htstate, htcurrent⟩ :=
      proxyThread_changes (hheard hl hrelocked) hl hpending
    refine ⟨{ t with rendererAt := .returned s.rendererAt.oldState }, .inr ?_, rfl, htstate,
      htcurrent⟩
    exact run_cons.mpr ⟨t, ht, run_cons.mpr ⟨_, rendererThread_returns htat htrelocked, rfl⟩⟩
  · refine ⟨{ s with rendererAt := .returned oldState }, .inl ?_, ?_, rfl, hcurrent⟩
    · exact run_cons.mpr ⟨_, rendererThread_returns hat hrelocked, rfl⟩
    · rw [hat]
      rfl

/-- The renderer asks for a page's variable while the proxy sleeps. -/
def asked : List (Action Nat) := [.proxyThread, .mmap 1, .stateChanged (some 1)]

theorem change_ends_asked : ∃ s s', run step start asked = some s ∧
    (run step s [.rendererThread] = some s' ∨
      run step s [.proxyThread, .rendererThread] = some s') ∧
      s'.current = some 1 := by
  have hruns :
      (run step start asked).map (fun s => (s.rendererAt, s.state)) =
        some (.waiting none, some 1) := by decide
  obtain ⟨s, hs, hends⟩ := Option.map_eq_some_iff.mp hruns
  simp only [Prod.mk.injEq] at hends
  obtain ⟨s', hgoes, _, _, hcurrent⟩ :=
    change_ends hs (by decide) (by simp [hends.1, RendererAt.Listens])
  exact ⟨s, s', hs, hgoes, hcurrent.trans hends.2⟩

-- asked before its first sleep, the proxy goes to sleep on the variable from before, and nobody is
-- left to wake it
example : ((run step start [.mmap 1, .stateChanged (some 1), .proxyThread]).map fun s =>
    (s.proxyAt, s.pending, (step s .proxyThread).isSome, (step s .rendererThread).isSome)) =
    some (.waiting none, some (some 1), false, false) := by decide

end WinEmulator.Lorie.CondVarProxy
