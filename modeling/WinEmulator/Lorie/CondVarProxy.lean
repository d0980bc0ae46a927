import WinEmulator.Lib.Machine
import Mathlib.Logic.Function.Basic

/-!
# `renderer.c`: the proxy for a second condition variable

The renderer thread sleeps on `stateCond`. A second thread sleeps on the condition variable of the
shared page that is in use, or on `proxy.def` when there is none, and passes each signal on. When
another page is to be used, the renderer makes the second thread change over and waits until it has;
only then it unmaps the page from before.

What a thread does from locking `proxy.lock` until it gives the lock up is one step. A thread that
sleeps may be woken by a signal to its variable at any time, or for no reason; the signals of others
to either variable are such wakings.
-/

set_option autoImplicit false

namespace WinEmulator.Lorie.CondVarProxy

/-- `pthreadCondVarProxyThread`. -/
inductive ProxyAt (Page : Type)
  /-- Before its first `pthread_mutex_lock`. -/
  | starting
  /-- Asleep on the variable of a page, or on `proxy.def`. -/
  | waiting (var : Option Page)
  /-- Awake in `pthread_cond_wait`, and to lock `proxy.lock`. -/
  | woken
deriving DecidableEq

/-- `rendererThread`, and the page that it will unmap. -/
inductive RendererAt (Page : Type)
  /-- Elsewhere. -/
  | outside
  /-- Asleep in `pthreadCondVarProxyListenOtherCondVar`. -/
  | waiting (oldState : Option Page)
  | woken (oldState : Option Page)
  /-- `pthreadCondVarProxyListenOtherCondVar` has returned. -/
  | returned (oldState : Option Page)
deriving DecidableEq

variable {Page : Type} [DecidableEq Page]

structure State (Page : Type) where
  /-- `proxy.current`: the page's variable, or `proxy.def`. -/
  current : Option Page
  /-- `proxy.pending`, if it is not `NULL`. -/
  pending : Option (Option Page)
  relocked : Bool
  proxyAt : ProxyAt Page
  rendererAt : RendererAt Page
  /-- `state` of the renderer. -/
  state : Option Page
  mapped : Page → Bool

/-- After `pthreadCondVarProxyInit`. -/
def start : State Page where
  current := none
  pending := none
  relocked := false
  proxyAt := .starting
  rendererAt := .outside
  state := none
  mapped := fun _ => false

/-- A signal or a broadcast to the variable that the proxy may sleep on. -/
def wake (var : Option Page) : ProxyAt Page → ProxyAt Page
  | .waiting v => if v = var then .woken else .waiting v
  | proxyAt => proxyAt

/-- A signal to `stateCond`. -/
def wakeRenderer : RendererAt Page → RendererAt Page
  | .waiting oldState => .woken oldState
  | rendererAt => rendererAt

/-- `if (stateChanged)` of `rendererThread`, with `pthreadCondVarProxyListenOtherCondVar` until it
sleeps. -/
def stateChanged (pendingState : Option Page) (s : State Page) : State Page :=
  { s with
    state := pendingState
    proxyAt := wake s.current s.proxyAt
    pending := some pendingState
    relocked := false
    rendererAt :=
      .waiting (if s.state.isSome = true ∧ pendingState ≠ s.state then s.state else none) }

/-- `pthreadCondVarProxyThread`, from `pthread_mutex_lock` or from the end of `pthread_cond_wait` to
the next one. -/
def proxyThread (s : State Page) : Option (State Page) :=
  match s.proxyAt with
  | .starting => some { s with proxyAt := .waiting s.current }
  | .waiting _ => none
  | .woken =>
    let current := s.pending.getD s.current
    some { s with
      current
      pending := none
      relocked := true
      rendererAt := wakeRenderer s.rendererAt
      proxyAt := .waiting current }

/-- `while(!proxy.relocked)`, when `pthread_cond_wait` ends. -/
def rendererThread (s : State Page) : Option (State Page) :=
  match s.rendererAt with
  | .woken oldState =>
    some { s with
      rendererAt := if s.relocked = true then .returned oldState else .waiting oldState }
  | _ => none

/-- `if (oldState) munmap(oldState, ...)`. -/
def munmap (s : State Page) : Option (State Page) :=
  match s.rendererAt with
  | .returned oldState =>
    some { s with
      rendererAt := .outside
      mapped := oldState.elim s.mapped fun page => Function.update s.mapped page false }
  | _ => none

inductive Action (Page : Type)
  /-- A page is mapped. -/
  | mmap (page : Page)
  | stateChanged (pendingState : Option Page)
  | proxyThread
  | rendererThread
  | munmap
  /-- The proxy is woken, by a signal to the variable it sleeps on or for no reason. -/
  | wakeProxy
  /-- The renderer is. -/
  | wakeRenderer

/-- `rendererSetSharedState` is given a page that has been mapped. -/
def step (s : State Page) : Action Page → Option (State Page)
  | .mmap page => some { s with mapped := Function.update s.mapped page true }
  | .stateChanged pendingState =>
    if s.rendererAt = .outside ∧ pendingState.all s.mapped = true then
      some (stateChanged pendingState s)
    else none
  | .proxyThread => proxyThread s
  | .rendererThread => rendererThread s
  | .munmap => munmap s
  | .wakeProxy =>
    match s.proxyAt with
    | .waiting _ => some { s with proxyAt := .woken }
    | _ => none
  | .wakeRenderer => some { s with rendererAt := wakeRenderer s.rendererAt }

/-- The proxy sleeps, or has slept, when the renderer asks it to change over. -/
def ProxyStarted (s : State Page) : Action Page → Prop
  | .stateChanged _ => s.proxyAt ≠ .starting
  | _ => True

instance (s : State Page) : ∀ a, Decidable (ProxyStarted s a)
  | .stateChanged _ => inferInstanceAs (Decidable (s.proxyAt ≠ .starting))
  | .mmap _ | .proxyThread | .rendererThread | .munmap | .wakeProxy | .wakeRenderer =>
    inferInstanceAs (Decidable True)

end WinEmulator.Lorie.CondVarProxy
