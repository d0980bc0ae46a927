import WinEmulator.Lib.Machine
import Mathlib.Logic.Function.Basic

/-!
# `renderer.c`: the window that is drawn to

`surfaceChanged` gives each new window to `rendererSetWindow`, which leaves it in `pendingWin` and
waits; the renderer thread takes it over in `rendererRefreshContext`. Both hold `stateLock`, except
while the call waits, so that a call of another thread may come in between.

A window has at most one EGL surface, which is named by the window. What EGL and the window answer
is not known. What is drawn goes to the surface that is current.
-/

set_option autoImplicit false

namespace WinEmulator.Lorie.RendererWindow

/-- What the renderer thread writes of the shared page when the window changes. -/
structure Flags where
  surfaceAvailable : Bool
  drawRequested : Bool
  cursorUpdated : Bool
deriving DecidableEq

/-- Where `rendererRefreshContext` returned. -/
inductive Outcome
  | noWindow
  /-- `eglCreateWindowSurface failed` -/
  | noSurface
  /-- `eglMakeCurrent failed` -/
  | notCurrent
  /-- At the end: whether `win != defaultWin`. -/
  | applied (shown : Bool)
deriving DecidableEq

/-- What it has then written to `state`. -/
def Outcome.write (page : Flags) : Outcome → Flags
  | .noWindow => { page with surfaceAvailable := false }
  | .noSurface => page
  | .notCurrent => { page with surfaceAvailable := false }
  | .applied shown => ⟨shown, shown, shown⟩

/-- What is answered to one `rendererRefreshContext`. -/
structure Answers where
  /-- `ANativeWindow_getWidth(pendingWin)`. -/
  width : Int
  height : Int
  /-- `eglMakeCurrent` of `defaultSfc`, in `releaseWinAndSurface`. -/
  defaultCurrent : Bool
  destroyed : Bool
  created : Bool
  /-- `eglMakeCurrent` of the surface that was created. -/
  madeCurrent : Bool
  /-- `eglMakeCurrent` of `defaultSfc`, where there is no window. -/
  idleCurrent : Bool
deriving DecidableEq

variable {Window : Type} [DecidableEq Window]

structure State (Window : Type) where
  win : Window
  pendingWin : Option Window
  /-- The window whose surface it is, or none for `EGL_NO_SURFACE`. -/
  sfc : Option Window
  windowChanged : Bool
  /-- What `state` points to, if it is not `NULL`. -/
  page : Option Flags
  /-- The window whose surface is current. -/
  current : Window
  /-- The windows that have an EGL surface. -/
  surfaces : List Window
  /-- How many more references to a window have been acquired than released. -/
  references : Window → Int
  /-- How often `surfaceChanged` has been called with a window. -/
  announced : Window → Nat
  /-- What `rendererSetWindow` was last called with. -/
  asked : Option Window
  /-- Where `rendererRefreshContext` last returned, once it has. -/
  outcome : Option Outcome
  /-- Whether a state has been set since then. -/
  stateSet : Bool
  /-- How many calls of `rendererSetWindow` wait. -/
  waiting : Nat

/-- After `rendererInitThread`. -/
def start (defaultWin : Window) : State Window where
  win := defaultWin
  pendingWin := none
  sfc := some defaultWin
  windowChanged := false
  page := none
  current := defaultWin
  surfaces := [defaultWin]
  references := Function.update (fun _ => 0) defaultWin 2
  announced := fun _ => 0
  asked := none
  outcome := none
  stateSet := false
  waiting := 0

namespace State

def ANativeWindow_acquire (window : Window) (s : State Window) : State Window :=
  { s with references := Function.update s.references window (s.references window + 1) }

def ANativeWindow_release (window : Window) (s : State Window) : State Window :=
  { s with references := Function.update s.references window (s.references window - 1) }

end State

open State

variable (defaultWin : Window)

/-- The first half of `releaseWinAndSurface`: whether it goes on to the window. -/
def releaseSurface (egl : Answers) (s : State Window) : Bool × State Window :=
  match s.sfc with
  | none => (true, s)
  | some sfc =>
    if sfc = defaultWin then (true, s)
    else if egl.defaultCurrent = false then (false, s)
    else if egl.destroyed = false then (false, { s with current := defaultWin })
    else (true, { s with
      current := defaultWin, surfaces := s.surfaces.erase sfc, sfc := some defaultWin })

/-- The second half, for `&win`. -/
def releaseWin (s : State Window) : State Window :=
  if s.win = defaultWin then s else { ANativeWindow_release s.win s with win := defaultWin }

/-- The second half, for `&pendingWin`. -/
def releasePendingWin (s : State Window) : State Window :=
  match s.pendingWin with
  | none => s
  | some pendingWin =>
    if pendingWin = defaultWin then s
    else { ANativeWindow_release pendingWin s with pendingWin := some defaultWin }

/-- `releaseWinAndSurface(&win, &sfc)`. -/
def releaseWinAndSurface (egl : Answers) (s : State Window) : State Window :=
  match releaseSurface defaultWin egl s with
  | (true, s) => releaseWin defaultWin s
  | (false, s) => s

/-- `eglCreateWindowSurface` fails for a window that has a surface. -/
def eglCreateWindowSurface (egl : Answers) (s : State Window) : State Window :=
  if egl.created = true ∧ s.win ∉ s.surfaces then
    { s with surfaces := s.win :: s.surfaces, sfc := some s.win }
  else { s with sfc := none }

/-- `rendererRefreshContext` once `win` is `pendingWin`: the surface for it. -/
def applyWindow (egl : Answers) (s : State Window) : State Window × Outcome :=
  let s := eglCreateWindowSurface egl s
  match s.sfc with
  | none => (s, .noSurface)
  | some sfc =>
    if egl.madeCurrent = false then (s, .notCurrent)
    else ({ s with current := sfc }, .applied (decide (s.win ≠ defaultWin)))

/-- `rendererRefreshContext` up to `windowChanged = FALSE`. -/
def takeWindow (egl : Answers) (s : State Window) : State Window :=
  let s := releaseWinAndSurface defaultWin egl s
  if s.pendingWin.isSome = true ∧ (egl.width ≤ 0 ∨ egl.height ≤ 0) then
    releasePendingWin defaultWin s
  else s

/-- `rendererRefreshContext`, and where it returns. -/
def refreshContext (egl : Answers) (s : State Window) : State Window × Outcome :=
  let s := takeWindow defaultWin egl s
  match s.pendingWin with
  | none =>
    let current := if egl.idleCurrent = true then defaultWin else s.current
    ({ s with windowChanged := false, win := defaultWin, current }, .noWindow)
  | some win =>
    applyWindow defaultWin egl { s with win, pendingWin := none, windowChanged := false }

/-- The flags, if there is a state. -/
def writeFlags (s : State Window) (outcome : Outcome) : State Window :=
  { s with
    outcome := some outcome
    stateSet := false
    page := s.page.map fun page => outcome.write page }

def rendererRefreshContext (egl : Answers) (s : State Window) : State Window :=
  let (s, outcome) := refreshContext defaultWin egl s
  writeFlags s outcome

/-- `rendererSetWindow`, until it waits or returns. -/
def rendererSetWindow (newWin : Option Window) (s : State Window) : State Window :=
  let s := { s with asked := newWin }
  if newWin.isSome = true ∧ s.pendingWin = newWin then
    newWin.elim s fun newWin => ANativeWindow_release newWin s
  else
    let s := s.pendingWin.elim s fun pendingWin => ANativeWindow_release pendingWin s
    { s with pendingWin := newWin, windowChanged := true, waiting := s.waiting + 1 }

/-- `surfaceChanged`: `ANativeWindow_fromSurface` acquires the window that it returns. -/
def surfaceChanged (sfc : Option Window) (s : State Window) : State Window :=
  let s := sfc.elim s fun win =>
    let s := { s with announced := Function.update s.announced win (s.announced win + 1) }
    ANativeWindow_acquire win (ANativeWindow_acquire win s)
  rendererSetWindow sfc s

/-- What `rendererThread` does with a state that was set. -/
def setState (page : Option Flags) (s : State Window) : State Window :=
  { s with
    stateSet := true
    page := page.map fun page => { page with surfaceAvailable := decide (s.win ≠ defaultWin) } }

inductive Action (Window : Type)
  | surfaceChanged (sfc : Option Window)
  /-- A call of `rendererSetWindow` finds that the window is no longer changed. -/
  | returned
  | setState (page : Option Flags)
  | rendererRefreshContext (egl : Answers)

/-- No surface of the activity's view is the one that the renderer made for itself. -/
def step (s : State Window) : Action Window → Option (State Window)
  | .surfaceChanged sfc => if sfc = some defaultWin then none else some (surfaceChanged sfc s)
  | .returned =>
    if s.waiting = 0 ∨ s.windowChanged = true then none
    else some { s with waiting := s.waiting - 1 }
  | .setState page => some (setState defaultWin page s)
  | .rendererRefreshContext egl =>
    if s.windowChanged = true then some (rendererRefreshContext defaultWin egl s) else none

/-- EGL lets the old surface go. -/
def releases : Action Window → Prop
  | .rendererRefreshContext egl => egl.defaultCurrent = true ∧ egl.destroyed = true
  | _ => True

end WinEmulator.Lorie.RendererWindow
