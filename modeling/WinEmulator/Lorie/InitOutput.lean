import WinEmulator.Lib.Machine
import WinEmulator.Lorie.Buffer
import WinEmulator.Lorie.Registry

/-!
# `InitOutput.c`: what is on the screen

The server shows one pixmap, the one of the root window, by writing the id of its buffer into memory
it shares with the activity. That pixmap is the screen pixmap or, while a client's buffer is flipped
onto the screen, the client's. The machine here has the steps that change which pixmap it is and the
steps that tell the activity about buffers. Pixmaps appear as the ids of their buffers, which are
never given out twice.

Present changes the pixmap of the root window when it is told of a vblank, and `lorieRedraw` tells
it of the vblanks that are due. What it then does is a list of calls here, whatever they are. The
vblanks that are due when the screen is resized come before anything else is read, so what they make
Present do are steps of their own before that one.
-/

set_option autoImplicit false

namespace WinEmulator.Lorie.Display

open WinEmulator.Lib

structure State where
  registry : Registry
  /-- How many connections were opened. -/
  opened : Nat
  /-- The next buffer id. -/
  nextId : BufferId
  /-- `pScreenPtr->devPrivate`. -/
  screen : BufferId
  /-- `GetWindowPixmap(root)`. -/
  root : BufferId
  /-- `pvfb->root.width`. -/
  width : Nat
  /-- The clients' pixmaps. -/
  pixmaps : List BufferId
  rootWindowTextureID : Option BufferId
deriving DecidableEq

/-- A pixmap a client asks to flip to. `mem` is set for one without a buffer of the server's own. -/
structure Pixmap where
  id : BufferId
  width : Nat
  height : Nat
  mem : Bool
  imported : Bool
  type : BufferType
deriving DecidableEq

/-- What `lorieRedraw` finds around it: whether the poll in `lorieConnectionAlive` saw no hang-up,
whether the activity has a surface, and whether there is anything to draw. -/
structure Frame where
  pollOk : Bool
  surfaceAvailable : Bool
  drawRequested : Bool
deriving DecidableEq

/-- The environment of a flip: `TERMUX_X11_FORCE_FLIP`, and the type `LorieBuffer_convert` leaves a
`REGULAR` buffer with. -/
structure FlipEnv where
  forceFlip : Bool
  converted : BufferType
deriving DecidableEq

/-- What a client makes Present do, at once or when a vblank comes. -/
inductive Call
  | flip (env : FlipEnv) (pixmap : Pixmap)
  | unflip
  /-- The last reference is given up, by the client or by Present. -/
  | destroyPixmap (id : BufferId)
deriving DecidableEq

inductive Action
  /-- `addFd`. -/
  | connect
  /-- `handleLorieEvents` with `X_NOTIFY_ERROR`. -/
  | disconnect
  | resize (width : Nat)
  | createPixmap
  | call (c : Call)
  /-- `lorieRedraw`, with what the vblanks that are due make Present do. -/
  | redraw (vblanks : List Call) (frame : Frame)
deriving DecidableEq

/-- The tests of `loriePresentFlip`. The second comparison is with the width, as in the source. -/
def loriePresentFlip (env : FlipEnv) (width : Nat) (p : Pixmap) : Bool :=
  let type := if p.type = .regular then env.converted else p.type
  !p.mem && width == p.width && width == p.height
    && !(p.type = .fd && p.imported && !env.forceFlip) && type != .regular

def call (s : State) : Call → Option State
  | .flip env p =>
    if p.id ∈ s.pixmaps ∧ loriePresentFlip env s.width p then
      some { s with root := p.id, registry := s.registry.lorieRegisterBuffer p.id }
    else none
  | .unflip => some { s with root := s.screen }
  | .destroyPixmap id =>
    -- a flip holds a reference, so the pixmap on the screen is not destroyed
    if id ∈ s.pixmaps ∧ id ≠ s.root then
      some { s with pixmaps := s.pixmaps.erase id, registry := s.registry.lorieUnregisterBuffer id }
    else none

/-- The state after the vblanks, and the id `lorieRedraw` stores, if it gets that far: that of the
pixmap which was the root window's before the vblanks, even if it is not there any more. -/
def lorieRedraw (s : State) (vblanks : List Call) (f : Frame) : Option (State × Option BufferId) :=
  let root := s.root
  (run call s vblanks).map fun t =>
    (t, if t.registry.conn_fd ≠ none ∧ f.pollOk ∧ f.surfaceAvailable ∧
      f.drawRequested then some root else none)

def step (s : State) : Action → Option State
  | .connect =>
    some { s with
      opened := s.opened + 1
      registry := (s.registry.setConnFd s.opened).lorieRegisterBuffer s.screen }
  | .disconnect => if 0 < s.opened then some { s with registry := s.registry.hangUp } else none
  | .resize width =>
    -- the root window is put back on the screen pixmap and follows it to the new one
    some { s with
      width := width
      nextId := s.nextId + 1
      screen := s.nextId
      root := s.nextId
      registry := (s.registry.lorieUnregisterBuffer s.screen).lorieRegisterBuffer s.nextId }
  | .createPixmap => some { s with nextId := s.nextId + 1, pixmaps := s.nextId :: s.pixmaps }
  | .call c => call s c
  | .redraw vblanks f =>
    (lorieRedraw s vblanks f).map fun (t, stored) =>
      { t with rootWindowTextureID := stored.or t.rootWindowTextureID }

/-- After `lorieCreateScreenResources`. -/
def start (width : Nat) : State where
  registry := ⟨none, [], []⟩
  opened := 0
  nextId := 1
  screen := 0
  root := 0
  width := width
  pixmaps := []
  rootWindowTextureID := none

end WinEmulator.Lorie.Display
