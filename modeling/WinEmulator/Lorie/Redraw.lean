import WinEmulator.Lib.Machine
import WinEmulator.Lorie.Renderer
import WinEmulator.Lorie.RendererWindow

/-!
# `InitOutput.c` and `renderer.c`: from the X server to the screen

The server's thread draws and moves the cursor, and `lorieRedraw`, once for each frame of the
display, asks the renderer thread of the activity for a frame by the flags of the page that both
share. Each access to the page, to the damage and to a pixmap is a step of the thread that makes it,
and the steps of both may follow each other in any way; what a thread is still to do in its call is
a list of such operations.

A drawing operation on the screen's pixmap takes the page's lock if `loriePrepareAccess` is called
with `EXA_PREPARE_DEST` for it. That is not always so: a window that is moved, and a copy within the
pixmap, have it prepared as their source. What Present does when it is told of a vblank is any list
of drawing operations, flips and ends of flips. `lorieRedraw` and `lorieRRScreenSetSize` tell it of
those that are due, and `lorieRedraw` does so after it has read which pixmap the root window has.

A run starts when the renderer has taken over the page that `lorieActivityConnected` has offered.
Who sleeps on the condition variable is left out, so either thread may always go on that does not
wait for a lock; a lock is held by one thread at a time.
-/

set_option autoImplicit false

namespace WinEmulator.Lorie.Redraw

open WinEmulator.Lib
open WinEmulator.Lorie.RendererWindow (Outcome)

inductive Thread
  | server
  | renderer
deriving DecidableEq

/-- The numbers in `cursor`. -/
inductive Field
  | x
  | y
  | xhot
  | yhot
  | width
  | height
deriving DecidableEq

variable {Pixels Bits : Type}

/-- `lorie_shared_server_state`. -/
structure Page (Bits : Type) where
  lock : Option Thread
  rootWindowTextureID : Renderer.BufferId
  drawRequested : Bool
  surfaceAvailable : Bool
  waitForNextFrame : Bool
  renderedFrames : Nat
  cursorLock : Option Thread
  cursor : Field → UInt32
  bits : Bits
  updated : Bool
  moved : Bool

/-- The index that `loriePrepareAccess` is called with. -/
inductive Index
  | dest
  | src
  | mask
deriving DecidableEq

/-- What changes the root window besides a resize. -/
inductive Drawing (Pixels : Type)
  | draw (index : Index) (paints : List Pixels)
  | flip (buffer : Renderer.BufferId)
  | present_restore_screen_pixmap (copied : List Pixels)
deriving DecidableEq

/-- A step of the server's thread. -/
inductive ServerOp (Pixels Bits : Type)
  /-- `cursor.x = x` and the like. -/
  | setField (c : Field) (v : UInt32)
  | moved
  | lockCursor
  | lorieConvertCursor (bits : Bits)
  | updated
  | unlockCursor
  /-- The damage region is no longer empty. -/
  | damage
  | lock
  | paint (index : Index) (pixels : Pixels)
  | unlock
  /-- The root window is given a pixmap. -/
  | rootPixmap (buffer : Renderer.BufferId)
  /-- It is given the screen's. -/
  | rootScreenPixmap
  /-- The screen is given a new pixmap, and damage is reported for that one from now on. -/
  | setScreenPixmap (buffer : Renderer.BufferId) (pixels : Pixels)
  /-- It begins. -/
  | drawing (d : Drawing Pixels)
  /-- `root = GetWindowPixmap(pScreenPtr->root)`. -/
  | getWindowPixmap
  /-- `waitForNextFrame = false`. -/
  | nextFrame
  /-- `if (!lorieConnectionAlive() || !surfaceAvailable) return`. -/
  | returnUnlessShown (connectionAlive : Bool)
  /-- `if (nonEmpty && priv->buffer)`, with `DamageEmpty`. -/
  | ifDamaged
  | drawRequested
  /-- The three flags, read one after the other. -/
  | ifDrawRequested
  | ifMoved
  | ifUpdated
  | rootWindowTextureID
deriving DecidableEq

/-- A step of `rendererRedrawLocked`. -/
inductive RendererOp
  /-- `LorieBufferList_findById`. -/
  | findById
  | lock
  | lowerDrawRequested (buffer : Renderer.BufferId)
  | drawRoot (buffer : Renderer.BufferId)
  | ifUpdated
  | lockCursor
  | lowerUpdated
  | glTexImage2D
  | unlockCursor
  | lowerMoved
  | readField (c : Field)
  /-- `if (!state->cursor.width || !state->cursor.height) return`. -/
  | ifVisible
  | waitForNextFrame
  | unlock
  | eglSwapBuffers
  | renderedFrames
deriving DecidableEq

/-- What is to be seen of a root window: its buffer and, if that is the screen's, the pixels. -/
structure Picture (Pixels : Type) where
  buffer : Renderer.BufferId
  pixels : Option Pixels

/-- What is to be seen of a cursor: the image with its size, and where. -/
structure Sprite (Bits : Type) where
  width : UInt32
  height : UInt32
  bits : Bits
  place : Field → UInt32

structure Frame (Pixels Bits : Type) where
  root : Picture Pixels
  sprite : Option (Sprite Bits)

structure Server (Pixels Bits : Type) where
  todo : List (ServerOp Pixels Bits)
  /-- Whether the damage region is not empty. -/
  damage : Bool
  /-- The buffer of the screen's pixmap, and what is in it. -/
  screen : Renderer.BufferId
  pixels : Pixels
  /-- The buffer of the root window's pixmap. -/
  root : Renderer.BufferId
  /-- What it was when `lorieRedraw` read it, whose local variable this is. -/
  rootRead : Renderer.BufferId
  /-- How often `lorieRedraw` has been called. -/
  redraws : Nat

structure Renderer (Pixels Bits : Type) where
  todo : List RendererOp
  /-- The buffers in `buffers` and `removedBuffers`. -/
  buffers : List Renderer.BufferId
  /-- The window has a surface that is drawn to. -/
  surface : Bool
  /-- What the root window was last drawn as on this surface. -/
  drawn : Option (Picture Pixels)
  /-- The texture `cursor.id`. -/
  texture : UInt32 × UInt32 × Bits
  /-- What `drawCursor` has read. -/
  cursor : Field → UInt32
  /-- It did not return at once. -/
  visible : Bool
  /-- What was last handed to `eglSwapBuffers` for this surface. -/
  frame : Option (Frame Pixels Bits)
  /-- How often `waitForNextFrame` was set. -/
  frames : Nat

structure State (Pixels Bits : Type) where
  page : Page Bits
  server : Server Pixels Bits
  renderer : Renderer Pixels Bits

/-! ## What is to be seen -/

/-- A buffer as it is now. -/
def Server.picture (server : Server Pixels Bits) (buffer : Renderer.BufferId) : Picture Pixels :=
  ⟨buffer, if buffer = server.screen then some server.pixels else none⟩

/-- `drawCursor`: a cursor without an area is not drawn. -/
def drawCursor (texture : UInt32 × UInt32 × Bits) (cursor : Field → UInt32) :
    Option (Sprite Bits) :=
  if cursor .width = 0 ∨ cursor .height = 0 then none
  else some ⟨texture.1, texture.2.1, texture.2.2, cursor⟩

/-- What the cursor's texture is to be. -/
def Page.image (page : Page Bits) : UInt32 × UInt32 × Bits :=
  (page.cursor .width, page.cursor .height, page.bits)

/-- What the X server shows. -/
def State.current (s : State Pixels Bits) : Frame Pixels Bits :=
  ⟨s.server.picture s.server.root, drawCursor s.page.image s.page.cursor⟩

/-! ## The server -/

def lorieMoveCursor (x y : UInt32) : List (ServerOp Pixels Bits) :=
  [.setField .x x, .setField .y y, .moved]

/-- `lorieSetCursor`, for a cursor with its numbers or for none. -/
def lorieSetCursor (cursor : Option (UInt32 × UInt32 × UInt32 × UInt32 × Bits)) (x0 y0 : UInt32) :
    List (ServerOp Pixels Bits) :=
  .lockCursor ::
    (match cursor with
    | some (xhot, yhot, width, height, bits) =>
      [.setField .xhot xhot, .setField .yhot yhot, .setField .width width, .setField .height height,
        .lorieConvertCursor bits]
    | none => [.setField .yhot 0, .setField .xhot 0, .setField .height 0, .setField .width 0]) ++
    [.updated, .unlockCursor] ++ lorieMoveCursor x0 y0

/-- Drawing to the screen's pixmap, between `loriePrepareAccess` and `lorieFinishAccess`. -/
def draw (index : Index) (paints : List Pixels) : List (ServerOp Pixels Bits) :=
  if index = .dest then [.damage, .lock] ++ paints.map (.paint index) ++ [.unlock]
  else .damage :: paints.map (.paint index)

/-- `present_set_tree_pixmap` for a flip, and `loriePresentAfterFlip`. -/
def flip (buffer : Renderer.BufferId) : List (ServerOp Pixels Bits) := [.rootPixmap buffer, .damage]

/-- `present_restore_screen_pixmap`: what was flipped to is copied. -/
def present_restore_screen_pixmap (server : Server Pixels Bits) (copied : List Pixels) :
    List (ServerOp Pixels Bits) :=
  if server.root = server.screen then [] else draw .dest copied ++ [.rootScreenPixmap]

def Drawing.program (server : Server Pixels Bits) : Drawing Pixels → List (ServerOp Pixels Bits)
  | .draw index paints => Redraw.draw index paints
  | .flip buffer => Redraw.flip buffer
  | .present_restore_screen_pixmap copied => Redraw.present_restore_screen_pixmap server copied

/-- `loriePerformVblanks`. -/
def loriePerformVblanks (vblanks : List (Drawing Pixels)) : List (ServerOp Pixels Bits) :=
  vblanks.map .drawing

/-- `lorieRRScreenSetSize`: the new pixmap, what is copied to it and what is painted as the root
window is resized. -/
def lorieRRScreenSetSize (vblanks : List (Drawing Pixels)) (buffer : Renderer.BufferId)
    (pixels : Pixels)
    (restored copied : List Pixels) (painted : List (Index × List Pixels)) :
    List (ServerOp Pixels Bits) :=
  loriePerformVblanks vblanks ++
    [.drawing (.present_restore_screen_pixmap restored), .setScreenPixmap buffer pixels] ++
    draw .dest copied ++ [.rootScreenPixmap] ++ painted.flatMap (fun p => draw p.1 p.2) ++ [.moved]

def lorieRedraw (vblanks : List (Drawing Pixels)) (connectionAlive : Bool) :
    List (ServerOp Pixels Bits) :=
  [.getWindowPixmap] ++ loriePerformVblanks vblanks ++
    [.nextFrame, .returnUnlessShown connectionAlive, .ifDamaged, .ifDrawRequested, .ifMoved,
      .ifUpdated]

inductive Call (Pixels Bits : Type)
  | lorieMoveCursor (x y : UInt32)
  | lorieSetCursor (cursor : Option (UInt32 × UInt32 × UInt32 × UInt32 × Bits)) (x0 y0 : UInt32)
  | drawing (d : Drawing Pixels)
  | lorieRRScreenSetSize (vblanks : List (Drawing Pixels)) (buffer : Renderer.BufferId)
      (pixels : Pixels)
    (restored copied : List Pixels) (painted : List (Index × List Pixels))
  | lorieRedraw (vblanks : List (Drawing Pixels)) (connectionAlive : Bool)

def Call.program (server : Server Pixels Bits) : Call Pixels Bits → List (ServerOp Pixels Bits)
  | .lorieMoveCursor x y => Redraw.lorieMoveCursor x y
  | .lorieSetCursor cursor x0 y0 => Redraw.lorieSetCursor cursor x0 y0
  | .drawing d => d.program server
  | .lorieRRScreenSetSize vblanks buffer pixels restored copied painted =>
    Redraw.lorieRRScreenSetSize vblanks buffer pixels restored copied painted
  | .lorieRedraw vblanks connectionAlive => Redraw.lorieRedraw vblanks connectionAlive

/-- One step of the server's thread; the list is what comes after it. -/
def serverOp (s : State Pixels Bits) (rest : List (ServerOp Pixels Bits)) :
    ServerOp Pixels Bits → Option (State Pixels Bits)
  | .setField c v =>
    some { s with
      page := { s.page with cursor := Function.update s.page.cursor c v }
      server := { s.server with todo := rest } }
  | .moved =>
    some { s with page := { s.page with moved := true }, server := { s.server with todo := rest } }
  | .lockCursor =>
    if s.page.cursorLock = none then
      some { s with
        page := { s.page with cursorLock := some .server }
        server := { s.server with todo := rest } }
    else none
  | .lorieConvertCursor bits =>
    some { s with page := { s.page with bits }, server := { s.server with todo := rest } }
  | .updated =>
    some { s with
      page := { s.page with updated := true }, server := { s.server with todo := rest } }
  | .unlockCursor =>
    some { s with
      page := { s.page with cursorLock := none }, server := { s.server with todo := rest } }
  | .damage => some { s with server := { s.server with damage := true, todo := rest } }
  | .lock =>
    if s.page.lock = none then
      some { s with
        page := { s.page with lock := some .server }, server := { s.server with todo := rest } }
    else none
  | .paint _ pixels => some { s with server := { s.server with pixels, todo := rest } }
  | .unlock =>
    some { s with page := { s.page with lock := none }, server := { s.server with todo := rest } }
  | .rootPixmap root => some { s with server := { s.server with root, todo := rest } }
  | .rootScreenPixmap =>
    some { s with server := { s.server with root := s.server.screen, todo := rest } }
  | .setScreenPixmap screen pixels =>
    some { s with server := { s.server with screen, pixels, damage := false, todo := rest } }
  | .drawing d => some { s with server := { s.server with todo := d.program s.server ++ rest } }
  | .getWindowPixmap =>
    some { s with server := { s.server with rootRead := s.server.root, todo := rest } }
  | .nextFrame =>
    some { s with
      page := { s.page with waitForNextFrame := false }
      server := { s.server with redraws := s.server.redraws + 1, todo := rest } }
  | .returnUnlessShown connectionAlive =>
    some { s with
      server := { s.server with
        todo := if connectionAlive = false ∨ s.page.surfaceAvailable = false then [] else rest } }
  | .ifDamaged =>
    if s.server.damage = true then
      some { s with server := { s.server with damage := false, todo := .drawRequested :: rest } }
    else some { s with server := { s.server with todo := rest } }
  | .drawRequested =>
    some { s with
      page := { s.page with drawRequested := true }, server := { s.server with todo := rest } }
  | .ifDrawRequested =>
    some { s with
      server := { s.server with
        todo := if s.page.drawRequested = true then [.rootWindowTextureID] else rest } }
  | .ifMoved =>
    some { s with
      server := { s.server with
        todo := if s.page.moved = true then [.rootWindowTextureID] else rest } }
  | .ifUpdated =>
    some { s with
      server := { s.server with
        todo := if s.page.updated = true then [.rootWindowTextureID] else rest } }
  | .rootWindowTextureID =>
    some { s with
      page := { s.page with rootWindowTextureID := s.server.rootRead }
      server := { s.server with todo := rest } }

/-! ## The renderer -/

/-- `rendererRedrawLocked` once the buffer is found. -/
def rendererRedrawLocked (buffer : Renderer.BufferId) : List RendererOp :=
  [.lock, .lowerDrawRequested buffer, .drawRoot buffer, .ifUpdated, .lowerMoved, .readField .width,
    .readField .height, .ifVisible,
    .waitForNextFrame, .unlock, .eglSwapBuffers, .renderedFrames]

/-- The fields as `drawCursor` reads them for the place and the size. -/
def drawCursorReads : List RendererOp :=
  [.readField .x, .readField .xhot, .readField .y, .readField .yhot, .readField .width,
    .readField .height]

def rendererOp (s : State Pixels Bits) (rest : List RendererOp) :
    RendererOp → Option (State Pixels Bits)
  | .findById =>
    some { s with renderer := { s.renderer with
      todo :=
        if s.page.rootWindowTextureID ∈ s.renderer.buffers then
          rendererRedrawLocked s.page.rootWindowTextureID
        else [] } }
  | .lock =>
    if s.page.lock = none then
      some { s with
        page := { s.page with lock := some .renderer }
        renderer := { s.renderer with todo := rest } }
    else none
  | .lowerDrawRequested _ =>
    some { s with
      page := { s.page with drawRequested := false }, renderer := { s.renderer with todo := rest } }
  | .drawRoot buffer =>
    some { s with
      renderer := { s.renderer with drawn := some (s.server.picture buffer), todo := rest } }
  | .ifUpdated =>
    some { s with renderer := { s.renderer with
      todo :=
        if s.page.updated = true then
          [.lockCursor, .lowerUpdated, .glTexImage2D, .unlockCursor] ++ rest
        else rest } }
  | .lockCursor =>
    if s.page.cursorLock = none then
      some { s with
        page := { s.page with cursorLock := some .renderer }
        renderer := { s.renderer with todo := rest } }
    else none
  | .lowerUpdated =>
    some { s with
      page := { s.page with updated := false }, renderer := { s.renderer with todo := rest } }
  | .glTexImage2D =>
    some { s with renderer := { s.renderer with texture := s.page.image, todo := rest } }
  | .unlockCursor =>
    some { s with
      page := { s.page with cursorLock := none }, renderer := { s.renderer with todo := rest } }
  | .lowerMoved =>
    some { s with
      page := { s.page with moved := false }, renderer := { s.renderer with todo := rest } }
  | .readField c =>
    some { s with renderer := { s.renderer with
      cursor := Function.update s.renderer.cursor c (s.page.cursor c), todo := rest } }
  | .ifVisible =>
    let visible := decide (s.renderer.cursor .width ≠ 0 ∧ s.renderer.cursor .height ≠ 0)
    some { s with
      renderer := { s.renderer with
        visible
        todo := if visible = true then drawCursorReads ++ rest else rest } }
  | .waitForNextFrame =>
    some { s with
      page := { s.page with waitForNextFrame := true }
      renderer := { s.renderer with frames := s.renderer.frames + 1, todo := rest } }
  | .unlock =>
    some { s with
      page := { s.page with lock := none }, renderer := { s.renderer with todo := rest } }
  | .eglSwapBuffers =>
    some { s with renderer := { s.renderer with
      frame := s.renderer.drawn.map fun root =>
        ⟨root, drawCursor s.renderer.texture s.renderer.cursor⟩
      todo := rest } }
  | .renderedFrames =>
    some { s with
      page := { s.page with renderedFrames := s.page.renderedFrames + 1 }
      renderer := { s.renderer with todo := rest } }

/-- `rendererRefreshContext`, by where it returns. -/
def rendererRefreshContext (outcome : Outcome) (s : State Pixels Bits) : State Pixels Bits :=
  let flags := outcome.write ⟨s.page.surfaceAvailable, s.page.drawRequested, s.page.updated⟩
  { s with
    page := { s.page with
      surfaceAvailable := flags.surfaceAvailable
      drawRequested := flags.drawRequested
      updated := flags.cursorUpdated }
    renderer := { s.renderer with
      surface := decide (outcome = .applied true), drawn := none, frame := none } }

/-! ## Both -/

inductive Action (Pixels Bits : Type)
  | call (c : Call Pixels Bits)
  | server
  /-- `rendererThread` looks whether it is to draw; what it reads to be so stays so until it
  draws. -/
  | redraw
  | renderer
  | rendererRefreshContext (outcome : Outcome)
  /-- The lists of buffers have changed. -/
  | buffers (buffers : List Renderer.BufferId)

def step (s : State Pixels Bits) : Action Pixels Bits → Option (State Pixels Bits)
  | .call c =>
    if s.server.todo.isEmpty = true then
      some { s with server := { s.server with todo := c.program s.server } }
    else none
  | .server =>
    match s.server.todo with
    | [] => none
    | op :: rest => serverOp s rest op
  | .redraw =>
    if s.renderer.todo = [] ∧ s.page.surfaceAvailable = true ∧ s.page.waitForNextFrame = false ∧
        (s.page.drawRequested = true ∨ s.page.moved = true ∨ s.page.updated = true) then
      some { s with renderer := { s.renderer with todo := [.findById] } }
    else none
  | .renderer =>
    match s.renderer.todo with
    | [] => none
    | op :: rest => rendererOp s rest op
  | .rendererRefreshContext outcome =>
    if s.renderer.todo = [] then some (rendererRefreshContext outcome s) else none
  | .buffers buffers => some { s with renderer := { s.renderer with buffers } }

/-- What the renderer takes over: both threads are at rest, and a frame is asked for. -/
structure Start (s : State Pixels Bits) : Prop where
  server : s.server.todo = []
  renderer : s.renderer.todo = []
  lock : s.page.lock = none
  cursorLock : s.page.cursorLock = none
  drawRequested : s.page.drawRequested = true
  updated : s.page.updated = true
  redraws : s.server.redraws = 0
  frames : s.renderer.frames = 0
  drawn : s.renderer.drawn = none
  frame : s.renderer.frame = none
  visible : s.renderer.visible = true

/-- The change is still to be reported to the renderer. -/
def Reported (s : State Pixels Bits) : Prop :=
  s.server.damage = true ∨ s.page.drawRequested = true ∨ .damage ∈ s.server.todo ∨
    .drawRequested ∈ s.server.todo

/-- The buffer of a frame that is about to take the request down. -/
def lowered : List RendererOp → Option Renderer.BufferId
  | .lowerDrawRequested buffer :: _ => some buffer
  | _ => none

/-- A frame that takes the request down is going to draw the root window's buffer, unless another
report is under way: no flip and no resize came between its search for the buffer and now, and the
buffer that `lorieRedraw` asked for was not that from before a flip it had itself told Present to
make. -/
def NotOvertaken (s : State Pixels Bits) : Action Pixels Bits → Prop
  | .renderer =>
    ∀ buffer ∈ lowered s.renderer.todo,
      buffer = s.server.root ∨ s.server.damage = true ∨ .damage ∈ s.server.todo ∨
        .drawRequested ∈ s.server.todo
  | _ => True

instance [DecidableEq Pixels] [DecidableEq Bits] (s : State Pixels Bits) :
    ∀ a, Decidable (NotOvertaken s a)
  -- By name: buffers are finitely many, and another instance would go through all of them.
  | .renderer =>
    show Decidable (∀ buffer ∈ lowered s.renderer.todo, _) from Option.decidableForallMem _
  | .call _ | .server | .redraw | .rendererRefreshContext _ | .buffers _ =>
    inferInstanceAs (Decidable True)

/-- Nothing is under way and nothing is asked for, and there is a surface to see it on. -/
structure Quiet (s : State Pixels Bits) : Prop where
  server : s.server.todo = []
  renderer : s.renderer.todo = []
  damage : s.server.damage = false
  drawRequested : s.page.drawRequested = false
  updated : s.page.updated = false
  moved : s.page.moved = false
  surface : s.renderer.surface = true

end WinEmulator.Lorie.Redraw
