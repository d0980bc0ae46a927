import WinEmulator.Lib.Machine
import WinEmulator.Lib.Rings

/-!
# `renderer.c`: the buffers between the GUI thread and the renderer thread

A buffer the X server shares is added on the GUI thread, attached to GL on the renderer thread, and
removed on the GUI thread at any time in between. What one thread does under `bufferLock` is one
step here, and so is each way of the renderer thread from one such section to the next. Only the
buffer that `rendererRedrawLocked` chose outlives a section.

A buffer is named by its id. `releases` records every call of `LorieBuffer_release` with the thread
that made it, and `freed` the calls of `__LorieBuffer_free`.
-/

set_option autoImplicit false

namespace WinEmulator.Lorie.Renderer

open WinEmulator.Lib
open WinEmulator.Lib.Rings (Links Node)

abbrev BufferId := UInt64

inductive BufferList
  | addedBuffers
  | buffers
  | removedBuffers
deriving DecidableEq

inductive Thread
  | gui
  | renderer
deriving DecidableEq

/-- Where `rendererThread` is. -/
inductive At
  /-- Before it attaches the pending buffers. -/
  | iteration
  | attached
  /-- In `rendererRedrawLocked`, with the buffer it chose. -/
  | redrawing (buffer : BufferId)
  | redrawn
deriving DecidableEq

structure State where
  links : Links BufferList BufferId
  refcount : BufferId → Int16
  /-- The buffers the GUI thread received. -/
  received : List BufferId
  /-- The buffers `LorieBuffer_attachToGL` was called for. -/
  attachedToGL : List BufferId
  releases : List (BufferId × Thread)
  freed : List BufferId
  waitingForBuffers : Bool
  pc : At

/-- After `rendererInitThread`. -/
def start : State where
  links := .alone
  refcount _ := 0
  received := []
  attachedToGL := []
  releases := []
  freed := []
  waitingForBuffers := false
  pc := .iteration

/-! ## `buffer.c` -/

def LorieBufferList_first (list : BufferList) (s : State) : Option BufferId := s.links.first list

/-- No list is longer than what was received. -/
def LorieBufferList_findById (list : BufferList) (id : BufferId) (s : State) : Option BufferId :=
  s.links.findFrom (· == id) s.received.length (s.links.next (.head list))

def LorieBuffer_removeFromList (buffer : BufferId) (s : State) : State :=
  { s with links := s.links.del buffer }

def LorieBuffer_addToList (buffer : BufferId) (list : BufferList) (s : State) : State :=
  { s with links := (s.links.del buffer).add buffer list }

def LorieBuffer_attachToGL (buffer : BufferId) (s : State) : State :=
  { s with attachedToGL := buffer :: s.attachedToGL }

def LorieBuffer_free (buffer : BufferId) (s : State) : State :=
  { s with links := s.links.del buffer, freed := buffer :: s.freed }

def LorieBuffer_release (thread : Thread) (buffer : BufferId) (s : State) : State :=
  let counted := { s with
    refcount := Function.update s.refcount buffer (s.refcount buffer - 1)
    releases := (buffer, thread) :: s.releases }
  if s.refcount buffer = 1 then LorieBuffer_free buffer counted else counted

/-- What `LorieBuffer_recvHandleFromUnixSocket` leaves of a buffer that is to be added. -/
def received (buffer : BufferId) (s : State) : State :=
  { s with
    links := s.links.init (.item buffer)
    refcount := Function.update s.refcount buffer 1
    received := buffer :: s.received }

/-! ## The GUI thread -/

/-- A loop over the first buffer of a list, which does not go round more often than there are
buffers. -/
def whileFirst (list : BufferList) (body : BufferId → State → State) : Nat → State → State
  | 0, s => s
  | fuel + 1, s =>
    match LorieBufferList_first list s with
    | none => s
    | some buf => whileFirst list body fuel (body buf s)

def rendererAddBuffer (buf : BufferId) (s : State) : State :=
  LorieBuffer_addToList buf .addedBuffers s

/-- A buffer is taken off `buffers` to be released on the renderer thread. -/
def retire (buf : BufferId) (s : State) : State :=
  LorieBuffer_addToList buf .removedBuffers (LorieBuffer_removeFromList buf s)

def rendererRemoveBuffer (id : BufferId) (s : State) : State :=
  match LorieBufferList_findById .addedBuffers id s with
  | some buf => LorieBuffer_release .gui buf s
  | none =>
    match LorieBufferList_findById .buffers id s with
    | some buf => retire buf s
    | none => s

def rendererRemoveAllBuffers (s : State) : State :=
  let pending := whileFirst .addedBuffers (LorieBuffer_release .gui) s.received.length s
  whileFirst .buffers retire s.received.length pending

/-! ## The renderer thread -/

/-- The body of the loop that attaches the pending buffers. -/
def attach (buf : BufferId) (s : State) : State :=
  { LorieBuffer_addToList buf .buffers (LorieBuffer_attachToGL buf s) with
    waitingForBuffers := false }

def attachPending (s : State) : State :=
  { whileFirst .addedBuffers attach s.received.length s with pc := .attached }

/-- `rendererRedrawLocked` up to where it unlocks `bufferLock`. -/
def rendererRedrawLocked (rootWindowTextureID : BufferId) (s : State) : State :=
  match (LorieBufferList_findById .buffers rootWindowTextureID s).or
      (LorieBufferList_findById .removedBuffers rootWindowTextureID s) with
  | some buffer => { s with pc := .redrawing buffer }
  | none => { s with waitingForBuffers := true, pc := .redrawn }

def releaseRemoved (s : State) : State :=
  { whileFirst .removedBuffers (LorieBuffer_release .renderer) s.received.length s with
    pc := .iteration }

/-! ## Steps -/

inductive Action
  /-- `EVENT_ADD_BUFFER`. -/
  | addBuffer (buf : BufferId)
  | removeBuffer (id : BufferId)
  | removeAllBuffers
  | attachPending
  | redraw (rootWindowTextureID : BufferId)
  /-- The return of `rendererRedrawLocked`. -/
  | redrawn
  | releaseRemoved
deriving DecidableEq

/-- Ids are distinct, and the renderer thread takes its sections in turn. -/
def step (s : State) : Action → Option State
  | .addBuffer buf =>
    if buf ∈ s.received then none else some (rendererAddBuffer buf (received buf s))
  | .removeBuffer id => some (rendererRemoveBuffer id s)
  | .removeAllBuffers => some (rendererRemoveAllBuffers s)
  | .attachPending => if s.pc = .iteration then some (attachPending s) else none
  | .redraw rootWindowTextureID =>
    if s.pc = .attached then some (rendererRedrawLocked rootWindowTextureID s) else none
  | .redrawn =>
    match s.pc with
    | .redrawing _ => some { s with pc := .redrawn }
    | _ => none
  | .releaseRemoved => if s.pc = .attached ∨ s.pc = .redrawn then some (releaseRemoved s) else none

end WinEmulator.Lorie.Renderer
