import WinEmulator.Lorie.PixmapBuffer

/-!
# `InitOutput.c`: pixmaps and their buffers

What the server does with the buffer of a pixmap: it locks it while EXA accesses the pixels, and
makes it one that the activity can show when a client flips to it. EXA calls `lorieFinishAccess` if
`loriePrepareAccess` returned `TRUE`.
-/

set_option autoImplicit false

namespace WinEmulator.Lorie.PixmapBuffer

open WinEmulator.Lib

def EXA_PREPARE_DEST : Int32 := 0

structure LoriePixmapPriv where
  buffer : Option LorieBuffer
  wasLocked : Bool
  imported : Bool
  locked : Option Block
  mem : Option Block

/-- What is touched when the pixels of a pixmap are accessed. -/
structure Access where
  /-- How many times the server has locked `state->lock`. -/
  lock : Nat
  priv : LoriePixmapPriv
  /-- `pPix->devPrivate.ptr`. -/
  ptr : Option Block

def loriePrepareAccess (result : LockResult) (index : Int32) (isScreenPixmap : Bool) (s : Access) :
    Bool × Access :=
  let s := if index = EXA_PREPARE_DEST ∧ isScreenPixmap then { s with lock := s.lock + 1 } else s
  if s.priv.locked = none ∧ s.priv.mem = none then
    let (err, buffer, locked) := LorieBuffer_lock result s.priv.buffer s.priv.locked
    let priv := { s.priv with buffer, locked }
    if err ≠ 0 then (false, { s with priv })
    else (true, { s with priv := { priv with wasLocked := false }, ptr := priv.locked.or priv.mem })
  else (true, { s with
    priv := { s.priv with wasLocked := true }, ptr := s.priv.locked.or s.priv.mem })

def lorieFinishAccess (result : Int32) (index : Int32) (isScreenPixmap : Bool) (s : Access) :
    Access :=
  let s := if index = EXA_PREPARE_DEST ∧ isScreenPixmap then { s with lock := s.lock - 1 } else s
  if s.priv.wasLocked then s
  else
    let buffer := (LorieBuffer_unlock result s.priv.buffer).2
    { s with priv := { s.priv with buffer, locked := none, wasLocked := false } }

/-- `pvfb->root`. -/
structure Root where
  width : UInt32
  height : UInt32
  legacyDrawing : Bool
  flip : Bool

/-- A pixmap with its driver private. -/
structure Pixmap where
  width : UInt16
  height : UInt16
  devKind : Int32
  priv : Option LoriePixmapPriv

/-- What is touched when a client flips to a pixmap. -/
structure Flip where
  memory : Memory
  registry : Registry
  pixmap : Pixmap

/-- The type that is shown in the place of `REGULAR`. -/
def Root.type (root : Root) : UInt8 := if root.legacyDrawing then 2 else 3

def Root.format (root : Root) : UInt8 :=
  if root.flip then AHARDWAREBUFFER_FORMAT_R8G8B8X8_UNORM else AHARDWAREBUFFER_FORMAT_B8G8R8A8_UNORM

/-- `ModifyPixmapHeader` with nothing but a positive `devKind` changes that. -/
def Pixmap.modifyHeader (pixmap : Pixmap) (devKind : Int32) : Pixmap :=
  if 0 < devKind then { pixmap with devKind } else pixmap

/-- The conversion in `loriePresentFlip`, and the buffer after it. -/
def convertPixmap (root : Root) (calls : (width : Int32) → Calls width) (result : LockResult)
    (s : Flip)
    (priv : LoriePixmapPriv) (buffer : LorieBuffer) : Flip × LorieBuffer :=
  let (memory, buffer) :=
    LorieBuffer_convert s.memory buffer (calls buffer.width) root.type root.format
  if buffer.type ≠ .regular then
    let pixmap := s.pixmap.modifyHeader (buffer.stride * 4)
    let (_, locked_buffer, locked) := LorieBuffer_lock result (some buffer) priv.locked
    let priv := { priv with buffer := locked_buffer, locked }
    ({ s with memory, pixmap := { pixmap with priv := some priv } }, buffer)
  else
    let priv := { priv with buffer := some buffer }
    ({ s with memory, pixmap := { s.pixmap with priv := some priv } }, buffer)

/-- `loriePresentFlip`. The height is compared with the width, as in the source. -/
def loriePresentFlip (root : Root) (forceFlip : Option (List Char))
    (calls : (width : Int32) → Calls width)
    (result : LockResult) (s : Flip) : Bool × Flip :=
  match s.pixmap.priv with
  | none => (false, s)
  | some priv =>
    match priv.buffer with
    | none => (false, s)
    | some buffer =>
      if priv.mem ≠ none ∨ root.width ≠ s.pixmap.width.toUInt32 ∨
        root.width ≠ s.pixmap.height.toUInt32 then (false, s)
      else if buffer.type = .fd ∧ priv.imported ∧ ¬forceFlip = some ['1'] then (false, s)
      else
        let (s, buffer) :=
          if buffer.type = .regular then convertPixmap root calls result s priv buffer
          else (s, buffer)
        if buffer.type ≠ .fd ∧ buffer.type ≠ .ahardwarebuffer then (false, s)
        else (true, { s with registry := s.registry.lorieRegisterBuffer buffer.id })

end WinEmulator.Lorie.PixmapBuffer
