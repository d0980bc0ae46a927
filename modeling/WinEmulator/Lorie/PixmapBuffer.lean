import Mathlib.Logic.Function.Basic
import WinEmulator.Lib.Raster
import WinEmulator.Lorie.Registry
import WinEmulator.Lorie.SharedBuffer

/-!
# `buffer.c`: the buffer of a pixmap

The pixels of a buffer of the X server are in memory of its own, in a region that is shared by its
descriptor, or in an `AHardwareBuffer`, which has to be locked before its memory can be reached.
`LorieBuffer_convert` moves them from the first to one of the others. What the calls return that may
fail is an argument.
-/

set_option autoImplicit false

namespace WinEmulator.Lorie.PixmapBuffer

open WinEmulator.Lib

/-- Memory that was allocated or mapped at once. A pointer is `none` if it is `NULL`. -/
abbrev Block := Nat

abbrev Memory := Block → Nat → UInt32

def ENOENT : Int32 := 2

def EEXIST : Int32 := 17

def ENODEV : Int32 := 19

def AHARDWAREBUFFER_FORMAT_R8G8B8X8_UNORM : UInt8 := 2

def AHARDWAREBUFFER_FORMAT_B8G8R8A8_UNORM : UInt8 := 5

/-- A buffer that was allocated with a width, and the stride that `AHardwareBuffer_describe`
tells. -/
structure AHardwareBuffer (width : Int32) where
  block : Block
  stride : Int32
  width_le_stride : width ≤ stride

/-- `struct LorieBuffer`. A `REGULAR` one is only allocated with its width as the stride, and with
memory. -/
structure LorieBuffer where
  width : Int32
  height : Int32
  stride : Int32
  format : UInt8
  type : BufferType
  id : BufferId
  buffer : Option (AHardwareBuffer width)
  data : Option Block
  locked : Bool
  lockedData : Option Block
  fd : Int32
  size : UInt64
  offset : Int64
  regular : type = .regular → stride = width ∧ data ≠ none

/-- What `AHardwareBuffer_lock` returns, and what it writes to the pointer when it fails, if it
does. -/
structure LockResult where
  error : Int32
  written : Option (Option Block)

/-- The results of the calls in `LorieBuffer_convert`. A mapping or a buffer is `none` if there is
an error. -/
structure Calls (width : Int32) where
  page_size : Nat
  createRegion : Int32
  mmap : Option Block
  AHardwareBuffer_allocate : Option (AHardwareBuffer width)
  AHardwareBuffer_lock : LockResult
  pixman_blt : Bool

def AHardwareBuffer_lock {width : Int32} (result : LockResult)
    (buffer : Option (AHardwareBuffer width))
    (out : Option Block) : Int32 × Option Block :=
  (result.error,
    if result.error = 0 then buffer.map AHardwareBuffer.block else result.written.getD out)

/-- `pixman_blt` for all of an image with 32 bits a pixel, which is copied if it returns `TRUE`. -/
def pixman_blt (done : Bool) (memory : Memory) (src dst : Option Block)
    (src_stride dst_stride width height : Int32) :
    Memory :=
  match src, dst with
  | some src, some dst =>
    if done then
      Function.update memory dst (Raster.copyRows (memory src) (memory dst) src_stride.toNatClampNeg
        dst_stride.toNatClampNeg width.toNatClampNeg height.toNatClampNeg)
    else memory
  | _, _ => memory

/-- `LorieBuffer_convert`, for a buffer that is not `NULL`. -/
def LorieBuffer_convert (memory : Memory) (buffer : LorieBuffer) (calls : Calls buffer.width)
    (type format : UInt8) :
    Memory × LorieBuffer :=
  if buffer.type ≠ .regular ∨
      (BufferType.ofCode type ≠ some .fd ∧ BufferType.ofCode type ≠ some .ahardwarebuffer) ∨
      (format ≠ AHARDWAREBUFFER_FORMAT_R8G8B8X8_UNORM ∧
        format ≠ AHARDWAREBUFFER_FORMAT_B8G8R8A8_UNORM) then
    (memory, buffer)
  else if BufferType.ofCode type = some .fd then
    let bytes : UInt64 := (buffer.stride * buffer.height).toInt64.toUInt64 * 4
    let size : UInt64 := UInt64.ofNat (alignToPage calls.page_size bytes.toNat)
    let fd := calls.createRegion
    if fd < 0 then (memory, buffer)
    else
      match calls.mmap with
      | none => (memory, buffer)
      | some data =>
        (pixman_blt calls.pixman_blt memory buffer.data (some data) buffer.stride buffer.stride
          buffer.width buffer.height,
          { buffer with
            type := .fd
            format
            fd
            size
            offset := 0
            data := some data
            lockedData := none
            locked := false
            regular := nofun })
  else
    match calls.AHardwareBuffer_allocate with
    | none => (memory, buffer)
    | some b =>
      let (err, data) := AHardwareBuffer_lock calls.AHardwareBuffer_lock (some b) none
      (if err = 0 then
          pixman_blt calls.pixman_blt memory buffer.data data buffer.stride b.stride buffer.width
            buffer.height
        else memory,
        { buffer with
          type := .ahardwarebuffer
          format
          stride := b.stride
          buffer := some b
          data := none
          lockedData := none
          locked := false
          regular := nofun })

/-- `LorieBuffer_lock` returns an error and what is in `*out`. -/
def LorieBuffer_lock (result : LockResult) (buffer : Option LorieBuffer) (out : Option Block) :
    Int32 × Option LorieBuffer × Option Block :=
  match buffer with
  | none => (ENODEV, none, out)
  | some b =>
    if b.locked then (EEXIST, some b, b.lockedData)
    else
      let (ret, lockedData) :=
        match b.type with
        | .regular | .fd => (0, b.data)
        | .ahardwarebuffer => AHardwareBuffer_lock result b.buffer b.lockedData
      (ret, some { b with lockedData, locked := true }, lockedData)

/-- `LorieBuffer_unlock`, with what `AHardwareBuffer_unlock` returns. -/
def LorieBuffer_unlock (result : Int32) (buffer : Option LorieBuffer) :
    Int32 × Option LorieBuffer :=
  match buffer with
  | none => (ENODEV, none)
  | some b =>
    if !b.locked then (ENOENT, some b)
    else
      let ret := if b.type = .ahardwarebuffer then result else 0
      (ret, some { b with lockedData := none, locked := false })

end WinEmulator.Lorie.PixmapBuffer
