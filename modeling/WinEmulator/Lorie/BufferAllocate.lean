import WinEmulator.Lorie.Pixmap

/-!
# `buffer.c`: how a buffer gets its storage

`allocate` makes every `LorieBuffer`, over memory of its own, over a mapping of a descriptor or over
an `AHardwareBuffer`. The server asks for one when a pixmap is created, and wraps the descriptor
that a client passes with a DRI3 request.
-/

set_option autoImplicit false

namespace WinEmulator.Lorie.PixmapBuffer

/-- How many bytes were allocated or mapped at each block. -/
abbrev Sizes := Block → Option UInt64

/-- The size of a page: a power of two, at most 64 KiB. -/
structure PageSize where
  bits : Nat
  bits_le : bits ≤ 16

def PageSize.bytes (page : PageSize) : Nat := 2 ^ page.bits

/-- What `AHardwareBuffer_describe` tells of a buffer. -/
structure HardwareBuffer where
  width : Int32
  height : Int32
  format : UInt8
  buffer : AHardwareBuffer width

/-- What the calls return while a buffer is made. Memory or a mapping is `none` if there is an
error. -/
structure AllocateCalls where
  page_size : PageSize
  dup : Int32 → Int32
  createRegion : UInt64 → Int32
  calloc : UInt64 → Option Block
  mmap : UInt64 → Int32 → Int64 → Option Block
  /-- The `calloc` of the `LorieBuffer` itself. -/
  calloc_buffer : Bool
  AHardwareBuffer_allocate : Int32 → Int32 → UInt8 → Option HardwareBuffer

/-- `stride * height * sizeof(uint32_t)`, a product of two `int`s turned into a `size_t`. -/
def pixelBytes (stride height : Int32) : UInt64 := (stride * height).toInt64.toUInt64 * 4

/-- The end of `allocate`: the buffer, or its memory is released. -/
def keep (calls : AllocateCalls) (sizes : Sizes) (block : Block) (size : UInt64)
    (buffer : LorieBuffer) :
    Sizes × Option LorieBuffer :=
  if calls.calloc_buffer then (Function.update sizes block (some size), some buffer)
  else (Function.update sizes block none, none)

/-- `allocate`, where `id` is the next one. A `REGULAR` buffer is only asked for with its width as
the stride. -/
def allocate (calls : AllocateCalls) (sizes : Sizes) (id : BufferId) (width stride height : Int32)
    (format type : UInt8)
    (buf : Option HardwareBuffer) (fd : Int32) (size : UInt64) (offset : Int64) (takeFd : Bool)
    (regular : BufferType.ofCode type = some .regular → stride = width) :
    Sizes × Option LorieBuffer :=
  let fd := if takeFd then fd else calls.dup fd
  if BufferType.ofCode type ≠ some .ahardwarebuffer ∧
      ¬((format = AHARDWAREBUFFER_FORMAT_B8G8R8A8_UNORM ∨
        format = AHARDWAREBUFFER_FORMAT_R8G8B8X8_UNORM) ∧
        0 < width ∧ 0 < height) then
    (sizes, none)
  else
    match htype : BufferType.ofCode type with
    | some .regular =>
      match calls.calloc (pixelBytes stride height) with
      | none => (sizes, none)
      | some data =>
        keep calls sizes data (pixelBytes stride height)
          { width, height, stride, format, type := .regular, id, buffer := none, data := some data
            locked := false, lockedData := none, fd, size, offset
            regular := fun _ => ⟨regular htype, nofun⟩ }
    | some .fd =>
      if fd < 0 then (sizes, none)
      else
        match calls.mmap size fd offset with
        | none => (sizes, none)
        | some data =>
          keep calls sizes data size
            { width, height, stride, format, type := .fd, id, buffer := none, data := some data
              locked := false, lockedData := none, fd, size, offset, regular := nofun }
    | some .ahardwarebuffer =>
      match buf with
      | none => (sizes, none)
      | some desc =>
        if calls.calloc_buffer then
          (sizes, some
            { width := desc.width, height := desc.height, stride := desc.buffer.stride
              format := desc.format, type := .ahardwarebuffer, id, buffer := some desc.buffer
              data := none, locked := false, lockedData := none, fd, size, offset
              regular := nofun })
        else (sizes, none)
    | none => (sizes, none)

def LorieBuffer_allocate (calls : AllocateCalls) (sizes : Sizes) (id : BufferId)
    (width height : Int32)
    (format type : UInt8) : Sizes × Option LorieBuffer :=
  if BufferType.ofCode type = some .fd then
    let size := UInt64.ofNat (alignToPage calls.page_size.bytes (pixelBytes width height).toNat)
    let fd := calls.createRegion size
    if fd < 0 then (sizes, none)
    else allocate calls sizes id width width height format type none fd size 0 true fun _ => rfl
  else if BufferType.ofCode type = some .ahardwarebuffer then
    allocate calls sizes id width width height format type
      (calls.AHardwareBuffer_allocate width height format) (-1) 0 0
      true fun _ => rfl
  else allocate calls sizes id width width height format type none (-1) 0 0 true fun _ => rfl

def LorieBuffer_wrapFileDescriptor (calls : AllocateCalls) (sizes : Sizes) (id : BufferId)
    (width stride height : Int32)
    (format : UInt8) (fd : Int32) (offset : Int64) : Sizes × Option LorieBuffer :=
  allocate calls sizes id width stride height format 2 none fd (pixelBytes stride height) offset
    false nofun

def LorieBuffer_wrapAHardwareBuffer (calls : AllocateCalls) (sizes : Sizes) (id : BufferId)
    (buffer : HardwareBuffer) :
    Sizes × Option LorieBuffer :=
  allocate calls sizes id 0 0 0 0 3 (some buffer) (-1) 0 0 false nofun

/-! ## DRI3 -/

def AHARDWAREBUFFER_FORMAT_R8G8B8A8_UNORM : UInt8 := 1

def AHARDWAREBUFFER_SOCKET_FD : UInt64 := 1255

def AHARDWAREBUFFER_FLIPPED_SOCKET_FD : UInt64 := 1256

def RAW_MMAPPABLE_FD : UInt64 := 1274

def DRM_FORMAT_MOD_INVALID : UInt64 := 0x00ffffffffffffff

/-- `ModifyPixmapHeader` with a size and a pitch changes those that are positive. -/
def Pixmap.modifySize (pixmap : Pixmap) (width height : UInt16) (devKind : Int32) : Pixmap :=
  let pixmap := if 0 < width then { pixmap with width } else pixmap
  let pixmap := if 0 < height then { pixmap with height } else pixmap
  pixmap.modifyHeader devKind

/-- `loriePixmapFromFds`. It is given what `CreatePixmap` returns, and the buffer that comes through
the socket when all calls up to that one succeed. -/
def loriePixmapFromFds (calls : AllocateCalls) (sizes : Sizes) (id : BufferId)
    (created : Option Pixmap)
    (received : Option HardwareBuffer) (num_fds : UInt8) (fd : Int32) (width height : UInt16)
    (stride offset : UInt32)
    (modifier : UInt64) : Sizes × Option Pixmap :=
  if 1 < num_fds then (sizes, none)
  else if modifier ≠ RAW_MMAPPABLE_FD ∧ modifier ≠ AHARDWAREBUFFER_SOCKET_FD ∧
      modifier ≠ AHARDWAREBUFFER_FLIPPED_SOCKET_FD ∧ modifier ≠ DRM_FORMAT_MOD_INVALID then
    (sizes, none)
  else
    match created with
    | none => (sizes, none)
    | some pixmap =>
      match pixmap.priv with
      | none => (sizes, none)
      | some priv =>
        let priv := { priv with imported := true }
        if modifier = DRM_FORMAT_MOD_INVALID ∨ modifier = RAW_MMAPPABLE_FD then
          match LorieBuffer_wrapFileDescriptor calls sizes id width.toUInt32.toInt32
            (stride / 4).toInt32
              height.toUInt32.toInt32 AHARDWAREBUFFER_FORMAT_B8G8R8A8_UNORM fd
                offset.toUInt64.toInt64 with
          | (sizes, none) => (sizes, none)
          | (sizes, some buffer) =>
            (sizes, some
              ({ pixmap with priv := some { priv with buffer := some buffer } }.modifySize
              width height
              stride.toInt32))
        else
          match received with
          | none => (sizes, none)
          | some desc =>
            if desc.format ≠ AHARDWAREBUFFER_FORMAT_R8G8B8X8_UNORM ∧
                desc.format ≠ AHARDWAREBUFFER_FORMAT_R8G8B8A8_UNORM ∧
                desc.format ≠ AHARDWAREBUFFER_FORMAT_B8G8R8A8_UNORM then
              (sizes, none)
            else
              match LorieBuffer_wrapAHardwareBuffer calls sizes id desc with
              | (sizes, none) => (sizes, none)
              | (sizes, some buffer) =>
                (sizes, some
                  ({ pixmap with priv := some { priv with buffer := some buffer } }.modifySize
                  desc.width.toUInt32.toUInt16 desc.height.toUInt32.toUInt16
                    (desc.buffer.stride * 4)))

end WinEmulator.Lorie.PixmapBuffer
