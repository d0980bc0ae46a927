import WinEmulator.Lorie.Buffer

/-!
# `buffer.c`: what the activity makes of a buffer it receives

`LorieBuffer_recvHandleFromUnixSocket` goes on after it has read a struct and its handle: it maps
the memory of an `FD` buffer and copies the struct to the heap. Any call in it may fail. `Faults`
says which ones do; the struct, which was written at once, is read as a whole or not at all.

Numbers that mean something in one process only (`fd`, `desc.data`, `desc.buffer`) stand for what
they name, beside the struct.
-/

set_option autoImplicit false

namespace WinEmulator.Lorie

open WinEmulator.Lib

namespace BufferImage

def refcount (i : BufferImage) : Int16 := i.read Int16 0

def width (i : BufferImage) : Int32 := i.read Int32 8

def height (i : BufferImage) : Int32 := i.read Int32 12

def stride (i : BufferImage) : Int32 := i.read Int32 16

def format (i : BufferImage) : UInt8 := i.read UInt8 20

def locked (i : BufferImage) : Int8 := i.read Int8 48

def lockedData (i : BufferImage) : UInt64 := i.read UInt64 56

def size (i : BufferImage) : UInt64 := i.read UInt64 72

def offset (i : BufferImage) : Int64 := i.read Int64 80

/-- `desc.stride * desc.height * sizeof(uint32_t)`, a product of two `int`s turned into a
`size_t`. -/
def pixelBytes (i : BufferImage) : UInt64 := (i.stride * i.height).toInt64.toUInt64 * 4

/-- `buffer.image = NULL`. -/
def withoutEGLImage (i : BufferImage) : BufferImage := i.write 96 (0 : UInt64) (by decide)

end BufferImage

/-- The pages are of a size that is a power of two. -/
def alignToPage (pageSize size : Nat) : Nat := (size + pageSize - 1) / pageSize * pageSize

/-- The bytes of a file that are mapped. -/
structure Mapping where
  fd : Fd
  offset : Int64
  size : Nat
deriving DecidableEq

/-- `mmap` maps whole pages. -/
def mmap (pageSize : Nat) (fd : Fd) (size : UInt64) (offset : Int64) : Mapping :=
  ⟨fd, offset, alignToPage pageSize size.toNat⟩

/-- A buffer that is shared, as `allocate`, `LorieBuffer_convert`, `LorieBuffer_lock` and
`LorieBuffer_unlock` leave it: a buffer that is not locked has no `lockedData`, and the size of an
`FD` buffer is that of its pixels, rounded up to pages unless the descriptor was passed in. -/
structure SharedBuffer (HardwareBuffer : Type)
    (pageSize : Nat) extends LorieBuffer HardwareBuffer where
  shared : image.type = some .fd ∨ image.type = some .ahardwarebuffer
  unlocked : image.locked = 0 → image.lockedData = 0
  sized : image.type = some .fd → image.size = image.pixelBytes ∨
    image.size.toNat = alignToPage pageSize image.pixelBytes.toNat

/-- The calls of the receiver that fail. -/
structure Faults where
  read : Bool
  recvmsg : Bool
  mmap : Bool
  hardware : Bool
  calloc : Bool

/-- A buffer of the activity. -/
structure ReceivedBuffer (HardwareBuffer : Type) where
  image : BufferImage
  fd : Option Fd
  buffer : Option HardwareBuffer
  data : Option Mapping

section

variable {HardwareBuffer : Type} (ndk : HardwareTransport HardwareBuffer) (pageSize : Nat)
  (f : Faults)

/-- The struct and the handle in hand, or `none` where `*outBuffer` is set to `NULL`. -/
def recvStructAndHandle (s : List (Cell Fd)) :
    Option (Option (BufferImage × Handle HardwareBuffer)) :=
  if f.read then some (some (recvTemplate, .none))
  else
    match LorieBuffer_recvHandleFromUnixSocket ndk s with
    | none => none
    | some (none, _) => some none
    | some (some (image, .fd fd), _) => some (if f.recvmsg then none else some (image, .fd fd))
    | some (some (image, .hardware b), _) =>
      some (some (image, if f.hardware then .none else .hardware b))
    | some (some (image, .none), _) => some (some (image, .none))

/-- From `calloc` on. What was in `*outBuffer` stays there when it fails: the source sets its own
copy of the pointer. -/
def toHeap (outBuffer : Option (ReceivedBuffer HardwareBuffer))
    (buffer : ReceivedBuffer HardwareBuffer) :
    Option (ReceivedBuffer HardwareBuffer) :=
  if f.calloc then outBuffer else some buffer

/-- `LorieBuffer_recvHandleFromUnixSocket`: what is in `*outBuffer` when it returns. -/
def recvBuffer (s : List (Cell Fd)) (outBuffer : Option (ReceivedBuffer HardwareBuffer)) :
    Option (Option (ReceivedBuffer HardwareBuffer)) :=
  (recvStructAndHandle ndk f s).map fun
    | none => none
    | some (image, .fd fd) =>
      if f.mmap then none
      else
        toHeap f outBuffer
          ⟨image.withoutEGLImage, some fd, none, some (mmap pageSize fd image.pixelBytes 0)⟩
    | some (image, .hardware b) => toHeap f outBuffer ⟨image.withoutEGLImage, none, some b, none⟩
    | some (image, .none) => toHeap f outBuffer ⟨image.withoutEGLImage, none, none, none⟩

end

end WinEmulator.Lorie
