import WinEmulator.Lib.Image
import WinEmulator.Lib.Socket

/-!
# `buffer.c`: the shared buffer and its passage through a socket

`struct LorieBuffer` crosses the socket as its raw memory, 120 bytes on `arm64-v8a`, followed by the
handle of the memory behind it: one byte with a descriptor for an `FD` buffer, and whatever the NDK
writes for an `AHardwareBuffer`. The receiver reads the struct first and lets its `desc.type` say
which handle follows.

The NDK's own two functions are outside this repository. `HardwareTransport` is what the code relies
on of them: a handle received is the one sent, and it takes exactly the bytes its sending took.
-/

set_option autoImplicit false

namespace WinEmulator.Lorie

open WinEmulator.Lib

/-- An open file, as the kernel tells descriptors of different processes apart. -/
abbrev Fd := Nat

/-- The buffer types of `buffer.h`; `LORIEBUFFER_UNKNOWN` is 0. -/
inductive BufferType
  | regular
  | fd
  | ahardwarebuffer
deriving DecidableEq, Repr

/-- `desc.type`, for the values `allocate` lets through. -/
def BufferType.ofCode (c : UInt8) : Option BufferType :=
  match c.toNat with
  | 1 => some .regular
  | 2 => some .fd
  | 3 => some .ahardwarebuffer
  | _ => none

theorem BufferType.code_of_regular {c : UInt8} (h : BufferType.ofCode c = some .regular) :
    c = 1 := by
  unfold BufferType.ofCode at h
  split at h
  next hc => exact UInt8.toNat_inj.mp hc
  all_goals cases h

/-- `sizeof(LorieBuffer)`. -/
def sizeofLorieBuffer : Nat := 120

/-- The memory of a `struct LorieBuffer`. -/
abbrev BufferImage := Image sizeofLorieBuffer

/-- `desc.type`, at the offset of `desc` (8) plus the offset of `type` in it (13). -/
def BufferImage.type (i : BufferImage) : Option BufferType := BufferType.ofCode (i.read UInt8 21)

/-- `desc.id`. -/
def BufferImage.id (i : BufferImage) : UInt64 := i.read UInt64 24

/-- A buffer of the server: its struct, and the memory objects its `fd` and `desc.buffer` name.
`allocate` builds no buffer of another type. -/
structure LorieBuffer (HardwareBuffer : Type) where
  image : BufferImage
  fd : Fd
  buffer : HardwareBuffer
  type_known : image.type ≠ none

/-- The handle that follows the struct on the socket. -/
inductive Handle (HardwareBuffer : Type)
  | none
  | fd (fd : Fd)
  | hardware (buffer : HardwareBuffer)
deriving DecidableEq

/-- The handle `LorieBuffer_sendHandleToUnixSocket` sends: the one its type selects. -/
def LorieBuffer.handle {HardwareBuffer : Type} (b : LorieBuffer HardwareBuffer) :
    Handle HardwareBuffer :=
  match b.image.type with
  | some .fd => .fd b.fd
  | some .ahardwarebuffer => .hardware b.buffer
  | _ => .none

/-- Only a `REGULAR` buffer travels without a handle. -/
theorem LorieBuffer.type_of_handle_none {HardwareBuffer : Type} {b : LorieBuffer HardwareBuffer}
    (h : b.handle = .none) : b.image.type = some .regular := by
  unfold LorieBuffer.handle at h
  cases ht : b.image.type with
  | none => exact absurd ht b.type_known
  | some t =>
    cases t with
    | regular => rfl
    | fd => simp only [ht, reduceCtorEq] at h
    | ahardwarebuffer => simp only [ht, reduceCtorEq] at h

/-- `AHardwareBuffer_sendHandleToUnixSocket` and `AHardwareBuffer_recvHandleFromUnixSocket`. A
receive blocks on an empty socket; one that cannot make sense of what it read returns no handle. -/
structure HardwareTransport (HardwareBuffer : Type) where
  send : HardwareBuffer → List (Cell Fd)
  recv : List (Cell Fd) → Option (Option HardwareBuffer × List (Cell Fd))
  recv_send : ∀ b rest, recv (send b ++ rest) = some (some b, rest)
  recv_length : ∀ {s b rest}, recv s = some (some b, rest) →
    s.length = (send b).length + rest.length
  recv_suffix : ∀ {s r rest}, recv s = some (r, rest) → rest <:+ s
  recv_nil : recv [] = none

/-- A transport that passes the handle as one descriptor. -/
def HardwareTransport.ofFd : HardwareTransport Fd where
  send b := [⟨0, some b⟩]
  recv
    | [] => none
    | c :: s => some (c.fd, s)
  recv_send _ _ := rfl
  recv_length := by
    intro s b rest h
    cases s with
    | nil => cases h
    | cons c s =>
      simp only [Option.some.injEq, Prod.mk.injEq] at h
      rw [h.2, List.length_cons, List.length_singleton, Nat.add_comm]
  recv_suffix := by
    intro s r rest h
    cases s with
    | nil => cases h
    | cons c s =>
      simp only [Option.some.injEq, Prod.mk.injEq] at h
      rw [← h.2]
      exact List.suffix_cons c s
  recv_nil := rfl

section

variable {HardwareBuffer : Type} (ndk : HardwareTransport HardwareBuffer)

/-- `ancil_send_fd`: the byte `!` with the descriptor attached. -/
def ancil_send_fd (fd : Fd) : List (Cell Fd) := [⟨33, some fd⟩]

/-- `LorieBuffer_sendHandleToUnixSocket`. -/
def LorieBuffer_sendHandleToUnixSocket (b : LorieBuffer HardwareBuffer) : List (Cell Fd) :=
  Socket.cells b.image.bytes ++
    match b.image.type with
    | some .fd => ancil_send_fd b.fd
    | some .ahardwarebuffer => ndk.send b.buffer
    | _ => []

/-- The local `LorieBuffer buffer` of the receiver before the read: zeros, then `fd = -1` and a
reference count of 1. -/
def recvTemplate : BufferImage :=
  ((Image.zero sizeofLorieBuffer).write 0 (1 : UInt16) (by decide)).write
    64 (0xFFFFFFFF : UInt32) (by decide)

/-- What `read(socketFd, &buffer, sizeof(buffer))` leaves in `buffer` when it returned `got`. -/
def recvImage (got : List UInt8) (h : got.length ≤ sizeofLorieBuffer) : BufferImage where
  bytes := got ++ recvTemplate.bytes.drop got.length
  length_eq := by
    rw [List.length_append, List.length_drop, recvTemplate.length_eq]
    omega

/-- `LorieBuffer_recvHandleFromUnixSocket`, up to the point where the handle is in hand: the struct
as it was read and the handle, or `none` for `*outBuffer = NULL`. What follows in the source
(mapping the descriptor, clearing the members that are local to the process) reads nothing more. -/
def LorieBuffer_recvHandleFromUnixSocket (s : List (Cell Fd)) :
    Option (Option (BufferImage × Handle HardwareBuffer) × List (Cell Fd)) :=
  match Socket.read sizeofLorieBuffer s with
  | none => none
  | some (got, s') =>
    if h : got.length ≤ sizeofLorieBuffer then
      let image := recvImage got h
      match image.type with
      | some .fd =>
        match Socket.recvFd s' with
        | none => none
        | some (none, s'') => some (none, s'')
        | some (some fd, s'') => some (some (image, .fd fd), s'')
      | some .ahardwarebuffer =>
        match ndk.recv s' with
        | none => none
        | some (none, s'') => some (some (image, .none), s'')
        | some (some b, s'') => some (some (image, .hardware b), s'')
      | _ => some (some (image, .none), s')
    else none

/-- The bytes a handle takes on the socket. -/
def Handle.wireSize : Handle HardwareBuffer → Nat
  | .none => 0
  | .fd _ => 1
  | .hardware b => (ndk.send b).length

/-- A sent buffer takes the bytes of its struct and of its handle. -/
theorem sendHandle_length (b : LorieBuffer HardwareBuffer) :
    (LorieBuffer_sendHandleToUnixSocket ndk b).length
      = sizeofLorieBuffer + b.handle.wireSize ndk := by
  unfold LorieBuffer_sendHandleToUnixSocket LorieBuffer.handle
  rw [List.length_append, Socket.cells_length, b.image.length_eq]
  cases b.image.type with
  | none => rfl
  | some t => cases t <;> rfl

/-- A buffer without a handle is sent as its struct alone. -/
theorem sendHandle_of_handle_none {b : LorieBuffer HardwareBuffer} (h : b.handle = .none) :
    LorieBuffer_sendHandleToUnixSocket ndk b = Socket.cells b.image.bytes := by
  unfold LorieBuffer_sendHandleToUnixSocket
  rw [LorieBuffer.type_of_handle_none h]
  exact List.append_nil _

/-- A read that returned the whole struct leaves exactly it. -/
theorem recvImage_full (i : BufferImage) (h : i.bytes.length ≤ sizeofLorieBuffer) :
    recvImage i.bytes h = i := by
  apply Image.ext_bytes
  show i.bytes ++ recvTemplate.bytes.drop i.bytes.length = i.bytes
  rw [i.length_eq, List.drop_eq_nil_of_le (by rw [recvTemplate.length_eq]), List.append_nil]

/-- A buffer that was sent is received with its struct and its handle, and nothing after it is
touched. -/
theorem recvHandle_sendHandle (b : LorieBuffer HardwareBuffer) (rest : List (Cell Fd)) :
    LorieBuffer_recvHandleFromUnixSocket ndk (LorieBuffer_sendHandleToUnixSocket ndk b ++ rest)
      = some (some (b.image, b.handle), rest) := by
  have hread : Socket.read sizeofLorieBuffer (LorieBuffer_sendHandleToUnixSocket ndk b ++ rest)
      = some (b.image.bytes, (match b.image.type with
        | some .fd => ancil_send_fd b.fd
        | some .ahardwarebuffer => ndk.send b.buffer
        | _ => []) ++ rest) := by
    unfold LorieBuffer_sendHandleToUnixSocket
    rw [List.append_assoc]
    exact Socket.read_cells_of_length b.image.length_eq _
  have hlen : b.image.bytes.length ≤ sizeofLorieBuffer := Nat.le_of_eq b.image.length_eq
  unfold LorieBuffer_recvHandleFromUnixSocket LorieBuffer.handle
  rw [hread]
  simp only [dif_pos hlen, recvImage_full]
  cases ht : b.image.type with
  | none => rfl
  | some t =>
    cases t with
    | regular => rfl
    | fd => rfl
    | ahardwarebuffer => simp only [ndk.recv_send]

/-- Everything a receive can have done: what it read of the struct, and for each type what it then
did about the handle. -/
theorem recvHandle_cases {s s' : List (Cell Fd)} {r : Option (BufferImage × Handle HardwareBuffer)}
    (h : LorieBuffer_recvHandleFromUnixSocket ndk s = some (r, s')) :
    ∃ got mid, Socket.read sizeofLorieBuffer s = some (got, mid) ∧
      ∃ hlen : got.length ≤ sizeofLorieBuffer,
        (r = none ∧ Socket.recvFd mid = some (none, s')) ∨
        (∃ fd, r = some (recvImage got hlen, .fd fd) ∧ Socket.recvFd mid = some (some fd, s')) ∨
        (r = some (recvImage got hlen, .none) ∧ ndk.recv mid = some (none, s')) ∨
        (∃ b, r = some (recvImage got hlen, .hardware b) ∧ ndk.recv mid = some (some b, s')) ∨
        (r = some (recvImage got hlen, .none) ∧ s' = mid) := by
  unfold LorieBuffer_recvHandleFromUnixSocket at h
  split at h
  · cases h
  next got mid hread =>
    obtain ⟨-, -, -, hlen, -⟩ := Socket.read_spec hread
    refine ⟨got, mid, hread, hlen, ?_⟩
    simp only [dif_pos hlen] at h
    split at h
    · split at h
      · cases h
      next hrecv =>
        cases h
        exact .inl ⟨rfl, hrecv⟩
      next fd _ hrecv =>
        cases h
        exact .inr (.inl ⟨fd, rfl, hrecv⟩)
    · split at h
      · cases h
      next hrecv =>
        cases h
        exact .inr (.inr (.inl ⟨rfl, hrecv⟩))
      next b _ hrecv =>
        cases h
        exact .inr (.inr (.inr (.inl ⟨b, rfl, hrecv⟩)))
    · cases h
      exact .inr (.inr (.inr (.inr ⟨rfl, rfl⟩)))

end

end WinEmulator.Lorie
