import Mathlib.Data.List.Basic

/-!
# A stream socket that passes descriptors

What an `AF_UNIX` stream socket holds, in order: bytes, some of them with a descriptor attached (the
`SCM_RIGHTS` message whose data byte it is). `read` and `recvFd` are the two calls a receiver makes
on it. Both block on an empty socket, and a receiver that blocks with nobody left to write never
returns: that is the `none` of their result.

`read_cells` is the call the protocols are written for: it asks for exactly the bytes at the front.
`read_spec` says what every other call can do.
-/

set_option autoImplicit false

namespace WinEmulator.Lib

/-- A byte in flight, and the descriptor that travels with it, if one does. -/
structure Cell (Fd : Type) where
  byte : UInt8
  fd : Option Fd
deriving DecidableEq

namespace Socket

variable {Fd : Type}

/-- What `write` puts on the socket: bytes, with no descriptor. -/
def cells (bytes : List UInt8) : List (Cell Fd) := bytes.map (⟨·, none⟩)

/-- `read(fd, buf, n)` on a blocking socket: what is there, up to `n` bytes; it waits only when
nothing is there. A descriptor attached to a byte read this way is dropped. -/
def read (n : Nat) (s : List (Cell Fd)) : Option (List UInt8 × List (Cell Fd)) :=
  if n = 0 then some ([], s)
  else if s.isEmpty then none
  else some ((s.take n).map Cell.byte, s.drop n)

/-- `recvmsg` for one byte and the descriptor attached to it. -/
def recvFd : List (Cell Fd) → Option (Option Fd × List (Cell Fd))
  | [] => none
  | c :: s => some (c.fd, s)

@[simp] theorem cells_length (bytes : List UInt8) :
    (cells bytes : List (Cell Fd)).length = bytes.length :=
  List.length_map _

theorem cells_byte (bytes : List UInt8) : (cells bytes : List (Cell Fd)).map Cell.byte = bytes := by
  unfold cells
  rw [List.map_map]
  exact List.map_id bytes

/-- Asking for the bytes at the front returns them and leaves what follows. -/
theorem read_cells (bytes : List UInt8) (rest : List (Cell Fd)) :
    read bytes.length (cells bytes ++ rest) = some (bytes, rest) := by
  unfold read
  cases bytes with
  | nil => rfl
  | cons b bs =>
    have hlen : (cells (b :: bs) : List (Cell Fd)).length = (b :: bs).length := cells_length _
    rw [if_neg (by simp only [List.length_cons]; omega), if_neg (by simp [cells]),
      List.take_left' hlen, List.drop_left' hlen, cells_byte]

theorem read_cells_of_length {bytes : List UInt8} {n : Nat} (hn : bytes.length = n)
    (rest : List (Cell Fd)) : read n (cells bytes ++ rest) = some (bytes, rest) :=
  hn ▸ read_cells bytes rest

/-- Asking for more than the socket holds returns all it holds. -/
theorem read_cells_all {bytes : List UInt8} {n : Nat} (hn : bytes.length ≤ n) (hne : bytes ≠ []) :
    read n (cells bytes : List (Cell Fd)) = some (bytes, []) := by
  have hpos := List.length_pos_iff.mpr hne
  have hlen : (cells bytes : List (Cell Fd)).length ≤ n := by rw [cells_length]; exact hn
  unfold read
  rw [if_neg (by omega), if_neg (by simpa [cells] using hne), List.take_of_length_le hlen,
    List.drop_eq_nil_of_le hlen, cells_byte]

/-- What any read does: it takes bytes off the front, at most as many as it asked for, and gets
fewer only when it emptied the socket. -/
theorem read_spec {n : Nat} {s s' : List (Cell Fd)} {got : List UInt8}
    (h : read n s = some (got, s')) :
    ∃ front, s = front ++ s' ∧ got = front.map Cell.byte ∧ got.length ≤ n ∧
      (got.length < n → s' = []) := by
  unfold read at h
  split at h
  next hn =>
    cases h
    exact ⟨[], rfl, rfl, Nat.zero_le _, fun hlt => absurd hlt (by simp [hn])⟩
  next hn =>
    split at h
    · cases h
    · cases h
      refine ⟨s.take n, (List.take_append_drop n s).symm, rfl, ?_, fun hlt => ?_⟩
      · rw [List.length_map, List.length_take]
        omega
      · rw [List.length_map, List.length_take] at hlt
        exact List.drop_eq_nil_of_le (by omega)

/-- A received descriptor takes the one byte it travelled with. -/
theorem recvFd_spec {s s' : List (Cell Fd)} {fd : Option Fd} (h : recvFd s = some (fd, s')) :
    ∃ c, s = c :: s' ∧ fd = c.fd := by
  cases s with
  | nil => cases h
  | cons c s =>
    simp only [recvFd, Option.some.injEq, Prod.mk.injEq] at h
    exact ⟨c, by rw [h.2], h.1.symm⟩

end Socket

end WinEmulator.Lib
