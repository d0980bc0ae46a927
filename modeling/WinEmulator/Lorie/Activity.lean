import WinEmulator.Lorie.Buffer
import WinEmulator.Lorie.Event

/-!
# `activity.c`: the activity's receiving side

`xcallback` reads one `lorieEvent`, dispatches on its type, and goes back to `again` while more than
one event's worth of bytes is waiting. The looper calls it again as long as the descriptor is
readable (`ALooper_addFd` watches the level, not the edge), which is how the last event of a burst,
too short for the `FIONREAD` test, is read at all.

The model runs on a socket nobody writes to any more. `none` is a `read` that waits for a byte that
will never come.
-/

set_option autoImplicit false

namespace WinEmulator.Lorie

open WinEmulator.Lib

/-- What `xcallback` does with a decoded event: the Java method or the renderer function it
calls. -/
inductive Upcall (HardwareBuffer : Type)
  /-- The bytes handed to the UTF-8 decoder for `setClipboardText`. -/
  | setClipboardText (text : List UInt8)
  | requestClipboard
  /-- `rendererSetSharedState` on the mapping of this descriptor. -/
  | setSharedState (fd : Fd)
  /-- `rendererAddBuffer`; `none` is the `NULL` a failed receive leaves. -/
  | addBuffer (buffer : Option (BufferImage × Handle HardwareBuffer))
  | removeBuffer (id : UInt64)
  | resetIme
deriving DecidableEq

/-- `strlen`-delimited content of a zeroed C array after `got` was read into it. -/
def cString (got : List UInt8) : List UInt8 := got.takeWhile (· ≠ 0)

namespace Activity

variable {HardwareBuffer : Type} (ndk : HardwareTransport HardwareBuffer)

/-- The socket after some calls, with the calls made. -/
abbrev Outcome (HardwareBuffer : Type) := Option (List (Upcall HardwareBuffer) × List (Cell Fd))

/-- The `switch (e.type)` of `xcallback`. -/
def dispatch (e : LorieEvent) (s : List (Cell Fd)) : Outcome HardwareBuffer :=
  match EventType.ofCode e.type with
  | .clipboardSend =>
    if e.count = 0 then some ([], s)
    else
      -- `char clipboard[e.clipboardSend.count + 1]`, in 32 bits, and all of it is read
      match Socket.read (e.count + 1).toNat s with
      | none => none
      | some (got, s') => some ([.setClipboardText (cString (got.take e.count.toNat))], s')
  | .clipboardRequest => some ([.requestClipboard], s)
  | .sharedServerState =>
    match Socket.recvFd s with
    | none => none
    | some (none, s') => some ([], s')
    | some (some stateFd, s') => some ([.setSharedState stateFd], s')
  | .addBuffer =>
    match LorieBuffer_recvHandleFromUnixSocket ndk s with
    | none => none
    | some (buffer, s') => some ([.addBuffer buffer], s')
  | .removeBuffer => some ([.removeBuffer e.removeBuffer], s)
  | .windowFocusChanged => some ([.resetIme], s)
  | _ => some ([], s)

/-- From the label `again` to the `ioctl`: one read and, if it returned a whole event, its
dispatch. -/
def once (s : List (Cell Fd)) : Outcome HardwareBuffer :=
  match Socket.read sizeofLorieEvent s with
  | none => none
  | some (got, s') =>
    if h : got.length = sizeofLorieEvent then dispatch ndk ⟨got, h⟩ s' else some ([], s')

/-- `xcallback` on a readable descriptor. Every pass takes at least one byte, so as many passes as
there are bytes are enough. -/
def xcallback : Nat → List (Cell Fd) → Outcome HardwareBuffer
  | 0, s => some ([], s)
  | fuel + 1, s =>
    match once ndk s with
    | none => none
    | some (calls, s') =>
      if sizeofLorieEvent < s'.length then
        (xcallback fuel s').map fun r => (calls ++ r.1, r.2)
      else some (calls, s')

/-- The looper: `xcallback` for as long as the descriptor is readable. -/
def looper : Nat → List (Cell Fd) → Outcome HardwareBuffer
  | 0, s => some ([], s)
  | fuel + 1, s =>
    if s.isEmpty then some ([], s)
    else
      match xcallback ndk s.length s with
      | none => none
      | some (calls, s') => (looper fuel s').map fun r => (calls ++ r.1, r.2)

/-- Everything the activity does about the bytes `s`. -/
def receive (s : List (Cell Fd)) : Outcome HardwareBuffer := looper ndk s.length s

end Activity

end WinEmulator.Lorie
