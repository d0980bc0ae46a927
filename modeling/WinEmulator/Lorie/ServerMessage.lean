import WinEmulator.Lorie.Buffer
import WinEmulator.Lorie.Event

/-!
# `cmdentrypoint.c`: what the X server writes to the activity

The six functions of the server that write on the connection, each as the cells it leaves in the
socket when its guard (`conn_fd != -1` and, for a buffer, the list of registered ones) let it
through. The guards themselves belong to the state of the server.

Every event is a local `lorieEvent` with some members set, so each writer takes the image `junk` the
local was built over.
-/

set_option autoImplicit false

namespace WinEmulator.Lorie

open WinEmulator.Lib

/-- The text `lorieSendClipboardData` is called with: a C string, so free of NUL, and not empty. -/
structure ClipboardText where
  bytes : List UInt8
  no_nul : (0 : UInt8) ∉ bytes
  ne_nil : bytes ≠ []

section

variable {HardwareBuffer : Type} (ndk : HardwareTransport HardwareBuffer) (junk : LorieEvent)

/-- `lorieSendClipboardData`. The member `count` keeps the low 32 bits of `strlen(data)`. -/
def lorieSendClipboardData (data : ClipboardText) : List (Cell Fd) :=
  Socket.cells (LorieEvent.ofClipboardSend junk (UInt32.ofNat data.bytes.length)).bytes
    ++ Socket.cells data.bytes

def lorieRequestClipboard : List (Cell Fd) :=
  Socket.cells (LorieEvent.ofType junk .clipboardRequest).bytes

def lorieSendSharedServerState (memfd : Fd) : List (Cell Fd) :=
  Socket.cells (LorieEvent.ofType junk .sharedServerState).bytes ++ ancil_send_fd memfd

def lorieRegisterBuffer (buffer : LorieBuffer HardwareBuffer) : List (Cell Fd) :=
  Socket.cells (LorieEvent.ofType junk .addBuffer).bytes
    ++ LorieBuffer_sendHandleToUnixSocket ndk buffer

def lorieUnregisterBuffer (id : UInt64) : List (Cell Fd) :=
  Socket.cells (LorieEvent.ofRemoveBuffer junk id).bytes

/-- `DDXNotifyFocusChanged`. -/
def ddxNotifyFocusChanged : List (Cell Fd) :=
  Socket.cells (LorieEvent.ofType junk .windowFocusChanged).bytes

end

/-- One call of a writer. -/
inductive ServerMessage (HardwareBuffer : Type)
  | clipboardData (junk : LorieEvent) (data : ClipboardText)
  | requestClipboard (junk : LorieEvent)
  | sharedServerState (junk : LorieEvent) (memfd : Fd)
  | registerBuffer (junk : LorieEvent) (buffer : LorieBuffer HardwareBuffer)
  | unregisterBuffer (junk : LorieEvent) (id : UInt64)
  | focusChanged (junk : LorieEvent)

/-- What the call writes. -/
def ServerMessage.wire {HardwareBuffer : Type} (ndk : HardwareTransport HardwareBuffer) :
    ServerMessage HardwareBuffer → List (Cell Fd)
  | .clipboardData junk data => lorieSendClipboardData junk data
  | .requestClipboard junk => lorieRequestClipboard junk
  | .sharedServerState junk memfd => lorieSendSharedServerState junk memfd
  | .registerBuffer junk buffer => lorieRegisterBuffer ndk junk buffer
  | .unregisterBuffer junk id => lorieUnregisterBuffer junk id
  | .focusChanged junk => ddxNotifyFocusChanged junk

end WinEmulator.Lorie
