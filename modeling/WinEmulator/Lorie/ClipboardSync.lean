import WinEmulator.Lorie.Clipboard
import WinEmulator.X11.InputConnection

/-!
# The clipboards of Android and X

`LorieView.java` tells the server when the Android clipboard changes and sends its text when it is
asked. `cmdentrypoint.c` reads what it sends on the input thread, and the work queue hands it to
`clipboard.c` on the thread of the server. The steps of these three, of other Android apps and of
the X clients interleave.

The connection stays up, and a message is read whole. What the server sends of its clients'
clipboards is left out. `contents`, `announced` and the moment in an announce are not in the code:
they number the contents of the Android clipboard from 0.
-/

set_option autoImplicit false

namespace WinEmulator.Lorie.ClipboardSync

open WinEmulator.Lib
open WinEmulator.Lib.Utf16 (Unit16)
open WinEmulator.Lorie.Clipboard (Server)
open WinEmulator.X11.InputConnection (getBytes)

inductive MimeType
  | textPlain
  | textHtml
  | other
deriving DecidableEq, Repr

structure ClipDescription where
  timestamp : Nat
  mimeTypes : List MimeType
deriving DecidableEq, Repr

/-- What the clipboard service answers: `getText()` and `getPrimaryClipDescription()`. -/
structure Clip where
  text : Option (List Unit16)
  description : Option ClipDescription
deriving DecidableEq, Repr

/-- A text that was copied. -/
def copied (text : List Char) (timestamp : Nat) : Clip :=
  ⟨some (Utf16.encode text), some ⟨timestamp, [.textPlain]⟩⟩

/-- What the app sends to the server. -/
inductive Message
  | clipboardAnnounce (moment : Nat)
  | clipboardSend (bytes : List UInt8)
deriving DecidableEq, Repr

structure System where
  clip : Clip
  /-- All texts of the Android clipboard, the present one last. -/
  contents : List (Option (List Unit16))
  clipboardSyncEnabled : Bool
  lastClipboardTimestamp : Nat
  /-- Whether the UI thread is in `requestClipboard`, before it reads the text. -/
  sending : Bool
  /-- What the app has written and the server has not read. -/
  socket : List Message
  workQueue : List Message
  server : Server
  /-- The moment of the last announce the server has processed. -/
  announced : Nat

/-- A connection at its start. -/
def start (clip : Clip) (clipboardSyncEnabled : Bool) (lastClipboardTimestamp : Nat) : System where
  clip := clip
  contents := [clip.text]
  clipboardSyncEnabled := clipboardSyncEnabled
  lastClipboardTimestamp := lastClipboardTimestamp
  sending := false
  socket := []
  workQueue := []
  server := Clipboard.initClipboard
  announced := 0

/-- The number of the present content. -/
def System.moment (s : System) : Nat := s.contents.length - 1

/-! ## `LorieView.java` -/

def System.write (s : System) (m : Message) : System := { s with socket := s.socket ++ [m] }

/-- Another app changes the clipboard, or Android clears it. -/
def changeClipboard (clip : Clip) (s : System) : System :=
  { s with clip := clip, contents := s.contents ++ [clip.text] }

/-- `requestClipboard`, for one request that the app reads: up to its second call of `getText`. -/
def requestClipboard (s : System) : System :=
  let s := { s with server := { s.server with requested := s.server.requested - 1 } }
  if !s.clipboardSyncEnabled then s.write (.clipboardSend (getBytes []))
  else
    match s.clip.text with
    | none => s
    | some _ => { s with sending := true }

/-- `String.valueOf` of what `getText` returns. -/
def valueOf : Option (List Unit16) → List Unit16
  | none => Utf16.encode ['n', 'u', 'l', 'l']
  | some text => text

/-- The rest of `requestClipboard`. -/
def sendClipboard (s : System) : System :=
  { s with sending := false }.write (.clipboardSend (getBytes (valueOf s.clip.text)))

/-- The condition of `checkForClipboardChange` on a description. -/
def System.isNews (s : System) (desc : ClipDescription) : Bool :=
  s.clipboardSyncEnabled && s.lastClipboardTimestamp < desc.timestamp &&
    desc.mimeTypes.length == 1 &&
    (MimeType.textPlain ∈ desc.mimeTypes || MimeType.textHtml ∈ desc.mimeTypes)

def checkForClipboardChange (s : System) : System :=
  match s.clip.description with
  | none => s
  | some desc =>
    if s.isNews desc then
      { s with lastClipboardTimestamp := desc.timestamp }.write (.clipboardAnnounce s.moment)
    else s

/-! ## `cmdentrypoint.c` -/

/-- A work procedure. -/
def work (currentTime : Clipboard.Time) (s : System) : Message → System
  | .clipboardAnnounce moment =>
    { s with
      server := Clipboard.lorieHandleClipboardAnnounce currentTime s.server
      announced := moment }
  | .clipboardSend bytes =>
    { s with server := Clipboard.lorieHandleClipboardData (Clipboard.cString bytes) s.server }

/-! ## Runs -/

/-- What X clients do, as far as it is about selections. -/
inductive Request
  | connect
  | createWindow (window : Clipboard.Window)
  | destroyWindow (window : Clipboard.Window)
  | setSelectionOwner (selection : Clipboard.Atom) (client : Clipboard.ClientPtr)
      (window : Clipboard.Window)
      (time : Clipboard.Time)
  | convertSelection (request : Clipboard.LorieDataTarget)
deriving DecidableEq

def Request.action : Request → Clipboard.Action
  | .connect => .connect
  | .createWindow window => .createWindow window
  | .destroyWindow window => .destroyWindow window
  | .setSelectionOwner selection client window time =>
    .setSelectionOwner selection client window time
  | .convertSelection request => .convertSelection request

inductive Action
  | changeClipboard (clip : Clip)
  | checkForClipboardChange
  | reloadPreferences (clipboardEnable : Bool)
  | requestClipboard
  | sendClipboard
  | handleLorieEvents
  | processWork (currentTime : Clipboard.Time)
  | dispatch (request : Request)
deriving DecidableEq

/-- While the UI thread is in `requestClipboard` it does nothing else. -/
def step (s : System) : Action → Option System
  | .changeClipboard clip => some (changeClipboard clip s)
  | .checkForClipboardChange => if s.sending then none else some (checkForClipboardChange s)
  | .reloadPreferences enable =>
    if s.sending then none else some { s with clipboardSyncEnabled := enable }
  | .requestClipboard =>
    if s.sending ∨ s.server.requested = 0 then none else some (requestClipboard s)
  | .sendClipboard => if s.sending then some (sendClipboard s) else none
  | .handleLorieEvents =>
    match s.socket with
    | [] => none
    | m :: socket => some { s with socket := socket, workQueue := s.workQueue ++ [m] }
  | .processWork currentTime =>
    match s.workQueue with
    | [] => none
    | m :: workQueue => some (work currentTime { s with workQueue := workQueue } m)
  | .dispatch request =>
    (Clipboard.step s.server request.action).map fun server => { s with server := server }

/-- What a step is, with its guard. -/
inductive Stepped (s : System) : Action → System → Prop
  | changeClipboard (clip : Clip) : Stepped s (.changeClipboard clip) (changeClipboard clip s)
  | checkForClipboardChange (idle : s.sending = false) :
      Stepped s .checkForClipboardChange (checkForClipboardChange s)
  | reloadPreferences (enable : Bool) (idle : s.sending = false) :
    Stepped s (.reloadPreferences enable) { s with clipboardSyncEnabled := enable }
  | requestClipboard (idle : s.sending = false) (asked : s.server.requested ≠ 0) :
    Stepped s .requestClipboard (requestClipboard s)
  | sendClipboard (sending : s.sending = true) : Stepped s .sendClipboard (sendClipboard s)
  | handleLorieEvents {m : Message} {socket : List Message} (first : s.socket = m :: socket) :
    Stepped s .handleLorieEvents { s with socket := socket, workQueue := s.workQueue ++ [m] }
  | processWork (currentTime : Clipboard.Time) {m : Message} {workQueue : List Message}
      (first : s.workQueue = m :: workQueue) :
    Stepped s (.processWork currentTime) (work currentTime { s with workQueue := workQueue } m)
  | dispatch (request : Request) {server : Clipboard.Server}
      (handled : Clipboard.step s.server request.action = some server) :
    Stepped s (.dispatch request) { s with server := server }

theorem stepped {s s' : System} {a : Action} (h : step s a = some s') : Stepped s a s' := by
  cases a with
  | changeClipboard clip =>
    cases h
    exact .changeClipboard clip
  | checkForClipboardChange =>
    obtain ⟨hidle, ⟨⟩⟩ := Option.ite_none_left_eq_some.mp h
    exact .checkForClipboardChange (eq_false_of_ne_true hidle)
  | reloadPreferences enable =>
    obtain ⟨hidle, ⟨⟩⟩ := Option.ite_none_left_eq_some.mp h
    exact .reloadPreferences enable (eq_false_of_ne_true hidle)
  | requestClipboard =>
    obtain ⟨hidle, ⟨⟩⟩ := Option.ite_none_left_eq_some.mp h
    obtain ⟨hidle, hasked⟩ := not_or.mp hidle
    exact .requestClipboard (eq_false_of_ne_true hidle) hasked
  | sendClipboard =>
    obtain ⟨hsending, ⟨⟩⟩ := Option.ite_none_right_eq_some.mp h
    exact .sendClipboard hsending
  | handleLorieEvents =>
    simp only [step] at h
    split at h
    · cases h
    case h_2 m socket hsocket =>
      cases h
      exact .handleLorieEvents hsocket
  | processWork currentTime =>
    simp only [step] at h
    split at h
    · cases h
    case h_2 m workQueue hwork =>
      cases h
      exact .processWork currentTime hwork
  | dispatch request =>
    obtain ⟨server, hserver, rfl⟩ := Option.map_eq_some_iff.mp h
    exact .dispatch request hserver

end WinEmulator.Lorie.ClipboardSync
