import WinEmulator.Lib.Machine
import Mathlib.Logic.Function.Basic

/-!
# `clipboard.c`: the selection of the server

The server owns the `CLIPBOARD` selection for Android. A request of an X client for it is answered
from the cache, or parked until the app has sent the data. Allocations are taken to succeed and the
hooks of the security extensions to allow everything.

An answer is kept as one entry: the request, the property that was written, if one was, and the
event that says so. The `SelectionClear` for the owner before is left out.
-/

set_option autoImplicit false

namespace WinEmulator.Lorie.Clipboard

open WinEmulator.Lib

abbrev Atom := Nat

abbrev Window := Nat

/-- Clients are told apart by when they connected, so one that is gone does not come back. -/
abbrev ClientPtr := Nat

abbrev Time := UInt32

def None : Atom := 0

def XA_ATOM : Atom := 4

def XA_INTEGER : Atom := 19

def XA_STRING : Atom := 31

/-! The atoms of `lorieInitClipboard`, with the numbers they get when no other was made before. -/

def xaTIMESTAMP : Atom := 69

def xaTEXT : Atom := 70

def xaCLIPBOARD : Atom := 71

def xaTARGETS : Atom := 72

def xaSTRING : Atom := XA_STRING

def xaUTF8_STRING : Atom := 73

def serverClient : ClientPtr := 0

/-- `pScreenPtr->root->drawable.id`. -/
def root : Window := 1

/-! ## Latin-1

A C text is its bytes before the terminator, which is what is read at the end of the list. -/

/-- The characters that are not there, or not what they should be. -/
def replacement : UInt32 := 0xfffd

def isContinuation (b : UInt8) : Bool := b &&& 0xc0 == 0x80

/-- The rest of a sequence: how many bytes it consumes, and the character. -/
def continuation : Nat → List UInt8 → UInt32 → Nat × UInt32
  | 0, _, dst => (0, if 0xd800 ≤ dst ∧ dst < 0xe000 then replacement else dst)
  | count + 1, src, dst =>
    let b := src.headD 0
    if isContinuation b then
      let (consumed, dst) := continuation count src.tail (dst <<< 6 ||| (b &&& 0x3f).toUInt32)
      (consumed + 1, dst)
    else (1, replacement)

/-- How many bytes the sequence at the front consumes, and its character. -/
def lorieUtf8ToUCS4 (b : UInt8) (src : List UInt8) : Nat × UInt32 :=
  let sequence (count : Nat) (mask : UInt8) :=
    let (consumed, dst) := continuation count src (b &&& mask).toUInt32
    (consumed + 1, dst)
  if b &&& 0x80 = 0 then sequence 0 0xff
  else if b &&& 0xe0 = 0xc0 then sequence 1 0x1f
  else if b &&& 0xf0 = 0xe0 then sequence 2 0x0f
  else if b &&& 0xf8 = 0xf0 then sequence 3 0x07
  else ((src.takeWhile isContinuation).length + 1, replacement)

/-- The loop of `lorieUtf8ToLatin1`. -/
def latin1Bytes : Nat → List UInt8 → List UInt8
  | 0, _ => []
  | _, [] => []
  | fuel + 1, b :: src =>
    let (consumed, ucs) := lorieUtf8ToUCS4 b src
    (if ucs > 0xff then 0x3f else ucs.toUInt8) :: latin1Bytes fuel ((b :: src).drop consumed)

/-- A C text in memory: what stands before the first NUL. -/
def cString (bytes : List UInt8) : List UInt8 := bytes.takeWhile (· ≠ 0)

def lorieUtf8ToLatin1 (src : List UInt8) : List UInt8 := cString (latin1Bytes src.length src)

/-! ## The state -/

structure LorieDataTarget where
  client : ClientPtr
  selection : Atom
  target : Atom
  property : Atom
  requestor : Window
  time : Time
deriving DecidableEq, Repr

inductive PropertyData
  | atoms (atoms : List Atom)
  | integer (value : UInt32)
  | bytes (bytes : List UInt8)
deriving DecidableEq, Repr

/-- A property of a window that was written. -/
structure Property where
  window : Window
  property : Atom
  type : Atom
  value : PropertyData
deriving DecidableEq, Repr

/-- The event, with the client it is written to. -/
structure SelectionNotify where
  client : ClientPtr
  time : Time
  requestor : Window
  selection : Atom
  target : Atom
  property : Atom
deriving DecidableEq, Repr

/-- The answer to a request. -/
structure Answer where
  request : LorieDataTarget
  written : Option Property
  notify : SelectionNotify
deriving DecidableEq, Repr

structure Selection where
  client : Option ClientPtr
  window : Window
  lastTimeChanged : Time
deriving DecidableEq, Repr

inductive Rc
  | BadWindow
  | BadAtom
  | BadMatch
deriving DecidableEq, Repr

structure Server where
  /-- The clients that are connected. -/
  clients : List ClientPtr
  /-- The number of the next client. -/
  nextClient : ClientPtr
  windows : List Window
  lastAtom : Atom
  selections : Atom → Option Selection
  cachedData : Option (List UInt8)
  lorieDataTargetHead : List LorieDataTarget
  /-- The requests for data that are on their way to the app. -/
  requested : Nat
  /-- All answers, the last one first. -/
  answers : List Answer
  /-- All requests that were for a selection of the server, the last one first. -/
  accepted : List LorieDataTarget

/-- After `lorieInitClipboard`, with no client yet. -/
def initClipboard : Server where
  clients := []
  nextClient := serverClient + 1
  windows := [root]
  lastAtom := xaUTF8_STRING
  selections := fun _ => none
  cachedData := none
  lorieDataTargetHead := []
  requested := 0
  answers := []
  accepted := []

/-! ## Requests -/

/-- A `SelectionNotify` for a request, with what was written for it. -/
def Server.answer (s : Server) (r : LorieDataTarget) (written : Option Property) (property : Atom) :
    Server :=
  { s with
    answers :=
      ⟨r, written, ⟨r.client, r.time, r.requestor, r.selection, r.target, property⟩⟩ :: s.answers }

def lorieRequestClipboard (s : Server) : Server := { s with requested := s.requested + 1 }

def isText (target : Atom) : Bool :=
  target == xaSTRING || target == xaTEXT || target == xaUTF8_STRING

def LorieDataTarget.realProperty (r : LorieDataTarget) : Atom :=
  if r.property ≠ None then r.property else r.target

def lorieConvertSelection (s : Server) (r : LorieDataTarget) (data : Option (List UInt8)) :
    Except Rc Server :=
  match s.selections r.selection with
  | none => .error .BadMatch
  | some pSel =>
    if r.requestor ∉ s.windows then .error .BadWindow
    else
      let changeProperty (type : Atom) (value : PropertyData) : Except Rc Server :=
        .ok (s.answer r (some ⟨r.requestor, r.realProperty, type, value⟩) r.property)
      if r.target = xaTARGETS then
        changeProperty XA_ATOM (.atoms [xaTARGETS, xaTIMESTAMP, xaSTRING, xaTEXT, xaUTF8_STRING])
      else if r.target = xaTIMESTAMP then changeProperty XA_INTEGER (.integer pSel.lastTimeChanged)
      else
        match data with
        | none =>
          if isText r.target then
            .ok (lorieRequestClipboard { s with lorieDataTargetHead := r :: s.lorieDataTargetHead })
          else .error .BadMatch
        | some data =>
          if r.target = xaSTRING ∨ r.target = xaTEXT then
            changeProperty XA_STRING (.bytes (lorieUtf8ToLatin1 data))
          else if r.target = xaUTF8_STRING then changeProperty xaUTF8_STRING (.bytes data)
          else .error .BadMatch

/-- A conversion, and the event that is sent when it fails. -/
def convertOrRefuse (s : Server) (r : LorieDataTarget) (data : Option (List UInt8)) : Server :=
  match lorieConvertSelection s r data with
  | .ok s' => s'
  | .error _ => s.answer r none None

def Server.ValidAtom (s : Server) (a : Atom) : Prop := a ≠ None ∧ a ≤ s.lastAtom

instance (s : Server) (a : Atom) : Decidable (s.ValidAtom a) := inferInstanceAs (Decidable (_ ∧ _))

/-- Whether the server owns a selection. -/
def Server.owns (s : Server) (selection : Atom) : Bool :=
  match s.selections selection with
  | none => false
  | some pSel => pSel.client == some serverClient && pSel.window == root

/-- A request for a selection of another owner goes to `origProcConvertSelection` and changes
nothing here. -/
def lorieProcConvertSelection (r : LorieDataTarget) (s : Server) : Except Rc Server :=
  if r.requestor ∉ s.windows then .error .BadWindow
  else if ¬ (s.ValidAtom r.selection ∧ s.ValidAtom r.target ∧
    (r.property = None ∨ s.ValidAtom r.property)) then
    .error .BadAtom
  else if s.owns r.selection then
    .ok { convertOrRefuse s r s.cachedData with accepted := r :: s.accepted }
  else .ok s

/-! ## Announces and data -/

def lorieOwnSelection (selection : Atom) (currentTime : Time) (s : Server) : Server :=
  { s with
    selections :=
      Function.update s.selections selection (some ⟨some serverClient, root, currentTime⟩) }

def lorieHandleClipboardAnnounce (currentTime : Time) (s : Server) : Server :=
  lorieOwnSelection xaCLIPBOARD currentTime { s with cachedData := none }

/-- The loop over the parked requests. A conversion with data parks nothing. -/
def serve : List LorieDataTarget → Server → Server
  | [], s => s
  | r :: next, s => serve next { convertOrRefuse s r s.cachedData with lorieDataTargetHead := next }

def lorieHandleClipboardData (data : List UInt8) (s : Server) : Server :=
  serve s.lorieDataTargetHead { s with cachedData := some data }

/-! ## Runs -/

inductive Action
  | connect
  | disconnect (client : ClientPtr)
  | createWindow (window : Window)
  | destroyWindow (window : Window)
  | setSelectionOwner (selection : Atom) (client : ClientPtr) (window : Window) (time : Time)
  | convertSelection (request : LorieDataTarget)
  | clipboardAnnounce (currentTime : Time)
  | clipboardData (data : List UInt8)
deriving DecidableEq

/-- Takes the selections from an owner. -/
def Server.release (s : Server) (gone : Selection → Bool) : Server :=
  { s with selections := fun a => (s.selections a).map fun sel =>
      if gone sel then { sel with client := none, window := None } else sel }

/-- The windows of a client that disconnects are destroyed by steps of their own. A request with an
error changes nothing. -/
def step (s : Server) : Action → Option Server
  | .connect => some { s with clients := s.nextClient :: s.clients, nextClient := s.nextClient + 1 }
  | .disconnect client =>
    some ({ s with clients := s.clients.filter (· ≠ client) }.release fun sel =>
      sel.client == some client)
  | .createWindow window => some { s with windows := window :: s.windows }
  | .destroyWindow window =>
    if window = root then none
    else some ({ s with windows := s.windows.filter (· ≠ window) }.release fun sel =>
      sel.window == window)
  | .setSelectionOwner selection client window time =>
    if client ∈ s.clients ∧ window ∈ s.windows then
      some { s with
        selections := Function.update s.selections selection (some ⟨some client, window, time⟩) }
    else none
  | .convertSelection r =>
    if r.client ∈ s.clients then
      match lorieProcConvertSelection r s with
      | .ok s' => some s'
      | .error _ => some s
    else none
  | .clipboardAnnounce currentTime => some (lorieHandleClipboardAnnounce currentTime s)
  | .clipboardData data => some (lorieHandleClipboardData data s)

end WinEmulator.Lorie.Clipboard
