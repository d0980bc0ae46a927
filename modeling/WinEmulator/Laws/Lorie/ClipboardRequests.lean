import WinEmulator.Lorie.ClipboardSync
import WinEmulator.Laws.Lorie.ClipboardServer
import Mathlib.Data.List.Perm.Basic

/-!
# Clipboard requests are answered

A parked request is answered with the next data, and the app owes some as long as one is parked. It
does not pay when the Android clipboard has no text. And an answer gives the property of the request
as the one that was written, also when that is none and the target was used.
-/

set_option autoImplicit false

namespace WinEmulator.Lorie.Clipboard

variable {s s' : Server} {r : LorieDataTarget} {data : Option (List UInt8)}

/-- An answer tells the client that asked which property was written, and none if none was. -/
structure Answer.Right (a : Answer) : Prop where
  addressed : a.notify =
    ⟨a.request.client, a.request.time, a.request.requestor, a.request.selection, a.request.target,
      a.notify.property⟩
  names : ∀ p ∈ a.written, p.window = a.request.requestor ∧ a.notify.property = p.property
  none_iff : a.notify.property = None ↔ a.written = none

/-- The requests that were answered and those that are parked. -/
def Server.handled (s : Server) : List LorieDataTarget :=
  s.answers.map Answer.request ++ s.lorieDataTargetHead

/-- Each accepted request was answered once or is parked, and each answer is right. -/
structure Accounted (s : Server) : Prop where
  handled : s.handled.Perm s.accepted
  right : ∀ a ∈ s.answers, a.Right

/-! ## Conversions -/

/-- Every answer handles one request. -/
theorem handled_convertOrRefuse (s : Server) (r : LorieDataTarget) (data : Option (List UInt8)) :
    (convertOrRefuse s r data).handled.Perm (r :: s.handled) := by
  have hconverts := convertOrRefuse_converts s r data
  generalize convertOrRefuse s r data = s' at hconverts ⊢
  cases hconverts with
  | written => exact .refl _
  | parked => exact List.perm_middle
  | refused => exact .refl _

/-- A request that leads to a write is to give a property. -/
theorem right_convertOrRefuse (hnamed : Writes s r data.isSome → r.property ≠ None)
    (hright : ∀ a ∈ s.answers, a.Right) :
    ∀ a ∈ (convertOrRefuse s r data).answers, a.Right := by
  have hconverts := convertOrRefuse_converts s r data
  generalize convertOrRefuse s r data = s' at hconverts ⊢
  cases hconverts with
  | written type value writes =>
    refine List.forall_mem_cons.mpr ⟨?_, hright⟩
    have hproperty := hnamed writes
    refine ⟨rfl, ?_, iff_of_false hproperty nofun⟩
    intro p hp
    obtain rfl := Option.some.inj hp
    exact ⟨rfl, (if_pos hproperty).symm⟩
  | parked => exact hright
  | refused => exact List.forall_mem_cons.mpr ⟨⟨rfl, nofun, iff_of_true rfl rfl⟩, hright⟩

/-- Answering parks no request. -/
theorem lorieDataTargetHead_convertOrRefuse {data : List UInt8} :
    (convertOrRefuse s r (some data)).lorieDataTargetHead = s.lorieDataTargetHead := by
  have hconverts := convertOrRefuse_converts s r (some data)
  generalize convertOrRefuse s r (some data) = s' at hconverts ⊢
  cases hconverts with
  | written => rfl
  | parked noData => cases noData
  | refused => rfl

/-- A request that is parked asks the app for data. -/
theorem requested_convertOrRefuse (s : Server) (r : LorieDataTarget) (data : Option (List UInt8)) :
    s.requested ≤ (convertOrRefuse s r data).requested ∧
      ((convertOrRefuse s r data).lorieDataTargetHead = s.lorieDataTargetHead ∨
        0 < (convertOrRefuse s r data).requested) := by
  have hconverts := convertOrRefuse_converts s r data
  generalize convertOrRefuse s r data = s' at hconverts ⊢
  cases hconverts with
  | written => exact ⟨Nat.le_refl _, .inl rfl⟩
  | parked => exact ⟨Nat.le_succ _, .inr (Nat.succ_pos _)⟩
  | refused => exact ⟨Nat.le_refl _, .inl rfl⟩

/-! ## The server -/

/-- Data answers all parked requests. -/
theorem Accounted.lorieHandleClipboardData (h : Accounted s) (data : List UInt8)
    (hnamed : ∀ r ∈ s.lorieDataTargetHead, Writes s r true → r.property ≠ None) :
    Accounted (lorieHandleClipboardData data s) := by
  let Inv (parked : List LorieDataTarget) (s' : Server) : Prop :=
    Accounted s' ∧ s'.lorieDataTargetHead = parked ∧ ∀ r ∈ parked, Writes s' r true →
      r.property ≠ None
  have hconverted : ∀ {r next s'}, Inv (r :: next) s' → s'.cachedData = some data →
      Inv next { convertOrRefuse s' r (some data) with lorieDataTargetHead := next } := by
    rintro r next s' ⟨haccounted, hhead, hparked⟩ -
    obtain ⟨hr, hnext⟩ := List.forall_mem_cons.mp hparked
    have hsame := convertOrRefuse_sameWorld s' r (some data)
    refine ⟨⟨?_, right_convertOrRefuse hr haccounted.right⟩, rfl, fun p hp hwrites => hnext p hp ?_⟩
    · -- The request moves from the parked ones to those that were answered.
      have hperm := handled_convertOrRefuse s' r (some data)
      rw [Server.handled, lorieDataTargetHead_convertOrRefuse, hhead] at hperm
      have hmoved := (List.perm_middle.symm.trans hperm).cons_inv
      rw [hsame.accepted]
      exact hmoved.trans haccounted.handled
    · exact ⟨hsame.selections ▸ hwrites.selection, hsame.windows ▸ hwrites.window, hwrites.target⟩
  exact (serve_induction Inv hconverted s.lorieDataTargetHead { s with cachedData := some data }
    ⟨⟨h.handled, h.right⟩, rfl,
      fun r hr hwrites => hnamed r hr ⟨hwrites.selection, hwrites.window, hwrites.target⟩⟩ rfl).1

/-- A request is answered or parked. -/
theorem Accounted.lorieProcConvertSelection (h : Accounted s)
    (hnamed : s.owns r.selection = true → Writes s r s.cachedData.isSome → r.property ≠ None)
    (hproc : lorieProcConvertSelection r s = .ok s') : Accounted s' := by
  obtain ⟨howns, rfl⟩ | rfl := lorieProcConvertSelection_cases hproc
  · exact ⟨(handled_convertOrRefuse s r s.cachedData).trans (h.handled.cons r),
      right_convertOrRefuse (hnamed howns) h.right⟩
  · exact h

/-- A request is parked only when the text has been asked for. -/
theorem requested_lorieProcConvertSelection (hproc : lorieProcConvertSelection r s = .ok s') :
    s.requested ≤ s'.requested ∧
      (s'.lorieDataTargetHead = s.lorieDataTargetHead ∨ 0 < s'.requested) := by
  obtain ⟨-, rfl⟩ | rfl := lorieProcConvertSelection_cases hproc
  · exact requested_convertOrRefuse s r s.cachedData
  · exact ⟨Nat.le_refl _, .inl rfl⟩

end WinEmulator.Lorie.Clipboard

namespace WinEmulator.Lorie.ClipboardSync

open WinEmulator.Lib
open WinEmulator.Lorie.Clipboard (Writes Accounted None)

variable {s s' : System}

/-! ## The system -/

def Message.isData : Message → Bool
  | .clipboardAnnounce _ => false
  | .clipboardSend _ => true

/-- Data is asked for or on its way. -/
def InFlight (s : System) : Prop :=
  0 < s.server.requested ∨ s.sending = true ∨ (∃ m ∈ s.socket, m.isData = true) ∨ ∃ m ∈ s.workQueue,
    m.isData = true

/-- All messages were delivered and handled. -/
structure Quiet (s : System) : Prop where
  requested : s.server.requested = 0
  sending : s.sending = false
  socket : s.socket = []
  workQueue : s.workQueue = []

/-- What is to hold of the requests. -/
structure Answered (s : System) : Prop where
  parked : Quiet s → s.server.lorieDataTargetHead = []
  once : Quiet s → (s.server.answers.map Clipboard.Answer.request).Perm s.server.accepted
  right : ∀ a ∈ s.server.answers, a.Right

/-- The app has a text to send or need not send one, and a request that leads to a write gives a
property. -/
def Answerable (s : System) : Action → Prop
  | .requestClipboard =>
    s.clipboardSyncEnabled = false ∨ s.clip.text.isSome = true ∨ s.server.lorieDataTargetHead = [] ∨
      1 < s.server.requested ∨ (∃ m ∈ s.socket, m.isData = true) ∨ ∃ m ∈ s.workQueue,
        m.isData = true
  | .processWork _ =>
    (∃ m ∈ s.workQueue.head?, m.isData = true) → ∀ r ∈ s.server.lorieDataTargetHead,
      Writes s.server r true → r.property ≠ None
  | .dispatch (.convertSelection r) =>
    s.server.owns r.selection = true → Writes s.server r s.server.cachedData.isSome →
      r.property ≠ None
  | _ => True

instance (s : System) : ∀ a, Decidable (Answerable s a)
  | .requestClipboard => inferInstanceAs (Decidable (_ ∨ _))
  | .processWork _ =>
    inferInstanceAs (Decidable ((∃ m ∈ s.workQueue.head?, m.isData = true) →
      ∀ r ∈ s.server.lorieDataTargetHead, Writes s.server r true → r.property ≠ None))
  | .dispatch (.convertSelection r) =>
    inferInstanceAs (Decidable (s.server.owns r.selection = true →
      Writes s.server r s.server.cachedData.isSome → r.property ≠ None))
  | .changeClipboard _ | .checkForClipboardChange | .reloadPreferences _ | .sendClipboard
  | .handleLorieEvents
  | .dispatch .connect | .dispatch (.createWindow _) | .dispatch (.destroyWindow _)
  | .dispatch (.setSelectionOwner ..) => inferInstanceAs (Decidable True)

structure Owing (s : System) : Prop where
  accounted : Accounted s.server
  owed : s.server.lorieDataTargetHead ≠ [] → InFlight s

/-- Nothing is owed at the start. -/
theorem owing_start (clip : Clip) (clipboardSyncEnabled : Bool) (lastClipboardTimestamp : Nat) :
    Owing (start clip clipboardSyncEnabled lastClipboardTimestamp) where
  accounted := ⟨.refl _, nofun⟩
  owed h := absurd rfl h

/-- In the states of the invariant every request is accounted for. -/
theorem Owing.answered (h : Owing s) : Answered s := by
  have hparked : Quiet s → s.server.lorieDataTargetHead = [] := by
    intro hquiet
    by_contra hparked
    obtain hrequested | hsending | ⟨m, hm, -⟩ | ⟨m, hm, -⟩ := h.owed hparked
    · exact absurd hquiet.requested (Nat.ne_of_gt hrequested)
    · exact absurd (hquiet.sending.symm.trans hsending) Bool.false_ne_true
    · rw [hquiet.socket] at hm
      cases hm
    · rw [hquiet.workQueue] at hm
      cases hm
  refine ⟨hparked, fun hquiet => ?_, h.accounted.right⟩
  have hhandled := h.accounted.handled
  rwa [Clipboard.Server.handled, hparked hquiet, List.append_nil] at hhandled

/-! ### Steps -/

theorem InFlight.of_socket (h : ∃ m ∈ s.socket, m.isData = true) : InFlight s :=
  .inr (.inr (.inl h))

theorem InFlight.of_workQueue (h : ∃ m ∈ s.workQueue, m.isData = true) : InFlight s :=
  .inr (.inr (.inr h))

/-- A message that the app writes is one more on the socket. -/
theorem InFlight.write (h : InFlight s) (m : Message) : InFlight (s.write m) := by
  obtain hrequested | hsending | ⟨m', hm', hdata⟩ | hwork := h
  · exact .inl hrequested
  · exact .inr (.inl hsending)
  · exact .of_socket ⟨m', List.mem_append_left _ hm', hdata⟩
  · exact .of_workQueue hwork

theorem inFlight_write_of_isData {m : Message} (h : m.isData = true) : InFlight (s.write m) :=
  .of_socket ⟨m, List.mem_append_right _ (List.mem_singleton_self m), h⟩

/-- Writing a message keeps the invariant. -/
theorem Owing.write (h : Owing s) (m : Message) : Owing (s.write m) :=
  ⟨h.accounted, fun hparked => (h.owed hparked).write m⟩

/-- The app reads a request. Either it will send data, or some is on its way in any case. -/
theorem Owing.requestClipboard (h : Owing s) (hanswerable : Answerable s .requestClipboard) :
    Owing (requestClipboard s) := by
  have haccounted : Accounted { s.server with requested := s.server.requested - 1 } :=
    ⟨h.accounted.handled, h.accounted.right⟩
  unfold ClipboardSync.requestClipboard
  by_cases hsync : s.clipboardSyncEnabled = true
  case neg =>
    simp only [hsync, Bool.not_false, if_true]
    exact ⟨haccounted, fun _ => inFlight_write_of_isData rfl⟩
  simp only [hsync, Bool.not_true, Bool.false_eq_true, if_false]
  cases htext : s.clip.text with
  | some text => exact ⟨haccounted, fun _ => .inr (.inl rfl)⟩
  | none =>
    refine ⟨haccounted, fun hparked => ?_⟩
    obtain hoff | hsome | hempty | hmore | hsocket | hwork := hanswerable
    · exact absurd (hsync.symm.trans hoff) (by decide)
    · rw [htext] at hsome
      cases hsome
    · exact absurd hempty hparked
    · exact .inl (Nat.sub_pos_of_lt hmore)
    · exact .of_socket hsocket
    · exact .of_workQueue hwork

/-- The server handles an announce, which leaves the requests as they are, or data, which answers
them. -/
theorem Owing.work {m : Message} {workQueue : List Message} {currentTime : Clipboard.Time}
    (h : Owing s)
    (hanswerable : Answerable s (.processWork currentTime)) (hwork : s.workQueue = m :: workQueue) :
    Owing (work currentTime { s with workQueue := workQueue } m) := by
  cases m with
  | clipboardAnnounce moment =>
    refine ⟨⟨h.accounted.handled, h.accounted.right⟩, fun hparked => ?_⟩
    obtain hrequested | hsending | hsocket | ⟨m, hm, hdata⟩ := h.owed hparked
    · exact .inl hrequested
    · exact .inr (.inl hsending)
    · exact .of_socket hsocket
    · rw [hwork] at hm
      obtain rfl | hm := List.mem_cons.mp hm
      · cases hdata
      · exact .of_workQueue ⟨m, hm, hdata⟩
  | clipboardSend bytes =>
    have hnamed := hanswerable ⟨.clipboardSend bytes, by rw [hwork]; rfl, rfl⟩
    exact ⟨h.accounted.lorieHandleClipboardData _ hnamed,
      fun hparked => absurd (Clipboard.parked_lorieHandleClipboardData _ _) hparked⟩

/-- What X clients do leaves the requests as they are, or is one more. -/
theorem Owing.dispatch {request : Request} {server : Clipboard.Server} (h : Owing s)
    (hanswerable : Answerable s (.dispatch request))
    (hstep : Clipboard.step s.server request.action = some server) :
    Owing { s with server := server } := by
  have hsame (server : Clipboard.Server) (haccounted : Accounted server)
      (hparked : server.lorieDataTargetHead = s.server.lorieDataTargetHead)
      (hrequested : server.requested = s.server.requested) : Owing { s with server := server } := by
    refine ⟨haccounted, fun hne => ?_⟩
    obtain hpos | hrest := h.owed (hparked ▸ hne)
    · exact .inl (hrequested ▸ hpos)
    · exact .inr hrest
  have haccounted := h.accounted
  cases request with
  | connect =>
    cases hstep
    exact hsame _ ⟨haccounted.handled, haccounted.right⟩ rfl rfl
  | createWindow window =>
    cases hstep
    exact hsame _ ⟨haccounted.handled, haccounted.right⟩ rfl rfl
  | destroyWindow window =>
    simp only [Clipboard.step, Request.action] at hstep
    split at hstep
    · cases hstep
    · cases hstep
      exact hsame _ ⟨haccounted.handled, haccounted.right⟩ rfl rfl
  | setSelectionOwner selection client window time =>
    simp only [Clipboard.step, Request.action] at hstep
    split at hstep
    · cases hstep
      exact hsame _ ⟨haccounted.handled, haccounted.right⟩ rfl rfl
    · cases hstep
  | convertSelection r =>
    simp only [Clipboard.step, Request.action] at hstep
    split at hstep
    case isFalse => cases hstep
    split at hstep
    case h_2 =>
      cases hstep
      exact h
    case h_1 s' hproc =>
      cases hstep
      refine ⟨haccounted.lorieProcConvertSelection hanswerable hproc, fun hne => ?_⟩
      obtain ⟨hmore, hhead | hpos⟩ := Clipboard.requested_lorieProcConvertSelection hproc
      · obtain hpos | hrest := h.owed (hhead ▸ hne)
        · exact .inl (Nat.lt_of_lt_of_le hpos hmore)
        · exact .inr hrest
      · exact .inl hpos

/-- **The step lemma.** -/
theorem Owing.step {a : Action} (h : Owing s) (hanswerable : Answerable s a)
    (hstep : step s a = some s') : Owing s' := by
  cases stepped hstep with
  | changeClipboard clip => exact ⟨h.accounted, h.owed⟩
  | checkForClipboardChange hidle =>
    unfold checkForClipboardChange
    cases s.clip.description with
    | none => exact h
    | some desc =>
      have hlast : Owing { s with lastClipboardTimestamp := desc.timestamp } :=
        ⟨h.accounted, h.owed⟩
      show Owing (if s.isNews desc then _ else s)
      split
      · exact hlast.write _
      · exact h
  | reloadPreferences enable hidle => exact ⟨h.accounted, h.owed⟩
  | requestClipboard hidle hasked => exact h.requestClipboard hanswerable
  | sendClipboard hsending => exact ⟨h.accounted, fun _ => inFlight_write_of_isData rfl⟩
  | handleLorieEvents hsocket =>
    refine ⟨h.accounted, fun hparked => ?_⟩
    obtain hrequested | hsending | ⟨m', hm', hdata⟩ | ⟨m', hm', hdata⟩ := h.owed hparked
    · exact .inl hrequested
    · exact .inr (.inl hsending)
    · rw [hsocket] at hm'
      obtain rfl | hm' := List.mem_cons.mp hm'
      · exact .of_workQueue ⟨m', List.mem_append_right _ (List.mem_singleton_self m'), hdata⟩
      · exact .of_socket ⟨m', hm', hdata⟩
    · exact .of_workQueue ⟨m', List.mem_append_left _ hm', hdata⟩
  | processWork currentTime hwork => exact h.work hanswerable hwork
  | dispatch request hserver => exact h.dispatch hanswerable hserver

/-- **Every request is answered once**, and right, in each run in which the app has a text to send
when it is its turn and requests give a property. -/
theorem answered_of_answerable (clip : Clip) (clipboardSyncEnabled : Bool)
    (lastClipboardTimestamp : Nat)
    (actions : List Action) (s : System)
    (hanswerable : Meets step Answerable (start clip clipboardSyncEnabled lastClipboardTimestamp)
      actions)
    (h : run step (start clip clipboardSyncEnabled lastClipboardTimestamp) actions = some s) :
    Answered s :=
  (run_induction (fun howing hok hstep => howing.step hok hstep) (owing_start _ _ _) hanswerable
    h).answered

/-- The clipboard is announced, and a client asks for it. -/
def asked : List Action :=
  [.checkForClipboardChange, .handleLorieEvents, .processWork 0, .dispatch .connect,
    .dispatch (.createWindow 2),
    .dispatch (.convertSelection
      ⟨1, Clipboard.xaCLIPBOARD, Clipboard.xaUTF8_STRING, Clipboard.xaUTF8_STRING, 2, 0⟩)]

/-- The app sends its text. -/
theorem answered_copied :
    Answered ((run step (start (copied ['h', 'i'] 1) true 0)
      (asked ++ [.requestClipboard, .sendClipboard, .handleLorieEvents, .processWork 0])).get
        (by decide +kernel)) :=
  answered_of_answerable _ _ _ _ _ (by decide +kernel) (Option.some_get _).symm

/-- The clipboard is cleared before the app reads the request, and the client waits for ever. -/
theorem not_answered_cleared :
    ∃ s, run step (start (copied ['h', 'i'] 1) true 0)
      (asked ++ [.changeClipboard ⟨none, none⟩, .requestClipboard]) = some s ∧
      ¬ Answered s := by
  refine ⟨_, (Option.some_get (show Option.isSome _ = true by decide +kernel)).symm, fun h => ?_⟩
  have hparked := h.parked (by constructor <;> decide +kernel)
  revert hparked
  decide +kernel

end WinEmulator.Lorie.ClipboardSync
