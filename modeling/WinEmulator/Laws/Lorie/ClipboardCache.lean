import WinEmulator.Laws.Lorie.ClipboardServer
import WinEmulator.Lorie.ClipboardSync
import Mathlib.Data.List.TakeWhile

/-!
# The clipboard cache

The app reads the text of an answer after every announce it has sent, and both come to the server in
the order in which they were sent. So an announce clears the cache of what was read before it, and
what comes after it was read after it.
-/

set_option autoImplicit false

namespace WinEmulator.Lorie.ClipboardSync

open WinEmulator.Lib
open WinEmulator.Lib.Utf16 (Unit16)
open WinEmulator.X11.InputConnection (getBytes)

variable {s s' : System}

/-! ## Texts without NUL -/

theorem zero_not_mem_utf8EncodeChar {c : Char} (h : '\x00' ≠ c) : 0 ∉ String.utf8EncodeChar c := by
  have hpos : c.val.toNat ≠ 0 := fun hz => h (Char.toNat_inj.mp hz.symm)
  have hbyte {n : Nat} (hn : n % 256 ≠ 0) : 0 ≠ UInt8.ofNat n := fun h => hn (by
    have hnat := congrArg UInt8.toNat h
    rwa [UInt8.toNat_ofNat', eq_comm] at hnat)
  unfold String.utf8EncodeChar
  simp only
  split
  · rw [List.mem_singleton]
    exact hbyte (by omega)
  split
  · simp only [List.mem_cons, List.not_mem_nil, or_false, not_or]
    exact ⟨hbyte (by omega), hbyte (by omega)⟩
  split
  · simp only [List.mem_cons, List.not_mem_nil, or_false, not_or]
    exact ⟨hbyte (by omega), hbyte (by omega), hbyte (by omega)⟩
  · simp only [List.mem_cons, List.not_mem_nil, or_false, not_or]
    exact ⟨hbyte (by omega), hbyte (by omega), hbyte (by omega), hbyte (by omega)⟩

/-- A text without NUL is encoded without NUL. -/
theorem zero_not_mem_getBytes {text : List Unit16} (h : 0 ∉ text) : 0 ∉ getBytes text := by
  intro hmem
  obtain ⟨c, hc, hzero⟩ := List.mem_flatMap.mp hmem
  refine zero_not_mem_utf8EncodeChar ?_ hzero
  rintro rfl
  exact Utf16.nul_not_mem_decode h hc

theorem cString_of_zero_not_mem {bytes : List UInt8} (h : 0 ∉ bytes) :
    Clipboard.cString bytes = bytes :=
  List.takeWhile_eq_self_iff.mpr fun _ hb => decide_eq_true fun hzero => h (hzero ▸ hb)

/-! ## Moments -/

abbrev Contents := List (Option (List Unit16))

/-- The data is the text that the clipboard held at a moment, not earlier than another. -/
def HeldSince (contents : Contents) (since : Nat) (data : List UInt8) : Prop :=
  ∃ moment ≥ since, ∃ text, contents[moment]? = some (some text) ∧ data = getBytes text

/-- The data of each message was held since the last announce before it. -/
def InOrder (contents : Contents) : Nat → List Message → Prop
  | _, [] => True
  | _, .clipboardAnnounce moment :: ms => moment < contents.length ∧ InOrder contents moment ms
  | since, .clipboardSend bytes :: ms => HeldSince contents since bytes ∧ InOrder contents since ms

/-- What was held since a moment is held since it when more contents follow. -/
theorem HeldSince.append {contents : Contents} {since : Nat} {data : List UInt8}
    (h : HeldSince contents since data)
    (more : Contents) : HeldSince (contents ++ more) since data := by
  obtain ⟨moment, hmoment, text, htext, hdata⟩ := h
  refine ⟨moment, hmoment, text, ?_, hdata⟩
  rw [List.getElem?_append_left (List.getElem?_eq_some_iff.mp htext).1, htext]

/-- Messages in order stay in order when more contents follow. -/
theorem InOrder.append {contents : Contents} (more : Contents) :
    ∀ {ms : List Message} {since : Nat}, InOrder contents since ms →
      InOrder (contents ++ more) since ms
  | [], _, _ => trivial
  | .clipboardAnnounce _ :: _, _, ⟨hlt, hms⟩ =>
    ⟨Nat.lt_of_lt_of_le hlt (List.length_append ▸ Nat.le_add_right _ _), hms.append more⟩
  | .clipboardSend _ :: _, _, ⟨hheld, hms⟩ => ⟨hheld.append more, hms.append more⟩

/-- A message is written after the others. Its data is what the clipboard holds now. -/
theorem InOrder.snoc {contents : Contents} {m : Message}
    (hm : ∀ since < contents.length, InOrder contents since [m]) :
    ∀ {ms : List Message} {since : Nat}, since < contents.length → InOrder contents since ms →
      InOrder contents since (ms ++ [m])
  | [], since, hsince, _ => hm since hsince
  | .clipboardAnnounce _ :: _, _, _, ⟨hlt, hms⟩ => ⟨hlt, hms.snoc hm hlt⟩
  | .clipboardSend _ :: _, _, hsince, ⟨hheld, hms⟩ => ⟨hheld, hms.snoc hm hsince⟩

/-! ## Runs -/

/-- What is to hold of the cache. -/
def Fresh (s : System) : Prop :=
  ∀ data, s.server.cachedData = some data → HeldSince s.contents s.announced data

/-- Sync stays enabled, and the clipboard changes to texts without NUL. -/
def TextOnly (_ : System) : Action → Prop
  | .changeClipboard clip => ∃ text ∈ clip.text, 0 ∉ text
  | .reloadPreferences enable => enable = true
  | _ => True

instance (s : System) : ∀ a, Decidable (TextOnly s a)
  | .changeClipboard clip => inferInstanceAs (Decidable (∃ text ∈ clip.text, 0 ∉ text))
  | .reloadPreferences enable => inferInstanceAs (Decidable (enable = true))
  | .checkForClipboardChange | .requestClipboard | .sendClipboard | .handleLorieEvents
  | .processWork _
  | .dispatch _ => inferInstanceAs (Decidable True)

structure Dated (s : System) : Prop where
  enabled : s.clipboardSyncEnabled = true
  texts : ∀ text, some text ∈ s.contents → 0 ∉ text
  present : s.contents[s.moment]? = some s.clip.text
  sending : s.sending = true → s.clip.text.isSome = true
  announced : s.announced < s.contents.length
  messages : InOrder s.contents s.announced (s.workQueue ++ s.socket)
  fresh : Fresh s

/-- The first state is dated. -/
theorem dated_start {clip : Clip} (htext : ∀ text ∈ clip.text, 0 ∉ text)
    (lastClipboardTimestamp : Nat) :
    Dated (start clip true lastClipboardTimestamp) where
  enabled := rfl
  texts text h := htext text (List.mem_singleton.mp h).symm
  present := rfl
  sending h := absurd h Bool.false_ne_true
  announced := Nat.one_pos
  messages := trivial
  fresh _ h := by cases h

/-- What X clients do leaves the cache as it is. -/
theorem cachedData_dispatch {server server' : Clipboard.Server} {request : Request}
    (h : Clipboard.step server request.action = some server') :
    server'.cachedData = server.cachedData := by
  cases request with
  | connect | createWindow =>
    cases h
    rfl
  | destroyWindow window =>
    simp only [Clipboard.step, Request.action] at h
    split at h
    · cases h
    · cases h
      rfl
  | setSelectionOwner selection client window time =>
    simp only [Clipboard.step, Request.action] at h
    split at h
    · cases h
      rfl
    · cases h
  | convertSelection r =>
    simp only [Clipboard.step, Request.action] at h
    split at h
    case isFalse => cases h
    split at h
    case h_2 =>
      cases h
      rfl
    case h_1 s' hproc =>
      cases h
      obtain ⟨-, rfl⟩ | rfl := Clipboard.lorieProcConvertSelection_cases hproc
      · exact (Clipboard.convertOrRefuse_sameWorld server r server.cachedData).cachedData
      · rfl

theorem cachedData_lorieHandleClipboardData (data : List UInt8) (server : Clipboard.Server) :
    (Clipboard.lorieHandleClipboardData data server).cachedData = some data :=
  Clipboard.serve_induction (fun _ s => s.cachedData = some data)
    (fun {r _ s} h _ => ((Clipboard.convertOrRefuse_sameWorld s r (some data)).cachedData).trans h)
    server.lorieDataTargetHead { server with cachedData := some data } rfl rfl

theorem Dated.moment_lt (h : Dated s) : s.moment < s.contents.length :=
  (List.getElem?_eq_some_iff.mp h.present).1

/-- The app writes what the clipboard holds now, or that it holds it now. -/
theorem Dated.write (h : Dated s) {m : Message}
    (hm : ∀ since < s.contents.length, InOrder s.contents since [m]) :
    Dated (s.write m) where
  enabled := h.enabled
  texts := h.texts
  present := h.present
  sending := h.sending
  announced := h.announced
  messages := by
    rw [System.write, ← List.append_assoc]
    exact h.messages.snoc hm h.announced
  fresh := h.fresh

/-- Announcing at the current moment keeps the dates. -/
theorem Dated.writeAnnounce (h : Dated s) : Dated (s.write (.clipboardAnnounce s.moment)) :=
  h.write fun _ _ => ⟨h.moment_lt, trivial⟩

/-- Sending the current text keeps the dates. -/
theorem Dated.writeText (h : Dated s) {text : List Unit16} (htext : s.clip.text = some text) :
    Dated (s.write (.clipboardSend (getBytes text))) := by
  refine h.write fun since hsince =>
    ⟨⟨s.moment, Nat.le_sub_one_of_lt hsince, text, ?_, rfl⟩, trivial⟩
  rw [h.present, htext]

/-- Another text on the clipboard leaves what was held before where it was. -/
theorem Dated.changeClipboard (h : Dated s) {clip : Clip} {text : List Unit16}
    (htext : clip.text = some text)
    (hnul : 0 ∉ text) : Dated (changeClipboard clip s) where
  enabled := h.enabled
  texts t ht := by
    obtain ht | ht := List.mem_append.mp ht
    · exact h.texts t ht
    · rw [List.mem_singleton, htext, Option.some.injEq] at ht
      exact ht ▸ hnul
  present := by simp [System.moment, ClipboardSync.changeClipboard]
  sending _ := by
    show clip.text.isSome = true
    rw [htext]
    rfl
  announced := Nat.lt_of_lt_of_le h.announced (List.length_append ▸ Nat.le_add_right _ _)
  messages := h.messages.append _
  fresh data hdata := (h.fresh data hdata).append _

/-- The server handles the first message of those in order. -/
theorem Dated.work (h : Dated s) {m : Message} {workQueue : List Message}
    (hwork : s.workQueue = m :: workQueue)
    (currentTime : Clipboard.Time) :
    Dated (work currentTime { s with workQueue := workQueue } m) := by
  have hmessages := h.messages
  rw [hwork, List.cons_append] at hmessages
  cases m with
  | clipboardAnnounce moment =>
    exact ⟨h.enabled, h.texts, h.present, h.sending, hmessages.1, hmessages.2,
      fun _ hdata => by cases hdata⟩
  | clipboardSend bytes =>
    obtain ⟨⟨moment, hmoment, text, htext, rfl⟩, hrest⟩ := hmessages
    refine ⟨h.enabled, h.texts, h.present, h.sending, h.announced, hrest, fun data hdata => ?_⟩
    have hnul : 0 ∉ text := h.texts text (List.mem_of_getElem? htext)
    have hcached :
        (Clipboard.lorieHandleClipboardData (Clipboard.cString (getBytes text))
          s.server).cachedData = some data :=
      hdata
    rw [cachedData_lorieHandleClipboardData, cString_of_zero_not_mem (zero_not_mem_getBytes hnul),
      Option.some.injEq] at hcached
    exact ⟨moment, hmoment, text, htext, hcached.symm⟩

/-- **The step lemma.** -/
theorem Dated.step {a : Action} (h : Dated s) (htextOnly : TextOnly s a)
    (hstep : step s a = some s') : Dated s' := by
  cases stepped hstep with
  | changeClipboard clip =>
    obtain ⟨text, htext, hnul⟩ := htextOnly
    exact h.changeClipboard htext hnul
  | checkForClipboardChange hidle =>
    unfold checkForClipboardChange
    cases s.clip.description with
    | none => exact h
    | some desc =>
      have hlast : Dated { s with lastClipboardTimestamp := desc.timestamp } :=
        ⟨h.enabled, h.texts, h.present, h.sending, h.announced, h.messages, h.fresh⟩
      show Dated (if s.isNews desc then _ else s)
      split
      · exact hlast.writeAnnounce
      · exact h
  | reloadPreferences enable hidle =>
    exact ⟨htextOnly, h.texts, h.present, h.sending, h.announced, h.messages, h.fresh⟩
  | requestClipboard hidle hasked =>
    unfold requestClipboard
    simp only [h.enabled, Bool.not_true, Bool.false_eq_true, if_false]
    cases htext : s.clip.text with
    | none => exact ⟨rfl, h.texts, h.present, h.sending, h.announced, h.messages, h.fresh⟩
    | some text =>
      have hsome : s.clip.text.isSome = true := by rw [htext]; rfl
      exact ⟨rfl, h.texts, h.present, fun _ => hsome, h.announced, h.messages, h.fresh⟩
  | sendClipboard hsending =>
    obtain ⟨text, htext⟩ := Option.isSome_iff_exists.mp (h.sending hsending)
    have hidle : Dated { s with sending := false } :=
      ⟨h.enabled, h.texts, h.present, fun h => absurd h Bool.false_ne_true, h.announced, h.messages,
        h.fresh⟩
    have hsent := hidle.writeText htext
    simpa only [sendClipboard, htext, valueOf] using hsent
  | handleLorieEvents hsocket =>
    have hmessages := h.messages
    rw [hsocket, List.append_cons] at hmessages
    exact ⟨h.enabled, h.texts, h.present, h.sending, h.announced, hmessages, h.fresh⟩
  | processWork currentTime hwork => exact h.work hwork currentTime
  | dispatch request hserver =>
    refine ⟨h.enabled, h.texts, h.present, h.sending, h.announced, h.messages,
      fun data hdata => h.fresh data ?_⟩
    rw [← hdata]
    exact (cachedData_dispatch hserver).symm

/-- **The cache is not older than the last announce** the server has processed, in every run with
sync enabled. -/
theorem fresh_of_textOnly (clip : Clip) (lastClipboardTimestamp : Nat) (actions : List Action)
    (s : System)
    (htext : ∀ text ∈ clip.text, 0 ∉ text)
    (htextOnly : Meets step TextOnly (start clip true lastClipboardTimestamp) actions)
    (h : run step (start clip true lastClipboardTimestamp) actions = some s) : Fresh s :=
  (run_induction (fun hdated hok hstep => hdated.step hok hstep) (dated_start htext _) htextOnly
    h).fresh

/-- The clipboard changes while the app answers a request, and is announced once more after it. -/
def changedWhileAsked : List Action :=
  [.checkForClipboardChange, .handleLorieEvents, .processWork 0, .dispatch .connect,
    .dispatch (.createWindow 2),
    .dispatch (.convertSelection
      ⟨1, Clipboard.xaCLIPBOARD, Clipboard.xaUTF8_STRING, Clipboard.xaUTF8_STRING, 2, 0⟩),
    .requestClipboard, .changeClipboard (copied ['y', 'o'] 2), .sendClipboard,
      .checkForClipboardChange,
    .handleLorieEvents, .handleLorieEvents, .processWork 1]

theorem fresh_changedWhileAsked :
    Fresh ((run step (start (copied ['h', 'i'] 1) true 0) changedWhileAsked).get
      (by decide +kernel)) :=
  fresh_of_textOnly _ _ _ _ (by decide +kernel) (by decide +kernel) (Option.some_get _).symm

end WinEmulator.Lorie.ClipboardSync
