import WinEmulator.Lorie.ActivityMessage
import WinEmulator.Lorie.CmdEntryPoint

/-!
# Framing of the activity's messages

What the server makes of the activity's byte stream while the kernel hands it over piece by piece.

`Frames` says that a stream is a sequence of events with their payloads, each routed to the case
that dispatches it; what the activity writes is one (`frames_written`). The invariant of a run is
`Pending`: at every point of the code the bytes still to come, in the socket or not yet, are what is
left of such a sequence. A `serve` step keeps it as long as its read finds all the bytes it asks for
(`Whole`): no read of the server is ever repeated to get the rest.

Nothing is claimed of a run with a short read. Such a run can end well by chance, when the bytes
that were late are zeros.
-/

set_option autoImplicit false

namespace WinEmulator.Lorie

open WinEmulator.Lib

variable (android_to_linux_keycode : Int32 → Int32)

/-- The case of the server a call is meant for, with the members and the payload it was called with.
Members are narrower than Java's arguments. -/
def ActivityMessage.intended : ActivityMessage → Option Dispatched
  | .setClipboardSyncEnabled enable => some (.clipboardEnable enable)
  | .sendClipboardAnnounce => some .clipboardAnnounce
  | .sendClipboardEvent text => some (.clipboardSend text.bytes)
  | .sendWindowChange width height framerate jname =>
    let name := windowName width height jname
    some (.screenSize ⟨toUInt16 width, toUInt16 height, toUInt16 framerate, nameSize name⟩
      ((name.map JStringUTF.bytes).getD []))
  | .sendMouseEvent x y which_button button_down relative =>
    some (.mouse ⟨x, y, toUInt8 which_button, button_down, relative⟩)
  | .sendTouchEvent action id x y =>
    if action = -1 then none
    else some (.touch ⟨toUInt16 action, toUInt16 id, toUInt16 x, toUInt16 y⟩)
  | .sendStylusEvent x y pressure tilt_x tilt_y orientation buttons eraser mouse =>
    some (.stylus ⟨x, y, toUInt16 pressure, tilt_x.toInt8, tilt_y.toInt8, orientation.toInt16,
      toUInt8 buttons, eraser, mouse⟩)
  | .requestStylusEnabled enabled => some (.stylusEnable enabled)
  | .sendKeyEvent scan_code key_code key_down =>
    let code := if scan_code ≠ 0 then scan_code else android_to_linux_keycode key_code
    some (.key ⟨toUInt16 (code + 8), key_down⟩)
  | .sendUnicode wc => some (.unicode wc)

/-- What a sequence of calls writes, each with what its local event held before. -/
def written (ms : List (LorieEvent × ActivityMessage)) : List UInt8 :=
  ms.flatMap fun p => p.2.bytes android_to_linux_keycode p.1

/-- What a sequence of calls asks the server for. -/
def intended (ms : List (LorieEvent × ActivityMessage)) : List Dispatched :=
  ms.filterMap fun p => p.2.intended android_to_linux_keycode

/-! ## A stream of frames -/

/-- The `switch` takes the event `e`, followed by the payload, to the case dispatched. -/
inductive Routed (e : LorieEvent) : List UInt8 → Dispatched → Prop
  | now {d : Dispatched} (goes : route e = .now d) : Routed e [] d
  | name {size : ScreenSize} {payload : List UInt8} (goes : route e = .name size)
      (length_eq : payload.length = size.name_size.toNat) :
        Routed e payload (.screenSize size payload)
  | clipboard {count : UInt32} {payload : List UInt8} (goes : route e = .clipboard count)
      (length_eq : payload.length = count.toNat) : Routed e payload (.clipboardSend payload)

/-- The stream is a sequence of events with their payloads, dispatched as `ds`. -/
inductive Frames : List UInt8 → List Dispatched → Prop
  | nil : Frames [] []
  | cons {e : LorieEvent} {payload stream : List UInt8} {d : Dispatched} {ds : List Dispatched}
      (routed : Routed e payload d) (rest : Frames stream ds) :
      Frames (e.bytes ++ (payload ++ stream)) (d :: ds)

theorem frames_nil {ds : List Dispatched} (h : Frames [] ds) : ds = [] := by
  generalize hstream : ([] : List UInt8) = stream at h
  cases h with
  | nil => rfl
  | @cons e _ _ _ _ _ _ =>
    have hlen := congrArg List.length hstream
    simp only [List.length_append, List.length_nil, e.length_eq, sizeofLorieEvent] at hlen
    omega

/-- A display name is announced with its length. -/
theorem routed_windowChange (junk : LorieEvent) (width height framerate : UInt16)
    (name : Option JStringUTF) :
    Routed (.ofScreenSize junk ⟨width, height, framerate, nameSize name⟩)
      ((name.map JStringUTF.bytes).getD [])
      (.screenSize ⟨width, height, framerate, nameSize name⟩
        ((name.map JStringUTF.bytes).getD [])) := by
  have hlen : ((name.map JStringUTF.bytes).getD []).length = (nameSize name).toNat := by
    cases name with
    | none => rfl
    | some name => exact (UInt64.toNat_ofNat_of_lt' name.length_lt).symm
  by_cases hzero : nameSize name = 0
  · have hnil : (name.map JStringUTF.bytes).getD [] = [] := by
      apply List.length_eq_zero_iff.mp
      rw [hlen, hzero]
      rfl
    rw [hnil]
    exact .now (by simp [route, hzero])
  · exact .name (by simp [route, hzero]) hlen

/-- A call that writes an event writes one that is routed to the case it is meant for. -/
theorem routed_event {junk e : LorieEvent} {m : ActivityMessage}
    (h : m.event android_to_linux_keycode junk = some e) :
    ∃ d, m.intended android_to_linux_keycode = some d ∧ Routed e m.payload d := by
  cases m with
  | setClipboardSyncEnabled enable =>
    obtain rfl := Option.some.inj h
    exact ⟨_, rfl, .now (by simp [route])⟩
  | sendClipboardAnnounce =>
    obtain rfl := Option.some.inj h
    exact ⟨_, rfl, .now (by simp [route])⟩
  | sendClipboardEvent text =>
    obtain rfl := Option.some.inj h
    refine ⟨_, rfl, ?_⟩
    have hlt := text.length_lt
    have hcount : (UInt32.ofNat text.bytes.length).toNat = text.bytes.length :=
      UInt32.toNat_ofNat_of_lt' (by unfold UInt32.size; omega)
    exact .clipboard (by simp [route]) hcount.symm
  | sendWindowChange width height framerate jname =>
    obtain rfl := Option.some.inj h
    refine ⟨_, rfl, ?_⟩
    exact routed_windowChange junk _ _ _ _
  | sendMouseEvent x y which_button button_down relative =>
    obtain rfl := Option.some.inj h
    exact ⟨_, rfl, .now (by simp [route])⟩
  | sendTouchEvent action id x y =>
    simp only [ActivityMessage.event] at h
    split at h
    · cases h
    next hact =>
      obtain rfl := Option.some.inj h
      exact ⟨_, if_neg hact, .now (by simp [route])⟩
  | sendStylusEvent x y pressure tilt_x tilt_y orientation buttons eraser mouse =>
    obtain rfl := Option.some.inj h
    exact ⟨_, rfl, .now (by simp [route])⟩
  | requestStylusEnabled enabled =>
    obtain rfl := Option.some.inj h
    exact ⟨_, rfl, .now (by simp [route])⟩
  | sendKeyEvent scan_code key_code key_down =>
    obtain rfl := Option.some.inj h
    exact ⟨_, rfl, .now (by simp [route])⟩
  | sendUnicode wc =>
    obtain rfl := Option.some.inj h
    exact ⟨_, rfl, .now (by simp [route])⟩

/-- A call that writes nothing asks for nothing. -/
theorem intended_eq_none {junk : LorieEvent} {m : ActivityMessage}
    (h : m.event android_to_linux_keycode junk = none) :
    m.intended android_to_linux_keycode = none := by
  cases m with
  | sendTouchEvent action id x y =>
    simp only [ActivityMessage.event] at h
    split at h
    next hact => exact if_pos hact
    · cases h
  | _ => exact absurd h (Option.some_ne_none _)

/-- What the activity writes is a sequence of frames. -/
theorem frames_written (ms : List (LorieEvent × ActivityMessage)) :
    Frames (written android_to_linux_keycode ms) (intended android_to_linux_keycode ms) := by
  induction ms with
  | nil => exact .nil
  | cons first ms ih =>
    obtain ⟨junk, m⟩ := first
    unfold written intended at ih ⊢
    cases he : m.event android_to_linux_keycode junk with
    | none =>
      have hnone := intended_eq_none android_to_linux_keycode he
      simpa only [List.flatMap_cons, List.filterMap_cons, ActivityMessage.bytes, he, hnone,
        List.nil_append] using ih
    | some e =>
      obtain ⟨d, hd, routed⟩ := routed_event android_to_linux_keycode he
      simpa only [List.flatMap_cons, List.filterMap_cons, ActivityMessage.bytes, he, hd,
        List.append_assoc] using Frames.cons routed ih

/-! ## Runs -/

namespace InputThread

/-- The read a step makes finds all the bytes it asks for in the socket. -/
def Whole (s : State) (a : Action) : Prop := a = .serve → s.pc.asks ≤ s.socket.length

/-- Where the thread is, the bytes still to come are dispatched as `todo`. -/
def Pending : Pc → List UInt8 → List Dispatched → Prop
  | .name size, stream, todo => ∃ name rest ds, stream = name ++ rest ∧
      name.length = size.name_size.toNat ∧ Frames rest ds ∧ todo = .screenSize size name :: ds
  | .clipboard count, stream, todo => ∃ data rest ds, stream = data ++ rest ∧
      data.length = count.toNat ∧ Frames rest ds ∧ todo = .clipboardSend data :: ds
  | _, stream, todo => Frames stream todo

/-- The invariant of a run: what was dispatched, followed by what the bytes still to come are
dispatched as, is what was asked for. The thread is never at `again` with an empty socket. -/
structure Inv (asked : List Dispatched) (s : State) : Prop where
  pending : ∃ todo, asked = s.dispatched ++ todo ∧ Pending s.pc (s.socket ++ s.unsent) todo
  readable : s.pc = .header → s.socket ≠ []

/-- A read that finds what it asks for returns exactly the front of the stream. -/
theorem read_whole {front rest socket unsent : List UInt8} {n : Nat}
    (stream : socket ++ unsent = front ++ rest) (hn : front.length = n)
    (whole : n ≤ socket.length) :
    ∃ left, read n socket = some (front, left) ∧ left ++ unsent = rest := by
  have hsplit : socket.take n = front ∧ socket.drop n ++ unsent = rest := by
    apply List.append_inj
    · rw [← List.append_assoc, List.take_append_drop]
      exact stream
    · rw [List.length_take, hn]
      omega
  refine ⟨socket.drop n, ?_, hsplit.2⟩
  unfold read
  rw [if_neg (fun h => h.1 (by simpa [h.2] using whole)), hsplit.1]

/-- A block into which everything was read is what was read. -/
theorem block_whole {n : Nat} {got : List UInt8} (h : got.length = n) : block n got = got := by
  unfold block
  rw [h, Nat.sub_self, List.replicate_zero, List.append_nil]

/-- Reading a whole event takes the thread into the case it is routed to, with the payload next. -/
theorem serve_header {s : State} {e : LorieEvent} {payload stream : List UInt8} {d : Dispatched}
    {ds : List Dispatched} (hpc : s.pc = .header) (whole : sizeofLorieEvent ≤ s.socket.length)
    (hstream : s.socket ++ s.unsent = e.bytes ++ (payload ++ stream)) (routed : Routed e payload d)
    (rest : Frames stream ds) :
    ∃ s', serve s = some s' ∧ s'.unsent = s.unsent ∧
      s'.socket.length + sizeofLorieEvent = s.socket.length ∧ s'.pc ≠ .header ∧ s'.pc ≠ .poll ∧
      ∃ todo, s.dispatched ++ d :: ds = s'.dispatched ++ todo ∧
        Pending s'.pc (s'.socket ++ s'.unsent) todo := by
  obtain ⟨left, hread, hleft⟩ := read_whole hstream e.length_eq whole
  have hlen : left.length + sizeofLorieEvent = s.socket.length := by
    have := congrArg List.length hstream
    have := congrArg List.length hleft
    have := e.length_eq
    simp only [List.length_append] at *
    omega
  refine ⟨{ s with socket := left }.enter (route e), ?_, ?_⟩
  · unfold serve
    simp only [hpc, hread, dif_pos e.length_eq]
  · cases routed with
    | now goes =>
      rw [goes]
      refine ⟨rfl, hlen, by simp [State.enter], by simp [State.enter], ds, ?_, ?_⟩
      · simp [State.enter]
      · show Frames (left ++ s.unsent) ds
        rw [hleft]
        exact rest
    | name goes length_eq =>
      rw [goes]
      exact ⟨rfl, hlen, by simp [State.enter], by simp [State.enter], _, rfl, payload, stream, ds,
        hleft, length_eq, rest, rfl⟩
    | clipboard goes length_eq =>
      rw [goes]
      exact ⟨rfl, hlen, by simp [State.enter], by simp [State.enter], _, rfl, payload, stream, ds,
        hleft, length_eq, rest, rfl⟩

/-- How far the thread is from its next poll, at most: the bytes it can still take, then where it
is. -/
def rank (s : State) : Nat :=
  4 * s.socket.length + match s.pc with
    | .header => 0
    | .poll => 1
    | .more => 2
    | .name _ => 3
    | .clipboard _ => 3

/-- Reading a whole payload dispatches it and leaves the frames after it. -/
theorem serve_payload {asked : List Dispatched} {s : State} {payload rest : List UInt8}
    {ds : List Dispatched} {d : Dispatched} {n : Nat} {left : List UInt8}
    (hasked : asked = s.dispatched ++ d :: ds) (hread : read n s.socket = some (payload, left))
    (hleft : left ++ s.unsent = rest) (frames : Frames rest ds) :
    Inv asked ({ s with socket := left }.enter (.now d)) ∧ left.length ≤ s.socket.length := by
  refine ⟨⟨⟨ds, ?_, ?_⟩, ?_⟩, ?_⟩
  · simp [State.enter, hasked]
  · show Frames (left ++ s.unsent) ds
    rw [hleft]
    exact frames
  · intro hpc
    cases hpc
  · unfold read at hread
    split at hread
    · cases hread
    · cases hread
      rw [List.length_drop]
      omega

/-- What a step of the thread does when its read is whole: it waits in the poll, or it makes headway
and keeps the invariant. -/
theorem serve_spec {asked : List Dispatched} {s : State} (inv : Inv asked s)
    (whole : s.pc.asks ≤ s.socket.length) :
    (serve s = none ∧ s.pc = .poll ∧ s.socket = []) ∨
      ∃ s', serve s = some s' ∧ Inv asked s' ∧ s'.unsent = s.unsent ∧ rank s' < rank s := by
  obtain ⟨⟨todo, hasked, pending⟩, readable⟩ := inv
  cases hpc : s.pc with
  | poll =>
    rw [hpc] at pending
    by_cases hempty : s.socket = []
    · refine .inl ⟨?_, rfl, hempty⟩
      unfold serve
      simp only [hpc, hempty, if_true]
    · refine .inr ⟨{ s with pc := .header }, ?_, ⟨⟨todo, hasked, pending⟩, fun _ => hempty⟩,
        rfl, ?_⟩
      · unfold serve
        simp only [hpc, hempty, if_false]
      · simp only [rank, hpc]
        omega
  | header =>
    rw [hpc] at pending whole
    -- the socket is not empty, so the next frame is there
    generalize hstream : s.socket ++ s.unsent = stream at pending
    cases pending with
    | nil => exact absurd (List.append_eq_nil_iff.mp hstream).1 (readable hpc)
    | cons routed rest =>
      obtain ⟨s', hserve, hunsent, hlen, hhead, -, todo', htodo, hpending⟩ :=
        serve_header hpc whole hstream routed rest
      refine .inr ⟨s', hserve, ⟨⟨todo', hasked.trans htodo, hpending⟩, fun h => absurd h hhead⟩,
        hunsent, ?_⟩
      unfold sizeofLorieEvent at hlen
      unfold rank
      split <;> omega
  | name size =>
    rw [hpc] at pending whole
    obtain ⟨name, rest, ds, hstream, hname, frames, rfl⟩ := pending
    obtain ⟨left, hread, hleft⟩ := read_whole hstream hname whole
    obtain ⟨inv', hle⟩ := serve_payload hasked hread hleft frames
    refine .inr ⟨_, ?_, inv', rfl, ?_⟩
    · unfold serve
      simp only [hpc, hread, block_whole hname]
    · simp only [rank, hpc, State.enter]
      omega
  | clipboard count =>
    rw [hpc] at pending whole
    obtain ⟨data, rest, ds, hstream, hdata, frames, rfl⟩ := pending
    obtain ⟨left, hread, hleft⟩ := read_whole hstream hdata whole
    obtain ⟨inv', hle⟩ := serve_payload hasked hread hleft frames
    refine .inr ⟨_, ?_, inv', rfl, ?_⟩
    · unfold serve
      simp only [hpc, hread, block_whole hdata]
    · simp only [rank, hpc, State.enter]
      omega
  | more =>
    rw [hpc] at pending
    have hserve : serve s = some { s with
        pc := if sizeofLorieEvent < s.socket.length then .header else .poll } := by
      unfold serve
      simp only [hpc]
    by_cases hmore : sizeofLorieEvent < s.socket.length
    · rw [if_pos hmore] at hserve
      refine .inr ⟨_, hserve, ⟨⟨todo, hasked, pending⟩, fun _ hnil => ?_⟩, rfl, ?_⟩
      · rw [show s.socket = [] from hnil] at hmore
        exact Nat.not_lt_zero _ hmore
      · simp only [rank, hpc]
        omega
    · rw [if_neg hmore] at hserve
      refine .inr ⟨_, hserve, ⟨⟨todo, hasked, pending⟩, fun h => ?_⟩, rfl, ?_⟩
      · cases h
      · simp only [rank, hpc]
        omega

/-- Bytes that move into the socket are still to come. -/
theorem inv_push {asked : List Dispatched} {s s' : State} {k : Nat} (inv : Inv asked s)
    (h : step s (.push k) = some s') : Inv asked s' := by
  cases h
  obtain ⟨⟨todo, hasked, pending⟩, readable⟩ := inv
  refine ⟨⟨todo, hasked, ?_⟩, fun hpc hnil => readable hpc (List.append_eq_nil_iff.mp hnil).1⟩
  show Pending s.pc ((s.socket ++ s.unsent.take k) ++ s.unsent.drop k) todo
  rw [List.append_assoc, List.take_append_drop]
  exact pending

/-- A step whose read is whole keeps the invariant. -/
theorem inv_step {asked : List Dispatched} {s s' : State} {a : Action} (inv : Inv asked s)
    (whole : Whole s a) (h : step s a = some s') : Inv asked s' := by
  cases a with
  | push k => exact inv_push inv h
  | serve =>
    rcases serve_spec inv (whole rfl) with ⟨hnone, -, -⟩ | ⟨s₁, hserve, inv', -, -⟩
    · rw [show step s .serve = serve s from rfl, hnone] at h
      cases h
    · rw [show step s .serve = serve s from rfl, hserve] at h
      cases h
      exact inv'

/-- Once every byte is in the socket, every read is whole. -/
theorem whole_of_unsent_nil {asked : List Dispatched} {s : State} (inv : Inv asked s)
    (sent : s.unsent = []) : s.pc.asks ≤ s.socket.length := by
  obtain ⟨⟨todo, -, pending⟩, readable⟩ := inv
  rw [sent, List.append_nil] at pending
  cases hpc : s.pc with
  | header =>
    rw [hpc] at pending
    generalize hstream : s.socket = stream at pending
    cases pending with
    | nil => exact absurd hstream (readable hpc)
    | @cons e _ _ _ _ _ _ =>
      rw [List.length_append, e.length_eq]
      exact Nat.le_add_right _ _
  | name size =>
    rw [hpc] at pending
    obtain ⟨name, rest, ds, hstream, hname, -, -⟩ := pending
    rw [hstream, List.length_append, hname]
    exact Nat.le_add_right _ _
  | clipboard count =>
    rw [hpc] at pending
    obtain ⟨data, rest, ds, hstream, hdata, -, -⟩ := pending
    rw [hstream, List.length_append, hdata]
    exact Nat.le_add_right _ _
  | poll => exact Nat.zero_le _
  | more => exact Nat.zero_le _

/-- A thread that waits in the poll on an empty socket, with nothing on its way, has dispatched
everything. -/
theorem dispatched_of_rest {asked : List Dispatched} {s : State} (inv : Inv asked s)
    (sent : s.unsent = []) (hpc : s.pc = .poll) (hsocket : s.socket = []) :
    s.dispatched = asked := by
  obtain ⟨⟨todo, hasked, pending⟩, -⟩ := inv
  rw [hpc, hsocket, sent] at pending
  rw [hasked, frames_nil pending, List.append_nil]

/-- Once every byte is in the socket, the thread dispatches everything and comes to rest. -/
theorem serve_to_rest {asked : List Dispatched} {s : State} (inv : Inv asked s)
    (sent : s.unsent = []) :
    ∃ n s', run step s (List.replicate n .serve) = some s' ∧ serve s' = none ∧
      s'.dispatched = asked := by
  induction hrank : rank s using Nat.strong_induction_on generalizing s with
  | _ r ih =>
    rcases serve_spec inv (whole_of_unsent_nil inv sent) with
      ⟨hnone, hpc, hsocket⟩ | ⟨s₁, hserve, inv', hunsent, hlt⟩
    · exact ⟨0, s, rfl, hnone, dispatched_of_rest inv sent hpc hsocket⟩
    · obtain ⟨n, s', hrun, hrest, hdone⟩ := ih (rank s₁) (hrank ▸ hlt) inv' (hunsent.trans sent) rfl
      exact ⟨n + 1, s', run_cons.mpr ⟨s₁, hserve, hrun⟩, hrest, hdone⟩

end InputThread

/-! ## The framing law -/

open InputThread

/-- **Framing of the activity's messages.** In every run whose reads are all whole, what the server
has dispatched is the beginning of what the activity asked for; when the thread is waiting with
nothing on its way it is all of it; and from every state reached the thread gets there once the rest
of the bytes are in the socket. -/
theorem dispatched_of_whole (ms : List (LorieEvent × ActivityMessage)) {as : List Action}
    {s : State}
    (whole : Meets step Whole (start (written android_to_linux_keycode ms)) as)
    (h : run step (start (written android_to_linux_keycode ms)) as = some s) :
    s.dispatched <+: intended android_to_linux_keycode ms ∧
      (s.unsent = [] → serve s = none → s.dispatched = intended android_to_linux_keycode ms) ∧
      ∃ n s', run step s (.push s.unsent.length :: List.replicate n .serve) = some s' ∧
        serve s' = none ∧ s'.dispatched = intended android_to_linux_keycode ms := by
  have init : Inv (intended android_to_linux_keycode ms)
      (start (written android_to_linux_keycode ms)) := by
    refine ⟨⟨_, rfl, ?_⟩, fun hpc => by cases hpc⟩
    exact frames_written android_to_linux_keycode ms
  have inv := run_induction inv_step init whole h
  refine ⟨?_, ?_, ?_⟩
  · obtain ⟨todo, hasked, -⟩ := inv.pending
    exact ⟨todo, hasked.symm⟩
  · intro sent hnone
    rcases serve_spec inv (whole_of_unsent_nil inv sent) with
      ⟨-, hpc, hsocket⟩ | ⟨s₁, hserve, -, -, -⟩
    · exact dispatched_of_rest inv sent hpc hsocket
    · rw [hserve] at hnone
      cases hnone
  · obtain ⟨pushed, hpush⟩ : ∃ pushed, step s (.push s.unsent.length) = some pushed := ⟨_, rfl⟩
    have sent : pushed.unsent = [] := by
      cases hpush
      exact List.drop_length
    obtain ⟨n, s', hrun, hrest, hdone⟩ := serve_to_rest (inv_push inv hpush) sent
    exact ⟨n, s', run_cons.mpr ⟨pushed, hpush, hrun⟩, hrest, hdone⟩

/-- A clipboard text of two letters and a key press. -/
def textThenKey : List (LorieEvent × ActivityMessage) :=
  [(Image.zero _, .sendClipboardEvent ⟨[104, 105], by decide⟩),
    (Image.zero _, .sendKeyEvent 30 0 1)]

instance : ∀ s a, Decidable (Whole s a) := fun s a =>
  inferInstanceAs (Decidable (a = .serve → s.pc.asks ≤ s.socket.length))

/-- The kernel hands over the event, then the text with half of the key event, then the rest. -/
def handedOverWhole : List Action :=
  [.push 24, .serve, .serve, .push 14, .serve, .serve, .push 12, .serve, .serve]

theorem dispatched_textThenKey :
    ∃ s, run step (start (written (fun _ => 0) textThenKey)) handedOverWhole = some s ∧
      s.dispatched <+: intended (fun _ => 0) textThenKey := by
  have whole : Meets step Whole (start (written (fun _ => 0) textThenKey)) handedOverWhole := by
    decide +kernel
  have hrun : run step (start (written (fun _ => 0) textThenKey)) handedOverWhole
      = some ⟨[], [], .more, [.clipboardSend [104, 105], .key ⟨38, 1⟩]⟩ := by decide +kernel
  exact ⟨_, hrun, (dispatched_of_whole (fun _ => 0) textThenKey whole hrun).1⟩

/-- The same two calls with the text cut in two by the kernel. -/
def handedOverCut : List Action :=
  [.push 25, .serve, .serve, .serve, .push 25, .serve, .serve, .serve, .serve, .serve]

/-- The server dispatches the first letter and a zero, takes the second letter for the beginning of
an event, and never dispatches the key. -/
theorem not_dispatched_textThenKey :
    ∃ s, run step (start (written (fun _ => 0) textThenKey)) handedOverCut = some s ∧
      s.unsent = [] ∧ serve s = none ∧ s.dispatched = [.clipboardSend [104, 0]] ∧
      ¬ s.dispatched <+: intended (fun _ => 0) textThenKey := by
  have hrun : run step (start (written (fun _ => 0) textThenKey)) handedOverCut
      = some ⟨[], [], .poll, [.clipboardSend [104, 0]]⟩ := by decide +kernel
  refine ⟨_, hrun, rfl, by decide, rfl, ?_⟩
  decide +kernel

end WinEmulator.Lorie
