import Mathlib.Data.List.TakeWhile
import WinEmulator.Lorie.ServerMessage
import WinEmulator.Lorie.Activity

/-!
# Framing of the server's messages

What the activity makes of a burst of server messages that is waiting in the socket as a whole.

`Activity.receive` is two nested loops with two different tests; `Drains` is what they amount to,
one pass after another until the socket is empty, and `receive_eq_iff` says that the two agree.
Every law below is about `Drains`.

A message other than clipboard data is decoded exactly, whatever follows it (`once_wire`). Clipboard
data is followed by a read of one byte more than was sent: at the end of the burst nothing is there
to be read, anywhere else the byte is the type of the next event. Why the rest of the burst can then
never be decoded is a matter of counting: a pass takes at least the bytes its calls stand for
(`once_cost`), and one byte is missing.

Not covered: reads that are short although the bytes are on their way.
-/

set_option autoImplicit false

namespace WinEmulator.Lorie

open WinEmulator.Lib

variable {HardwareBuffer : Type} (ndk : HardwareTransport HardwareBuffer)

/-- The call a message asks for. -/
def ServerMessage.upcall : ServerMessage HardwareBuffer → Upcall HardwareBuffer
  | .clipboardData _ data => .setClipboardText data.bytes
  | .requestClipboard _ => .requestClipboard
  | .sharedServerState _ memfd => .setSharedState memfd
  | .registerBuffer _ buffer => .addBuffer (some (buffer.image, buffer.handle))
  | .unregisterBuffer _ id => .removeBuffer id
  | .focusChanged _ => .resetIme

/-- A text is short if an array one byte longer than it still has a 32-bit size. -/
def ClipboardText.Short (data : ClipboardText) : Prop := data.bytes.length + 1 < 2 ^ 32

/-! ## One pass after another -/

namespace Activity

/-- Passes until the socket is empty, with the calls they make. -/
inductive Drains : List (Cell Fd) → List (Upcall HardwareBuffer) → Prop
  | nil : Drains [] []
  | pass {s s' : List (Cell Fd)} {calls rest : List (Upcall HardwareBuffer)} (ne : s ≠ [])
      (first : once ndk s = some (calls, s')) (tail : Drains s' rest) : Drains s (calls ++ rest)

variable {ndk}

/-! ## What a pass takes off the socket -/

/-- The bytes a call stands for, after its event. -/
def payload (ndk : HardwareTransport HardwareBuffer) : Upcall HardwareBuffer → Nat
  | .setClipboardText text => text.length
  | .setSharedState _ => 1
  | .addBuffer (some (_, handle)) => sizeofLorieBuffer + handle.wireSize ndk
  | _ => 0

/-- The one way a call can come out of fewer bytes than it stands for: the struct of a buffer
without a handle was cut short by the end of the socket, and the receiver's own template fills it
up. -/
def CutShort (s : List (Cell Fd)) (u : Upcall HardwareBuffer) : Prop :=
  s ≠ [] ∧ ∃ h : (s.map Cell.byte).length ≤ sizeofLorieBuffer, s.length < sizeofLorieBuffer ∧
    u = .addBuffer (some (recvImage (s.map Cell.byte) h, .none))

/-- A buffer takes the bytes it stands for, or it was cut short. -/
theorem recvHandle_cost {s s' : List (Cell Fd)} {r : Option (BufferImage × Handle HardwareBuffer)}
    (h : LorieBuffer_recvHandleFromUnixSocket ndk s = some (r, s')) :
    payload ndk (.addBuffer r) + s'.length ≤ s.length ∨ s' = [] ∧ CutShort s (.addBuffer r) := by
  obtain ⟨got, mid, hread, hlen, hcases⟩ := recvHandle_cases ndk h
  have hne : s ≠ [] := by
    rintro rfl
    cases hread
  obtain ⟨front, rfl, rfl, -, hshort⟩ := Socket.read_spec hread
  rw [List.length_map] at hlen hshort
  rcases Nat.lt_or_ge front.length sizeofLorieBuffer with hlt | hge
  · -- nothing is left, so no handle can have been received
    have hmid := hshort hlt
    subst hmid
    rcases hcases with ⟨-, hfd⟩ | ⟨fd, -, hfd⟩ | ⟨-, hrecv⟩ | ⟨b, -, hrecv⟩ | ⟨rfl, rfl⟩
    · cases hfd
    · cases hfd
    · rw [ndk.recv_nil] at hrecv
      cases hrecv
    · rw [ndk.recv_nil] at hrecv
      cases hrecv
    · rw [List.append_nil] at hne ⊢
      exact .inr ⟨rfl, hne, by rw [List.length_map]; exact hlen, hlt, rfl⟩
  · left
    rw [List.length_append]
    rcases hcases with ⟨rfl, hfd⟩ | ⟨fd, rfl, hfd⟩ | ⟨rfl, hrecv⟩ | ⟨b, rfl, hrecv⟩ | ⟨rfl, rfl⟩
    · obtain ⟨c, rfl, -⟩ := Socket.recvFd_spec hfd
      simp only [payload, List.length_cons]
      omega
    · obtain ⟨c, rfl, -⟩ := Socket.recvFd_spec hfd
      simp only [payload, Handle.wireSize, List.length_cons]
      omega
    · have := (ndk.recv_suffix hrecv).length_le
      simp only [payload, Handle.wireSize]
      omega
    · have := ndk.recv_length hrecv
      simp only [payload, Handle.wireSize]
      omega
    · simp only [payload, Handle.wireSize]
      omega

/-- Everything a dispatch can have done. -/
theorem dispatch_cases {e : LorieEvent} {s s' : List (Cell Fd)}
    {calls : List (Upcall HardwareBuffer)}
    (h : dispatch ndk e s = some (calls, s')) :
    (calls = [] ∧ s' = s) ∨
    (∃ got, Socket.read (e.count + 1).toNat s = some (got, s') ∧
      calls = [.setClipboardText (cString (got.take e.count.toNat))]) ∨
    (Socket.recvFd s = some (none, s') ∧ calls = []) ∨
    (∃ fd, Socket.recvFd s = some (some fd, s') ∧ calls = [.setSharedState fd]) ∨
    (∃ buffer, LorieBuffer_recvHandleFromUnixSocket ndk s = some (buffer, s') ∧
      calls = [.addBuffer buffer]) ∨
    (calls = [.requestClipboard] ∨ calls = [.removeBuffer e.removeBuffer] ∨ calls = [.resetIme])
      ∧ s' = s := by
  unfold dispatch at h
  split at h
  · split at h
    · cases h
      exact .inl ⟨rfl, rfl⟩
    · split at h
      · cases h
      next got _ hread =>
        cases h
        exact .inr (.inl ⟨got, hread, rfl⟩)
  · cases h
    exact .inr (.inr (.inr (.inr (.inr ⟨.inl rfl, rfl⟩))))
  · split at h
    · cases h
    next hfd =>
      cases h
      exact .inr (.inr (.inl ⟨hfd, rfl⟩))
    next fd _ hfd =>
      cases h
      exact .inr (.inr (.inr (.inl ⟨fd, hfd, rfl⟩)))
  · split at h
    · cases h
    next buffer _ hrecv =>
      cases h
      exact .inr (.inr (.inr (.inr (.inl ⟨buffer, hrecv, rfl⟩))))
  · cases h
    exact .inr (.inr (.inr (.inr (.inr ⟨.inr (.inl rfl), rfl⟩))))
  · cases h
    exact .inr (.inr (.inr (.inr (.inr ⟨.inr (.inr rfl), rfl⟩))))
  · cases h
    exact .inl ⟨rfl, rfl⟩

/-- A dispatch makes at most one call, and takes the bytes that call stands for unless it was cut
short. -/
theorem dispatch_cost {e : LorieEvent} {s s' : List (Cell Fd)}
    {calls : List (Upcall HardwareBuffer)}
    (h : dispatch ndk e s = some (calls, s')) :
    (calls = [] ∧ s'.length ≤ s.length) ∨ ∃ u, calls = [u] ∧
      (payload ndk u + s'.length ≤ s.length ∨ s' = [] ∧ CutShort s u) := by
  rcases dispatch_cases h with ⟨rfl, rfl⟩ | ⟨got, hread, rfl⟩ | ⟨hfd, rfl⟩ | ⟨fd, hfd, rfl⟩ |
    ⟨buffer, hrecv, rfl⟩ | ⟨rfl | rfl | rfl, rfl⟩
  · exact .inl ⟨rfl, Nat.le_refl _⟩
  · obtain ⟨front, rfl, rfl, -, -⟩ := Socket.read_spec hread
    refine .inr ⟨_, rfl, .inl ?_⟩
    have htext : (cString ((front.map Cell.byte).take e.count.toNat)).length ≤ front.length := by
      refine (List.takeWhile_sublist _).length_le.trans ?_
      rw [List.length_take, List.length_map]
      omega
    simp only [payload, List.length_append]
    omega
  · obtain ⟨c, rfl, -⟩ := Socket.recvFd_spec hfd
    exact .inl ⟨rfl, Nat.le_succ _⟩
  · obtain ⟨c, rfl, -⟩ := Socket.recvFd_spec hfd
    exact .inr ⟨_, rfl, .inl (by simp only [payload, List.length_cons]; omega)⟩
  · exact .inr ⟨_, rfl, recvHandle_cost hrecv⟩
  all_goals exact .inr ⟨_, rfl, .inl (Nat.le_of_eq (Nat.zero_add _))⟩

/-- A receive takes bytes off the front and nothing else. -/
theorem recvHandle_suffix {s s' : List (Cell Fd)}
    {r : Option (BufferImage × Handle HardwareBuffer)}
    (h : LorieBuffer_recvHandleFromUnixSocket ndk s = some (r, s')) : s' <:+ s := by
  obtain ⟨got, mid, hread, hlen, hcases⟩ := recvHandle_cases ndk h
  obtain ⟨front, rfl, -, -, -⟩ := Socket.read_spec hread
  suffices s' <:+ mid from this.trans (List.suffix_append front mid)
  rcases hcases with ⟨-, hfd⟩ | ⟨fd, -, hfd⟩ | ⟨-, hrecv⟩ | ⟨b, -, hrecv⟩ | ⟨-, rfl⟩
  · obtain ⟨c, rfl, -⟩ := Socket.recvFd_spec hfd
    exact List.suffix_cons c s'
  · obtain ⟨c, rfl, -⟩ := Socket.recvFd_spec hfd
    exact List.suffix_cons c s'
  · exact ndk.recv_suffix hrecv
  · exact ndk.recv_suffix hrecv
  · exact List.suffix_rfl

/-- Handling an event only takes from the front of the stream. -/
theorem dispatch_suffix {e : LorieEvent} {s s' : List (Cell Fd)}
    {calls : List (Upcall HardwareBuffer)} (h : dispatch ndk e s = some (calls, s')) :
    s' <:+ s := by
  rcases dispatch_cases h with ⟨-, rfl⟩ | ⟨got, hread, -⟩ | ⟨hfd, -⟩ | ⟨fd, hfd, -⟩ |
    ⟨buffer, hrecv, -⟩ | ⟨-, rfl⟩
  · exact List.suffix_rfl
  · obtain ⟨front, rfl, -, -, -⟩ := Socket.read_spec hread
    exact List.suffix_append _ _
  · obtain ⟨c, rfl, -⟩ := Socket.recvFd_spec hfd
    exact List.suffix_cons c _
  · obtain ⟨c, rfl, -⟩ := Socket.recvFd_spec hfd
    exact List.suffix_cons c _
  · exact recvHandle_suffix hrecv
  · exact List.suffix_rfl

/-- Every pass takes bytes off the front, at least one. -/
theorem once_suffix {s s' : List (Cell Fd)} {calls : List (Upcall HardwareBuffer)}
    (ne : s ≠ []) (h : once ndk s = some (calls, s')) : s' <:+ s ∧ s'.length < s.length := by
  unfold once at h
  split at h
  · cases h
  next got mid hread =>
    obtain ⟨front, rfl, rfl, -, hshort⟩ := Socket.read_spec hread
    have hfront : 0 < front.length := by
      rcases Nat.eq_zero_or_pos front.length with h0 | hpos
      · have hmid := hshort (by rw [List.length_map, h0]; decide)
        rw [List.length_eq_zero_iff] at h0
        subst h0 hmid
        exact absurd rfl ne
      · exact hpos
    suffices s' <:+ mid by
      refine ⟨this.trans (List.suffix_append front mid), ?_⟩
      have := this.length_le
      rw [List.length_append]
      omega
    split at h
    · exact dispatch_suffix h
    · cases h
      exact List.suffix_rfl

/-! ## The two loops are passes -/

/-- `xcallback` is a run of passes: what it leaves, drained, is the whole drained. -/
theorem drains_of_xcallback {fuel : Nat} {s s' : List (Cell Fd)}
    {calls : List (Upcall HardwareBuffer)} (ne : s ≠ []) (hfuel : s.length ≤ fuel)
    (h : xcallback ndk fuel s = some (calls, s')) :
    s'.length < s.length ∧ ∀ rest, Drains ndk s' rest → Drains ndk s (calls ++ rest) := by
  induction fuel generalizing s calls with
  | zero => exact absurd (List.length_eq_zero_iff.mp (Nat.le_zero.mp hfuel)) ne
  | succ fuel ih =>
    unfold xcallback at h
    split at h
    · cases h
    next first mid honce =>
      have hlt := (once_suffix ne honce).2
      split at h
      next hmore =>
        obtain ⟨⟨later, last⟩, hrec, heq⟩ := Option.map_eq_some_iff.mp h
        cases heq
        have hmid : mid ≠ [] := by
          rintro rfl
          exact Nat.not_lt_zero _ hmore
        obtain ⟨hlt', hdrain⟩ := ih hmid (by omega) hrec
        refine ⟨by omega, fun rest hrest => ?_⟩
        rw [List.append_assoc]
        exact .pass ne honce (hdrain rest hrest)
      next =>
        cases h
        exact ⟨hlt, fun rest hrest => .pass ne honce hrest⟩

/-- Conversely `xcallback` goes some way into any draining. -/
theorem xcallback_of_drains {fuel : Nat} {s : List (Cell Fd)} {all : List (Upcall HardwareBuffer)}
    (ne : s ≠ []) (hfuel : s.length ≤ fuel) (h : Drains ndk s all) :
    ∃ calls s' rest, xcallback ndk fuel s = some (calls, s') ∧ all = calls ++ rest ∧
      Drains ndk s' rest := by
  induction fuel generalizing s all with
  | zero => exact absurd (List.length_eq_zero_iff.mp (Nat.le_zero.mp hfuel)) ne
  | succ fuel ih =>
    cases h with
    | nil => exact absurd rfl ne
    | @pass _ mid first rest _ honce tail =>
      have hlt := (once_suffix ne honce).2
      unfold xcallback
      simp only [honce]
      by_cases hmore : sizeofLorieEvent < mid.length
      · have hmid : mid ≠ [] := by
          rintro rfl
          exact Nat.not_lt_zero _ hmore
        obtain ⟨calls, s', rest', hrec, rfl, htail⟩ := ih hmid (by omega) tail
        refine ⟨first ++ calls, s', rest', ?_, (List.append_assoc _ _ _).symm, htail⟩
        rw [if_pos hmore, hrec]
        rfl
      · exact ⟨first, mid, rest, if_neg hmore, rfl, tail⟩

/-- Nothing is done about an empty socket. -/
theorem drains_nil_iff {calls : List (Upcall HardwareBuffer)} :
    Drains ndk [] calls ↔ calls = [] := by
  constructor
  · intro h
    cases h with
    | nil => rfl
    | pass ne => exact absurd rfl ne
  · rintro rfl
    exact .nil

/-- The looper comes to the end of the stream exactly when the stream drains. -/
theorem looper_eq_iff {fuel : Nat} {s : List (Cell Fd)} {calls : List (Upcall HardwareBuffer)}
    (hfuel : s.length ≤ fuel) :
    looper ndk fuel s = some (calls, []) ↔ Drains ndk s calls := by
  induction fuel generalizing s calls with
  | zero =>
    obtain rfl := List.length_eq_zero_iff.mp (Nat.le_zero.mp hfuel)
    rw [drains_nil_iff]
    simp only [looper, Option.some.injEq, Prod.mk.injEq, and_true, eq_comm]
  | succ fuel ih =>
    unfold looper
    by_cases hs : s = []
    · subst hs
      rw [drains_nil_iff]
      simp only [List.isEmpty_nil, if_true, Option.some.injEq, Prod.mk.injEq, and_true, eq_comm]
    · rw [if_neg (by simpa using hs)]
      constructor
      · intro h
        split at h
        · cases h
        next first mid hcall =>
          obtain ⟨⟨later, last⟩, hrec, heq⟩ := Option.map_eq_some_iff.mp h
          cases heq
          obtain ⟨hlt, hdrain⟩ := drains_of_xcallback hs (Nat.le_refl _) hcall
          exact hdrain later ((ih (by omega)).mp hrec)
      · intro h
        obtain ⟨first, mid, rest, hcall, rfl, htail⟩ := xcallback_of_drains hs (Nat.le_refl _) h
        obtain ⟨hlt, -⟩ := drains_of_xcallback hs (Nat.le_refl _) hcall
        rw [hcall]
        simp only [(ih (by omega)).mpr htail, Option.map_some]

/-- **The looper drains the socket**: what it does to a waiting burst is exactly the passes until
nothing is left. -/
theorem receive_eq_iff {s : List (Cell Fd)} {calls : List (Upcall HardwareBuffer)} :
    receive ndk s = some (calls, []) ↔ Drains ndk s calls :=
  looper_eq_iff (Nat.le_refl _)

/-! ## Messages that are decoded exactly -/

/-- An event at the front is read whole and dispatched. -/
theorem once_event (e : LorieEvent) (s : List (Cell Fd)) :
    once ndk (Socket.cells e.bytes ++ s) = dispatch ndk e s := by
  unfold once
  rw [Socket.read_cells_of_length e.length_eq]
  exact dif_pos e.length_eq

/-- A C string is its bytes up to the first NUL, and a text has none. -/
theorem cString_text (data : ClipboardText) : cString data.bytes = data.bytes := by
  unfold cString
  rw [List.takeWhile_eq_self_iff]
  intro b hb
  have : b ≠ 0 := by
    rintro rfl
    exact data.no_nul hb
  simpa using this

/-- The array the receiver declares for a short text has one byte more than the text. -/
theorem count_toNat {data : ClipboardText} (short : data.Short) :
    (UInt32.ofNat data.bytes.length).toNat = data.bytes.length ∧
      (UInt32.ofNat data.bytes.length + 1).toNat = data.bytes.length + 1 ∧
      UInt32.ofNat data.bytes.length ≠ 0 := by
  have hpos := List.length_pos_iff.mpr data.ne_nil
  unfold ClipboardText.Short at short
  have hcount : (UInt32.ofNat data.bytes.length).toNat = data.bytes.length :=
    UInt32.toNat_ofNat_of_lt' (by unfold UInt32.size; omega)
  refine ⟨hcount, ?_, ?_⟩
  · rw [UInt32.toNat_add, hcount]
    exact Nat.mod_eq_of_lt (by simpa using short)
  · intro h
    rw [h] at hcount
    simp only [UInt32.toNat_zero] at hcount
    omega

/-- The clipboard case on a short text: the text arrives, and the byte after it is gone. -/
theorem once_clipboardData (junk : LorieEvent) {data : ClipboardText} (short : data.Short)
    (s : List (Cell Fd)) :
    once ndk (lorieSendClipboardData junk data ++ s)
      = some ([.setClipboardText data.bytes], s.tail) := by
  obtain ⟨hcount, hsize, hne⟩ := count_toNat short
  have hread : Socket.read (data.bytes.length + 1) (Socket.cells data.bytes ++ s)
      = some (data.bytes ++ (s.take 1).map Cell.byte, s.tail) := by
    cases s with
    | nil =>
      rw [List.append_nil, Socket.read_cells_all (Nat.le_succ _) data.ne_nil]
      simp
    | cons c s =>
      have hlen : (Socket.cells data.bytes : List (Cell Fd)).length = data.bytes.length :=
        Socket.cells_length _
      unfold Socket.read
      rw [if_neg (Nat.succ_ne_zero _), if_neg (by simp), List.take_append, List.drop_append, hlen,
        List.take_of_length_le (by omega), List.drop_eq_nil_of_le (by omega), List.map_append,
        Socket.cells_byte, Nat.add_sub_cancel_left]
      rfl
  unfold lorieSendClipboardData
  rw [List.append_assoc, once_event]
  unfold dispatch
  simp only [LorieEvent.type_ofClipboardSend, EventType.ofCode_code,
    LorieEvent.count_ofClipboardSend,
    if_neg hne, hsize, hread, hcount, List.take_left', cString_text]

/-- Every other message is decoded exactly and leaves what follows it alone. -/
theorem once_wire (m : ServerMessage HardwareBuffer) (s : List (Cell Fd))
    (other : ∀ junk data, m ≠ .clipboardData junk data) :
    once ndk (m.wire ndk ++ s) = some ([m.upcall], s) := by
  cases m with
  | clipboardData junk data => exact absurd rfl (other junk data)
  | requestClipboard junk =>
    show once ndk (Socket.cells _ ++ s) = _
    rw [once_event]
    simp only [dispatch, LorieEvent.type_ofType, EventType.ofCode_code, ServerMessage.upcall]
  | sharedServerState junk memfd =>
    show once ndk ((Socket.cells _ ++ ancil_send_fd memfd) ++ s) = _
    rw [List.append_assoc, once_event]
    simp only [dispatch, LorieEvent.type_ofType, EventType.ofCode_code, ServerMessage.upcall,
      ancil_send_fd, List.cons_append, List.nil_append, Socket.recvFd]
  | registerBuffer junk buffer =>
    show once ndk ((Socket.cells _ ++ LorieBuffer_sendHandleToUnixSocket ndk buffer) ++ s) = _
    rw [List.append_assoc, once_event]
    simp only [dispatch, LorieEvent.type_ofType, EventType.ofCode_code, ServerMessage.upcall,
      recvHandle_sendHandle]
  | unregisterBuffer junk id =>
    show once ndk (Socket.cells _ ++ s) = _
    rw [once_event]
    simp only [dispatch, LorieEvent.type_ofRemoveBuffer, EventType.ofCode_code,
      LorieEvent.removeBuffer_ofRemoveBuffer, ServerMessage.upcall]
  | focusChanged junk =>
    show once ndk (Socket.cells _ ++ s) = _
    rw [once_event]
    simp only [dispatch, LorieEvent.type_ofType, EventType.ofCode_code, ServerMessage.upcall]

/-! ## Counting -/

/-- The bytes a call stands for. -/
def cost (ndk : HardwareTransport HardwareBuffer) (u : Upcall HardwareBuffer) : Nat :=
  sizeofLorieEvent + payload ndk u

/-- A message takes the bytes its call stands for. -/
theorem wire_length (ndk : HardwareTransport HardwareBuffer) (m : ServerMessage HardwareBuffer) :
    (m.wire ndk).length = cost ndk m.upcall := by
  cases m with
  | clipboardData junk data =>
    show (Socket.cells _ ++ Socket.cells _).length = _
    rw [List.length_append, Socket.cells_length, Socket.cells_length, Image.length_eq]
    rfl
  | requestClipboard junk => exact (Socket.cells_length _).trans (Image.length_eq _)
  | sharedServerState junk memfd =>
    show (Socket.cells _ ++ ancil_send_fd memfd).length = _
    rw [List.length_append, Socket.cells_length, Image.length_eq]
    rfl
  | registerBuffer junk buffer =>
    show (Socket.cells _ ++ LorieBuffer_sendHandleToUnixSocket ndk buffer).length = _
    rw [List.length_append, Socket.cells_length, Image.length_eq, sendHandle_length]
    rfl
  | unregisterBuffer junk id => exact (Socket.cells_length _).trans (Image.length_eq _)
  | focusChanged junk => exact (Socket.cells_length _).trans (Image.length_eq _)

/-- A pass takes at least the bytes its calls stand for, or it was the last one and was cut
short. -/
theorem once_cost {s s' : List (Cell Fd)} {calls : List (Upcall HardwareBuffer)}
    (h : once ndk s = some (calls, s')) :
    (calls.map (cost ndk)).sum + s'.length ≤ s.length ∨
      ∃ u front tail, calls = [u] ∧ s = front ++ tail ∧ s' = [] ∧ CutShort tail u := by
  unfold once at h
  split at h
  · cases h
  next got mid hread =>
    obtain ⟨front, rfl, rfl, -, -⟩ := Socket.read_spec hread
    split at h
    next hlen =>
      rw [List.length_map] at hlen
      rcases dispatch_cost h with ⟨rfl, hle⟩ | ⟨u, rfl, hle | ⟨hnil, hcut⟩⟩
      · left
        simp only [List.map_nil, List.sum_nil, List.length_append]
        omega
      · left
        simp only [List.map_cons, List.map_nil, List.sum_cons, List.sum_nil, cost,
          List.length_append]
        omega
      · exact .inr ⟨u, front, mid, rfl, rfl, hnil, hcut⟩
    next =>
      cases h
      left
      simp only [List.map_nil, List.sum_nil, List.length_append]
      omega

/-- The calls a drained socket made stand for no more bytes than it held, except that the very last
one may have been cut short. -/
theorem drains_cost {s : List (Cell Fd)} {calls : List (Upcall HardwareBuffer)}
    (h : Drains ndk s calls) :
    (calls.map (cost ndk)).sum ≤ s.length ∨
      ∃ init u front tail, calls = init ++ [u] ∧ s = front ++ tail ∧ CutShort tail u := by
  induction h with
  | nil => exact .inl (Nat.le_refl _)
  | @pass s s' calls rest ne first tail ih =>
    rcases once_cost first with hle | ⟨u, front, cut, rfl, rfl, rfl, hcut⟩
    · rcases ih with hle' | ⟨init, u, front, cut, rfl, rfl, hcut⟩
      · left
        rw [List.map_append, List.sum_append]
        omega
      · -- the cut call is also at the end of the longer socket
        right
        obtain ⟨taken, rfl⟩ := (once_suffix ne first).1
        exact ⟨calls ++ init, u, taken ++ front, cut, by rw [List.append_assoc],
          by rw [List.append_assoc], hcut⟩
    · rw [drains_nil_iff] at tail
      subst tail
      exact .inr ⟨[], u, front, cut, rfl, rfl, hcut⟩

/-- A decoded text is short: the array it was read into had a 32-bit size. -/
theorem dispatch_text_short {e : LorieEvent} {s s' : List (Cell Fd)}
    {calls : List (Upcall HardwareBuffer)} (h : dispatch ndk e s = some (calls, s'))
    {text : List UInt8} (mem : .setClipboardText text ∈ calls) : text.length + 1 < 2 ^ 32 := by
  rcases dispatch_cases h with ⟨rfl, -⟩ | ⟨got, hread, rfl⟩ | ⟨-, rfl⟩ | ⟨fd, -, rfl⟩ |
    ⟨buffer, -, rfl⟩ | ⟨rfl | rfl | rfl, -⟩
  · cases mem
  · obtain rfl : text = cString (got.take e.count.toNat) := by simpa using mem
    obtain ⟨front, -, -, hgot, -⟩ := Socket.read_spec hread
    have htext : (cString (got.take e.count.toNat)).length ≤ min e.count.toNat got.length := by
      rw [← List.length_take]
      exact (List.takeWhile_sublist _).length_le
    have hcount := e.count.toNat_lt
    rw [UInt32.toNat_add] at hgot
    -- a count of all ones declares an array of no bytes
    rcases Nat.lt_or_ge (e.count.toNat + 1) (2 ^ 32) with hlt | hge
    · omega
    · have hzero : (e.count.toNat + UInt32.toNat 1) % 2 ^ 32 = 0 := by
        have : e.count.toNat + UInt32.toNat 1 = 2 ^ 32 := by
          show e.count.toNat + 1 = 2 ^ 32
          omega
        rw [this, Nat.mod_self]
      omega
  all_goals simp at mem

/-- A text that arrives has fewer than `2 ^ 32 - 1` bytes. -/
theorem drains_text_short {s : List (Cell Fd)} {calls : List (Upcall HardwareBuffer)}
    (h : Drains ndk s calls) {text : List UInt8} (mem : .setClipboardText text ∈ calls) :
    text.length + 1 < 2 ^ 32 := by
  induction h with
  | nil => cases mem
  | pass ne first tail ih =>
    rcases List.mem_append.mp mem with hfirst | hrest
    · unfold once at first
      split at first
      · cases first
      · split at first
        · exact dispatch_text_short first hfirst
        · cases first
          cases hfirst
    · exact ih hrest

/-! ## A buffer is never its own tail -/

/-- A list that is its own tail followed by `filler` has no element the filler lacks. -/
private theorem forall_mem_of_eq_drop_append {α : Type} {l filler : List α} {d : Nat} (hd : 0 < d)
    (h : l = l.drop d ++ filler) {p : α → Prop} (hp : ∀ x ∈ filler, p x) : ∀ x ∈ l, p x := by
  -- every element moves `d` places to the right until it falls into the filler
  have main : ∀ n k, l.length - k ≤ n → ∀ x ∈ l.drop k, p x := by
    intro n
    induction n with
    | zero =>
      intro k hk x hx
      rw [List.drop_eq_nil_of_le (by omega)] at hx
      cases hx
    | succ n ih =>
      intro k hk x hx
      rw [h, List.drop_append, List.drop_drop] at hx
      rcases List.mem_append.mp hx with hx | hx
      · rcases Nat.lt_or_ge k l.length with hlt | hge
        · exact ih (d + k) (by omega) x hx
        · rw [List.drop_eq_nil_of_le (by omega)] at hx
          cases hx
      · exact hp x (List.mem_of_mem_drop hx)
  intro x hx
  exact main l.length 0 (by omega) x hx

/-- The type byte of a `REGULAR` buffer is nowhere in the template after its first byte. -/
private theorem recvTemplate_tail_ne_one : ∀ b ∈ recvTemplate.bytes.drop 1, b ≠ 1 := by
  decide +kernel

/-- A buffer that was sent last is not what a cut-short receive makes of its own last bytes. -/
theorem not_cutShort_registered {before front tail : List (Cell Fd)} {junk : LorieEvent}
    {b : LorieBuffer HardwareBuffer}
    (h : before ++ Socket.cells b.image.bytes = front ++ tail)
    (cut : CutShort tail (ServerMessage.registerBuffer junk b).upcall) : False := by
  obtain ⟨ne, hle, hlt, heq⟩ := cut
  simp only [ServerMessage.upcall, Upcall.addBuffer.injEq, Option.some.injEq, Prod.mk.injEq] at heq
  obtain ⟨himage, hhandle⟩ := heq
  have hpos := List.length_pos_iff.mpr ne
  -- the cut-off struct is a proper tail of the struct that was sent
  have hsuffix : tail <:+ Socket.cells b.image.bytes := by
    apply List.suffix_of_suffix_length_le (List.suffix_append front tail)
    · rw [← h]
      exact List.suffix_append _ _
    · rw [Socket.cells_length, b.image.length_eq]
      omega
  have htail : tail.map Cell.byte = b.image.bytes.drop (sizeofLorieBuffer - tail.length) := by
    have hmap := hsuffix.map Cell.byte
    rw [Socket.cells_byte, List.suffix_iff_eq_drop, List.length_map, b.image.length_eq] at hmap
    exact hmap
  have hperiod : b.image.bytes = b.image.bytes.drop (sizeofLorieBuffer - tail.length)
      ++ recvTemplate.bytes.drop tail.length := by
    have hbytes : b.image.bytes = tail.map Cell.byte
        ++ recvTemplate.bytes.drop (tail.map Cell.byte).length := congrArg Image.bytes himage
    rw [List.length_map, htail] at hbytes
    exact hbytes
  have hall : ∀ x ∈ b.image.bytes, x ≠ 1 := by
    refine forall_mem_of_eq_drop_append (by omega) hperiod ?_
    intro x hx
    exact recvTemplate_tail_ne_one x ((List.drop_subset_drop_left _ hpos) hx)
  -- but the type of a buffer without a handle is 1
  have htype : b.image.read UInt8 21 = 1 :=
    BufferType.code_of_regular (LorieBuffer.type_of_handle_none hhandle)
  exact hall _ (Image.read_uint8_mem b.image (by decide)) htype

end Activity

/-! ## The framing law -/

open Activity

/-- Clipboard data is only ever the last message of the burst, and its text is short. -/
def ClipboardLast (ms : List (ServerMessage HardwareBuffer)) : Prop :=
  ∀ before junk data after, ms = before ++ .clipboardData junk data :: after →
    after = [] ∧ data.Short

/-- The burst `ms`, waiting in the socket as a whole, is decoded exactly: the calls are those of the
messages, in order, and no byte is left. -/
def DecodedExactly (ms : List (ServerMessage HardwareBuffer)) : Prop :=
  receive ndk (ms.flatMap (·.wire ndk)) = some (ms.map (·.upcall), [])

/-- A message that carries no text does not matter for where the texts stand. -/
theorem clipboardLast_cons_iff {m : ServerMessage HardwareBuffer}
    {ms : List (ServerMessage HardwareBuffer)} (other : ∀ junk data, m ≠ .clipboardData junk data) :
    ClipboardLast (m :: ms) ↔ ClipboardLast ms := by
  constructor
  · intro h before junk data after heq
    exact h (m :: before) junk data after (by rw [heq, List.cons_append])
  · intro h before junk data after heq
    cases before with
    | nil =>
      cases heq
      exact absurd rfl (other junk data)
    | cons m' before =>
      cases heq
      exact h before junk data after rfl

theorem wire_ne_nil (m : ServerMessage HardwareBuffer) : m.wire ndk ≠ [] := by
  intro h
  have hlen := wire_length ndk m
  rw [h] at hlen
  unfold cost sizeofLorieEvent at hlen
  simp only [List.length_nil] at hlen
  omega

variable {ndk}

/-- A pass whose outcome is known can be taken off a draining. -/
theorem drains_pass_iff {s s' : List (Cell Fd)} {first rest : List (Upcall HardwareBuffer)}
    (ne : s ≠ []) (honce : once ndk s = some (first, s')) :
    Drains ndk s (first ++ rest) ↔ Drains ndk s' rest := by
  constructor
  · intro h
    generalize hall : first ++ rest = all at h
    cases h with
    | nil => exact absurd rfl ne
    | pass _ honce' tail =>
      rw [honce] at honce'
      cases honce'
      rw [List.append_cancel_left hall]
      exact tail
  · exact .pass ne honce

/-- Once a byte is missing at the front, no draining makes the calls of the burst. -/
theorem not_drains_tail {ms : List (ServerMessage HardwareBuffer)} (ne : ms ≠ []) :
    ¬ Drains ndk (ms.flatMap (·.wire ndk)).tail (ms.map (·.upcall)) := by
  intro h
  have hsum : ((ms.map (·.upcall)).map (cost ndk)).sum = (ms.flatMap (·.wire ndk)).length := by
    rw [List.length_flatMap, List.map_map]
    congr 1
    apply List.map_congr_left
    intro m _
    exact (wire_length ndk m).symm
  obtain ⟨init, m, rfl⟩ := List.eq_nil_or_concat' ms |>.resolve_left ne
  rcases drains_cost h with hle | ⟨calls, u, front, cut, hcalls, htail, hcut⟩
  · rw [hsum, List.length_tail] at hle
    have hpos : 0 < ((init ++ [m]).flatMap (·.wire ndk)).length := by
      rw [List.flatMap_append, List.length_append, List.flatMap_singleton]
      have := List.length_pos_iff.mpr (wire_ne_nil ndk m)
      omega
    omega
  · rw [List.map_append, List.map_singleton] at hcalls
    obtain ⟨-, hu⟩ := List.append_inj' hcalls rfl
    cases hu
    cases m with
    | registerBuffer junk b =>
      have hhandle : b.handle = .none := by
        obtain ⟨_, _, _, heq⟩ := hcut
        simp only [ServerMessage.upcall, Upcall.addBuffer.injEq, Option.some.injEq,
          Prod.mk.injEq] at heq
        exact heq.2
      have hheader :
          (Socket.cells (LorieEvent.ofType junk .addBuffer).bytes : List (Cell Fd)) ≠ [] := by
        intro hnil
        have := congrArg List.length hnil
        rw [Socket.cells_length, Image.length_eq] at this
        cases this
      rw [List.flatMap_append, List.flatMap_singleton] at htail
      simp only [ServerMessage.wire, lorieRegisterBuffer, sendHandle_of_handle_none ndk hhandle]
        at htail
      rw [← List.append_assoc, List.tail_append_of_ne_nil (by simp [hheader])] at htail
      exact not_cutShort_registered htail hcut
    | _ =>
      obtain ⟨_, _, _, heq⟩ := hcut
      cases heq

/-- **Framing of the server's messages.** A burst is decoded exactly if and only if clipboard data
is its last message at most. -/
theorem decodedExactly_iff (ms : List (ServerMessage HardwareBuffer)) :
    DecodedExactly ndk ms ↔ ClipboardLast ms := by
  unfold DecodedExactly
  rw [receive_eq_iff]
  induction ms with
  | nil =>
    refine ⟨fun _ before junk data after heq => ?_, fun _ => .nil⟩
    exact absurd heq (by simp)
  | cons m ms ih =>
    have hne : m.wire ndk ++ ms.flatMap (·.wire ndk) ≠ [] := by
      simp [wire_ne_nil ndk m]
    rw [List.flatMap_cons, List.map_cons, ← List.singleton_append]
    by_cases hclip : ∃ junk data, m = .clipboardData junk data
    · obtain ⟨junk, data, rfl⟩ := hclip
      constructor
      · intro h
        have short : data.Short :=
          drains_text_short h (List.mem_append_left _ (List.mem_singleton.mpr rfl))
        have htail := (drains_pass_iff hne (once_clipboardData junk short _)).mp h
        have hnil : ms = [] := by
          by_contra ne
          exact not_drains_tail ne htail
        subst hnil
        intro before junk' data' after heq
        cases before with
        | nil =>
          cases heq
          exact ⟨rfl, short⟩
        | cons m' before => simp at heq
      · intro h
        obtain ⟨rfl, short⟩ := h [] junk data ms rfl
        exact (drains_pass_iff hne (once_clipboardData junk short _)).mpr .nil
    · have other : ∀ junk data, m ≠ .clipboardData junk data := by
        intro junk data heq
        exact hclip ⟨junk, data, heq⟩
      rw [drains_pass_iff hne (once_wire m _ other), clipboardLast_cons_iff other]
      exact ih

/-- A one-letter text and a focus change behind it. -/
def clipboardThenFocus : List (ServerMessage Fd) :=
  [.clipboardData (Image.zero _) ⟨[97], by decide, by decide⟩, .focusChanged (Image.zero _)]

/-- The text arrives and the focus change does not: its event is one byte short and is thrown
away. -/
theorem not_decodedExactly_clipboardThenFocus :
    receive HardwareTransport.ofFd (clipboardThenFocus.flatMap (·.wire HardwareTransport.ofFd))
      = some ([.setClipboardText [97]], []) ∧
    ¬ DecodedExactly HardwareTransport.ofFd clipboardThenFocus := by
  have hreceive : receive HardwareTransport.ofFd
      (clipboardThenFocus.flatMap (·.wire HardwareTransport.ofFd))
        = some ([.setClipboardText [97]], []) := by decide +kernel
  refine ⟨hreceive, ?_⟩
  unfold DecodedExactly
  rw [hreceive]
  intro h
  cases h

end WinEmulator.Lorie
