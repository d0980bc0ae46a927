import WinEmulator.X11.InputConnection

/-!
# Composing text, simulated

The connection counts UTF-16 units where the X client counts characters. So it erases too much when
it erases a character outside the Basic Multilingual Plane, and types two question marks where it
appends one to what it has typed. `simulated_iff` says that nothing else goes wrong: the client's
text is the document's after every call exactly when no call has to do either.
-/

set_option autoImplicit false

namespace WinEmulator.X11.InputConnection

open WinEmulator.Lib
open WinEmulator.Lib.Utf16 (Unit16 Plain)

/-! ## Text events -/

/-- Decoding gives the encoded character back. -/
theorem mbrtowc_encode (c : Char) (rest : List UInt8) :
    mbrtowc (String.utf8EncodeChar c ++ rest) = some c := by
  have hlength : (String.utf8EncodeChar c).length ≤ 4 := by
    rw [String.length_utf8EncodeChar]
    exact Char.utf8Size_le_four c
  rw [mbrtowc, List.take_append, List.take_of_length_le hlength, List.toByteArray_append]
  exact ByteArray.utf8DecodeChar?_utf8EncodeChar_append

theorem encode_head_ne_zero {c : Char} (hc : c ≠ '\x00') {b : UInt8} {bs : List UInt8}
    (h : String.utf8EncodeChar c = b :: bs) : b ≠ 0 := by
  rintro rfl
  have hnul : String.utf8EncodeChar '\x00' = [0] := by decide
  have hdecode := mbrtowc_encode '\x00' bs
  rw [hnul, List.singleton_append, ← h, ← List.append_nil (String.utf8EncodeChar c), mbrtowc_encode]
    at hdecode
  exact hc (Option.some.inj hdecode)

/-- Sending an encoded text types its characters. -/
theorem sendUnicode_encode {cs : List Char} (hnul : '\x00' ∉ cs) {fuel : Nat}
    (hfuel : (cs.flatMap String.utf8EncodeChar).length ≤ fuel) :
    sendUnicode fuel (cs.flatMap String.utf8EncodeChar) = cs := by
  induction cs generalizing fuel with
  | nil => cases fuel <;> rfl
  | cons c cs ih =>
    rw [List.flatMap_cons, List.length_append, String.length_utf8EncodeChar] at *
    obtain ⟨hc, hcs⟩ : '\x00' ≠ c ∧ '\x00' ∉ cs := by simpa using hnul
    have hpos : 0 < c.utf8Size := Char.utf8Size_pos c
    obtain ⟨b, bs, hb⟩ : ∃ b bs, String.utf8EncodeChar c = b :: bs := by
      refine List.exists_cons_of_ne_nil fun hnil => ?_
      have hlength := String.length_utf8EncodeChar c
      rw [hnil] at hlength
      exact Nat.ne_of_gt hpos hlength.symm
    cases fuel with
    | zero => omega
    | succ fuel =>
      have hdrop : (String.utf8EncodeChar c ++ cs.flatMap String.utf8EncodeChar).drop c.utf8Size =
          cs.flatMap String.utf8EncodeChar := List.drop_left' (String.length_utf8EncodeChar c)
      have hwc := mbrtowc_encode c (cs.flatMap String.utf8EncodeChar)
      rw [hb, List.cons_append] at hdrop hwc ⊢
      simp only [sendUnicode, if_neg (encode_head_ne_zero hc.symm hb), hwc, hdrop]
      rw [ih hcs (by omega)]

/-- A text event with bytes of whole characters is received as them. -/
theorem sendTextEvent_getBytes {units : List Unit16} (hnul : '\x00' ∉ Utf16.decode units) :
    sendTextEvent (getBytes units) = Utf16.decode units :=
  sendUnicode_encode hnul (Nat.le_refl _)

/-- A text that is committed whole arrives whole. -/
theorem sendTextEvent_text (t : Text) : sendTextEvent (getBytes t.units) = t.chars := by
  have hdecode : Utf16.decode t.units = t.chars := Utf16.decode_encode t.chars
  rw [sendTextEvent_getBytes (hdecode ▸ t.noNul), hdecode]

/-- What the units of a text give when each is sent on its own. -/
def typed (cs : List Char) : List Char :=
  (Utf16.encode cs).flatMap fun u => sendTextEvent (getBytes [u])

theorem typed_cons (c : Char) (cs : List Char) :
    typed (c :: cs) = (Utf16.encodeChar c).flatMap (fun u => sendTextEvent (getBytes [u])) ++
      typed cs := by
  rw [typed, Utf16.encode_cons, List.flatMap_append]
  rfl

/-- A text of the basic plane arrives whole when it is sent unit by unit. -/
theorem typed_of_plain {cs : List Char} (hplain : ∀ c ∈ cs, Plain c) (hnul : '\x00' ∉ cs) :
    typed cs = cs := by
  induction cs with
  | nil => rfl
  | cons c cs ih =>
    obtain ⟨hc, hcs⟩ := List.forall_mem_cons.mp hplain
    have hdecode : Utf16.decode [UInt16.ofNat c.toNat] = [c] := by
      have := Utf16.decode_encodeChar c []
      rwa [Utf16.encodeChar, if_pos hc] at this
    have hne : '\x00' ∉ Utf16.decode [UInt16.ofNat c.toNat] := by
      rw [hdecode]
      exact fun h => hnul (List.mem_singleton.mp h ▸ List.mem_cons_self ..)
    rw [typed_cons, ih hcs fun h => hnul (List.mem_cons_of_mem _ h), Utf16.encodeChar, if_pos hc,
      List.flatMap_cons,
      sendTextEvent_getBytes hne, hdecode]
    rfl

/-- A unit of a text is received as one character, whatever it is. -/
theorem length_sendTextEvent_unit {u : Unit16} (hu : u ≠ 0) :
    (sendTextEvent (getBytes [u])).length = 1 := by
  have hnul : '\x00' ∉ Utf16.decode [u] := by
    rw [Utf16.decode, List.mem_singleton]
    split
    · decide
    case isFalse hsurrogate =>
      intro hc
      have hvalid : u.toNat.isValidChar := by
        have hlt := u.toNat_lt
        simp only [Utf16.isHighSurrogate, Utf16.isLowSurrogate, Bool.or_eq_true, Bool.and_eq_true,
          decide_eq_true_eq] at hsurrogate
        simp only [Nat.isValidChar]
        omega
      have hofNat : (Char.ofNat u.toNat).toNat = u.toNat := by
        rw [Char.ofNat, dif_pos hvalid]
        rfl
      exact hu (UInt16.toNat_inj.mp (hofNat.symm.trans (congrArg Char.toNat hc.symm)))
  rw [sendTextEvent_getBytes hnul]
  rfl

theorem ne_zero_of_mem_encode {cs : List Char} (hnul : '\x00' ∉ cs) {u : Unit16}
    (hu : u ∈ Utf16.encode cs) :
    u ≠ 0 := by
  obtain ⟨c, hc, hu⟩ := List.mem_flatMap.mp hu
  have hvalid := Utf16.toNat_valid c
  have hpos : c.toNat ≠ 0 := fun h => hnul ((Char.toNat_inj.mp h : c = '\x00') ▸ hc)
  have hne : ∀ n, n ≠ 0 → n < 65536 → UInt16.ofNat n ≠ 0 := fun n hn hlt h => by
    have := congrArg UInt16.toNat h
    rw [UInt16.toNat_ofNat_of_lt' hlt] at this
    exact hn this
  unfold Utf16.encodeChar at hu
  split at hu
  case isTrue hplain =>
    rw [List.mem_singleton.mp hu]
    exact hne _ hpos hplain
  case isFalse hplain =>
    simp only [List.mem_cons, List.not_mem_nil, or_false] at hu
    rcases hu with rfl | rfl
    · exact hne _ (by omega) (by omega)
    · exact hne _ (by omega) (by omega)

/-- Unit by unit, as many characters arrive as there are units. -/
theorem length_typed {cs : List Char} (hnul : '\x00' ∉ cs) :
    (typed cs).length = (Utf16.encode cs).length := by
  have hone : ∀ u ∈ Utf16.encode cs, (sendTextEvent (getBytes [u])).length = 1 := fun u hu =>
    length_sendTextEvent_unit (ne_zero_of_mem_encode hnul hu)
  rw [typed, List.length_flatMap, List.map_congr_left hone]
  simp

/-- A text that is typed unit by unit comes out right when it stays in the plane, and only then. -/
theorem typed_eq_iff {cs : List Char} (hnul : '\x00' ∉ cs) : typed cs = cs ↔ ∀ c ∈ cs, Plain c := by
  refine ⟨fun h => ?_, fun h => typed_of_plain h hnul⟩
  exact Utf16.length_encode_eq_iff.mp ((length_typed hnul).symm.trans (congrArg List.length h))

/-! ## Backspaces -/

theorem sendDel_eq_take (n : Nat) (remote : List Char) :
    sendDel n remote = remote.take (remote.length - n) := by
  induction n with
  | zero => exact (List.take_length).symm
  | succ n ih =>
    rw [sendDel, Function.iterate_succ_apply', ← sendDel, ih, List.dropLast_eq_take, List.take_take,
      List.length_take]
    congr 1
    omega

/-- So many backspaces as a text has units erase it when it stays in the plane, and only then,
unless nothing is before it. -/
theorem sendDel_encode {before cs : List Char} :
    sendDel (Utf16.encode cs).length (before ++ cs) = before ↔ (∀ c ∈ cs, Plain c) ∨
      before = [] := by
  have hle := Utf16.length_le_length_encode cs
  rw [sendDel_eq_take, List.length_append, ← Utf16.length_encode_eq_iff]
  have htake : (before ++ cs).take (before.length + cs.length - (Utf16.encode cs).length) =
      before.take (before.length + cs.length - (Utf16.encode cs).length) :=
    List.take_append_of_le_length (by omega)
  rw [htake, ← List.length_eq_zero_iff (l := before)]
  constructor
  · intro h
    have := congrArg List.length h
    rw [List.length_take] at this
    omega
  · exact fun h => List.take_of_length_le (by omega)

/-! ## Calls -/

/-- What a call that replaces `old` by `new` has to erase and to type stays in the plane, or there
is nothing before it that could be erased too. -/
def Typable (committed old new : List Char) : Prop :=
  if old ≠ [] ∧ new ≠ [] ∧ new <+: old then ∀ c ∈ old.drop new.length, Plain c
  else if old ≠ [] ∧ new ≠ [] ∧ old <+: new then ∀ c ∈ new.drop old.length, Plain c
  else (∀ c ∈ old, Plain c) ∨ committed = []

def Simulates (b : Both) : Call → Prop
  | .setComposingText text => Typable b.document.committed b.document.composing text.chars
  | .commitText text => Typable b.document.committed b.document.composing text.chars
  | .finishComposingText => True

theorem foldl_typed (units : List Unit16) (remote : List Char) :
    units.foldl (fun remote u => remote ++ sendTextEvent (getBytes [u])) remote =
      remote ++ units.flatMap fun u => sendTextEvent (getBytes [u]) := by
  induction units generalizing remote with
  | nil => exact (List.append_nil remote).symm
  | cons u units ih => rw [List.foldl_cons, ih, List.flatMap_cons, List.append_assoc]

/-- The composing text as the connection has it. -/
def composing (s : State) : List Char := (s.currentComposingText.map Text.chars).getD []

theorem units_composing (s : State) :
    (s.currentComposingText.map Text.units).getD [] = Utf16.encode (composing s) := by
  unfold composing
  cases s.currentComposingText <;> rfl

/-- The client's text when the new text only drops the end of the old one. -/
theorem remote_replaceText_shorter {s : State} {text : Text} {reuse : Bool} {suffix : List Char}
    (hold : composing s = text.chars ++ suffix) (hnew : text.chars ≠ []) :
    (replaceText text reuse s).remote = sendDel (Utf16.encode suffix).length s.remote := by
  have hunits : Utf16.encode (composing s) = text.units ++ Utf16.encode suffix := by
    rw [hold, Utf16.encode_append]
    rfl
  have hne : text.units ≠ [] := fun h => hnew (Utf16.encode_eq_nil.mp h)
  simp only [replaceText, units_composing, hunits]
  rw [if_pos ⟨List.append_ne_nil_of_left_ne_nil hne _, hne, .inl (List.prefix_append ..)⟩,
    foldl_typed,
    List.length_append, Nat.add_sub_cancel_left, List.drop_eq_nil_of_le (Nat.le_add_right ..)]
  exact List.append_nil _

/-- When it only goes on after the old one. -/
theorem remote_replaceText_longer {s : State} {text : Text} {reuse : Bool} {suffix : List Char}
    (hnew : text.chars = composing s ++ suffix) (hold : composing s ≠ []) :
    (replaceText text reuse s).remote = s.remote ++ typed suffix := by
  have hunits : text.units = Utf16.encode (composing s) ++ Utf16.encode suffix := by
    rw [Text.units, hnew, Utf16.encode_append]
  have hne : Utf16.encode (composing s) ≠ [] := fun h => hold (Utf16.encode_eq_nil.mp h)
  simp only [replaceText, units_composing, hunits]
  rw [if_pos ⟨hne, List.append_ne_nil_of_left_ne_nil hne _, .inr (List.prefix_append ..)⟩,
    foldl_typed,
    List.length_append, Nat.sub_eq_zero_of_le (Nat.le_add_right ..), List.drop_left]
  rfl

/-- And when it is another one. -/
theorem remote_replaceText_other {s : State} {text : Text} {reuse : Bool}
    (h : ¬ (composing s ≠ [] ∧ text.chars ≠ [] ∧
      (text.chars <+: composing s ∨ composing s <+: text.chars))) :
    (replaceText text reuse s).remote = sendDel
    (Utf16.encode (composing s)).length s.remote ++ text.chars := by
  simp only [replaceText, units_composing]
  rw [if_neg, sendTextEvent_text]
  rintro ⟨hold, hnew, hpre⟩
  refine h ⟨fun he => hold (he ▸ Utf16.encode_nil), fun he => hnew (Utf16.encode_eq_nil.mpr he), ?_⟩
  exact hpre.imp Utf16.encode_isPrefix.mp Utf16.encode_isPrefix.mp

/-- A replacement is right exactly when it is typable. -/
theorem remote_replaceText_iff {s : State} {text : Text} {reuse : Bool} {committed : List Char}
    (hremote : s.remote = committed ++ composing s) :
    (replaceText text reuse s).remote = committed ++ text.chars ↔
      Typable committed (composing s) text.chars := by
  unfold Typable
  split
  case isTrue h =>
    obtain ⟨-, hnew, suffix, hsuffix⟩ := h
    rw [remote_replaceText_shorter hsuffix.symm hnew, hremote, ← hsuffix, ← List.append_assoc,
      sendDel_encode,
      List.drop_left]
    exact or_iff_left fun h => hnew (List.append_eq_nil_iff.mp h).2
  case isFalse hshorter =>
    split
    case isTrue h =>
      obtain ⟨hold, -, suffix, hsuffix⟩ := h
      have hnul : '\x00' ∉ suffix := fun hmem => text.noNul (hsuffix ▸ List.mem_append_right _ hmem)
      rw [remote_replaceText_longer hsuffix.symm hold, hremote, ← hsuffix, List.append_assoc,
        List.drop_left,
        List.append_cancel_left_eq, List.append_cancel_left_eq, typed_eq_iff hnul]
    case isFalse hlonger =>
      have hother : ¬ (composing s ≠ [] ∧ text.chars ≠ [] ∧
          (text.chars <+: composing s ∨ composing s <+: text.chars)) := by
        rintro ⟨hold, hnew, hpre | hpre⟩
        · exact hshorter ⟨hold, hnew, hpre⟩
        · exact hlonger ⟨hold, hnew, hpre⟩
      rw [remote_replaceText_other hother, hremote, List.append_cancel_right_eq, sendDel_encode]

/-! ## Runs -/

/-- The connection composes what the document does. -/
def Composes (b : Both) : Prop := composing b.connection = b.document.composing

/-- The client's text is the document's. -/
def Right (b : Both) : Prop := b.connection.remote = b.document.text

/-- **Step lemma.** After every call both sides hold the same composing text. -/
theorem Composes.step {b b' : Both} {c : Call} (h : step b c = some b') : Composes b' := by
  cases h
  cases c <;> rfl

/-- From a text that is right, a call leads to one exactly when it can be simulated. -/
theorem right_step_iff {b b' : Both} {c : Call} (hcomposes : Composes b) (hright : Right b)
    (h : step b c = some b') : Right b' ↔ Simulates b c := by
  have hremote : b.connection.remote = b.document.committed ++ composing b.connection := by
    rw [hcomposes]
    exact hright
  cases h
  cases c with
  | setComposingText text =>
    show (replaceText text true b.connection).remote = b.document.committed ++ text.chars ↔
      Typable _ _ _
    rw [remote_replaceText_iff hremote, hcomposes]
  | commitText text =>
    show (replaceText text false b.connection).remote = b.document.committed ++ text.chars ++ [] ↔
      Typable _ _ _
    rw [List.append_nil, remote_replaceText_iff hremote, hcomposes]
  | finishComposingText =>
    refine iff_of_true ?_ trivial
    show b.connection.remote = b.document.committed ++ b.document.composing ++ []
    rw [List.append_nil]
    exact hright

/-- **The texts agree all along exactly when every call is simulated.** -/
theorem right_always_iff {b : Both} (hcomposes : Composes b) (hright : Right b)
    (calls : List Call) :
    (∀ before b', before <+: calls → run step b before = some b' → Right b') ↔
      Meets step Simulates b calls := by
  induction calls generalizing b with
  | nil =>
    refine iff_of_true (fun before b' hpre hrun => ?_) trivial
    rw [List.prefix_nil.mp hpre] at hrun
    cases hrun
    exact hright
  | cons c calls ih =>
    obtain ⟨b₁, hstep⟩ : ∃ b₁, step b c = some b₁ := ⟨_, rfl⟩
    have hone := right_step_iff hcomposes hright hstep
    constructor
    · intro hall
      have hright₁ : Right b₁ := hall [c] b₁ ⟨calls, rfl⟩ (run_cons.mpr ⟨b₁, hstep, rfl⟩)
      refine ⟨hone.mp hright₁, fun b₂ hb₂ => ?_⟩
      obtain rfl := Option.some.inj (hstep.symm.trans hb₂)
      refine (ih (Composes.step hstep) hright₁).mp fun before b' hpre hrun => ?_
      exact hall (c :: before) b' (List.cons_prefix_cons.mpr ⟨rfl, hpre⟩)
        (run_cons.mpr ⟨b₁, hstep, hrun⟩)
    · rintro ⟨hsimulates, hrest⟩ before b' hpre hrun
      have hright₁ : Right b₁ := hone.mpr hsimulates
      cases before with
      | nil =>
        cases hrun
        exact hright
      | cons c' before =>
        obtain ⟨rfl, hbefore⟩ := List.cons_prefix_cons.mp hpre
        obtain ⟨b₂, hb₂, hrun⟩ := run_cons.mp hrun
        obtain rfl := Option.some.inj (hstep.symm.trans hb₂)
        exact (ih (Composes.step hstep) hright₁).mpr (hrest b₁ hstep) before b' hbefore hrun

theorem run_eq_after (calls : List Call) (b : Both) :
    run step b calls =
      some (calls.foldl (fun b c => ⟨call b.connection c, b.document.call c⟩) b) := by
  induction calls generalizing b with
  | nil => rfl
  | cons c calls ih => exact run_cons.mpr ⟨_, rfl, ih _⟩

/-- **The composing text is simulated** after each of a list of calls exactly when every one of them
can be. -/
theorem simulated_iff (calls : List Call) :
    (∀ before, before <+: calls → (after before).connection.remote = (after before).document.text) ↔
      Meets step Simulates start calls := by
  rw [← right_always_iff (b := start) rfl rfl calls]
  constructor
  · intro h before b' hpre hrun
    obtain rfl := Option.some.inj ((run_eq_after before start).symm.trans hrun)
    exact h before hpre
  · exact fun h before hpre => h before _ hpre (run_eq_after before start)

/-- An emoji is composed after a letter and then replaced by another letter. -/
def composeEmoji : List Call :=
  [.commitText ⟨['a'], by decide⟩, .setComposingText ⟨['😀'], by decide⟩,
    .commitText ⟨['b'], by decide⟩]

/-- The first letter is erased with the emoji. -/
theorem composeEmoji_not_simulated :
    ((after composeEmoji).connection.remote = ['b'] ∧
      (after composeEmoji).document.text = ['a', 'b']) ∧
      ¬ ∀ before, before <+: composeEmoji →
        (after before).connection.remote = (after before).document.text := by
  refine ⟨by decide +kernel, fun h => ?_⟩
  exact absurd (h composeEmoji (List.prefix_refl _)) (by decide +kernel)

end WinEmulator.X11.InputConnection
