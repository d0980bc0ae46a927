import WinEmulator.Lib.LeadBytes
import WinEmulator.Lorie.ClipboardText

/-!
# The two passes over a text

`lorieUtf8ToLatin1` counts the characters of a text and then converts them, and neither pass is told
where the text ends. A sequence that the terminator cuts takes it along, and what is read next is
not of the text.
-/

set_option autoImplicit false

namespace WinEmulator.Lorie.ClipboardText

open WinEmulator.Lib WinEmulator.Lib.LeadBytes
open WinEmulator.Lorie.Clipboard (replacement isContinuation cString latin1Bytes)

/-- The bytes of a C text before its terminator. An object takes less than half of the memory. -/
structure CText where
  bytes : List UInt8
  nul_free : 0 ∉ bytes
  length_lt : bytes.length < 2 ^ 63

/-- How many bytes follow a lead. -/
def follows (b : UInt8) : Option Nat :=
  if b &&& 0x80 = 0 then some 0
  else if b &&& 0xe0 = 0xc0 then some 1
  else if b &&& 0xf0 = 0xe0 then some 2
  else if b &&& 0xf8 = 0xf0 then some 3
  else none

/-- All that a pointer is in a pass. -/
def visited (p : List (Pointer × UInt32) × Pointer) : List Pointer := p.1.map Prod.fst ++ [p.2]

/-- Both passes read the text and its terminator only, at the same places, and find as many
characters. -/
def PassesAgree (src : CText) : Prop :=
  ∃ first second, firstPass (src.bytes ++ [0]) = some first ∧
    secondPass (src.bytes ++ [0]) = some second ∧
    visited second = visited first ∧ second.1.length = first.1.length

variable {b : UInt8} {r rest : List UInt8} {m rounds : Nat}

/-! ## What a sequence consumes -/

/-- How many bytes that follow a lead there are at most. -/
def tails (rest : List UInt8) : Nat := (rest.takeWhile isContinuation).length

/-- What is consumed of a text with a lead, and of one without, up to a limit. -/
def consumes (b : UInt8) (rest : List UInt8) (m : Nat) : Nat :=
  match follows b with
  | some n => min (min n (tails rest + 1)) m + 1
  | none => min (tails rest) (m - 1) + 1

theorem not_isContinuation_zero : isContinuation 0 = false := rfl

theorem tails_cons : tails (b :: rest) = if isContinuation b then tails rest + 1 else 0 := by
  unfold tails
  rw [List.takeWhile_cons]
  split <;> rfl

/-- How many bytes a sequence takes, whatever follows. -/
theorem sequence_consumes (count : Nat) (rest : List UInt8) (max consumed : Nat) (dst : UInt32) :
    ∃ ucs, sequence count (rest ++ [0]) max consumed dst =
      some (consumed + min (min count (tails rest + 1)) (max + 1), ucs) := by
  induction count generalizing rest max consumed dst with
  | zero => exact ⟨_, by rw [sequence, Nat.zero_min, Nat.zero_min, Nat.add_zero]⟩
  | succ count ih =>
    unfold sequence
    split
    case isTrue hmax => exact ⟨replacement, by rw [hmax]; congr 2; omega⟩
    case isFalse hmax =>
      cases rest with
      | nil => exact ⟨replacement, by rw [List.nil_append]; simp [not_isContinuation_zero, tails]⟩
      | cons b rest =>
        rw [List.cons_append]
        dsimp only
        rw [tails_cons]
        cases hb : isContinuation b with
        | false => exact ⟨replacement, by simp⟩
        | true =>
          obtain ⟨ucs, h⟩ := ih rest (max - 1) (consumed + 1) (dst <<< 6 ||| (b &&& 0x3f).toUInt32)
          refine ⟨ucs, ?_⟩
          rw [Bool.not_true, if_neg Bool.false_ne_true, h, if_pos rfl]
          congr 2
          omega

/-- How many stray bytes are skipped. -/
theorem continuations_consumes (max : Nat) (rest : List UInt8) (consumed : Nat) :
    continuations max (rest ++ [0]) consumed = some (consumed + min (tails rest) max) := by
  induction max generalizing rest consumed with
  | zero => cases rest <;> rw [continuations, Nat.min_zero, Nat.add_zero]
  | succ max ih =>
    cases rest with
    | nil => rfl
    | cons b rest =>
      rw [List.cons_append, continuations, tails_cons]
      split
      case isTrue hb =>
        rw [ih]
        congr 1
        omega
      case isFalse hb => rw [Nat.zero_min, Nat.add_zero]

/-- How many bytes one call of the decoder takes. -/
theorem lorieUtf8ToUCS4_consumes (b : UInt8) (rest : List UInt8) (hm : m ≠ 0) :
    ∃ ucs, lorieUtf8ToUCS4 (b :: rest ++ [0]) m = some (consumes b rest m, ucs) := by
  have hsequence (n : Nat) (dst : UInt32) (hn : follows b = some n) :
      ∃ ucs, sequence n (rest ++ [0]) (m - 1) 1 dst = some (consumes b rest m, ucs) := by
    obtain ⟨ucs, h⟩ := sequence_consumes n rest (m - 1) 1 dst
    refine ⟨ucs, h.trans ?_⟩
    rw [consumes, hn]
    dsimp only
    congr 2
    omega
  unfold lorieUtf8ToUCS4
  rw [if_neg hm, List.cons_append]
  dsimp only
  split
  case isTrue h => exact hsequence 0 _ (by rw [follows, if_pos h])
  case isFalse h0 =>
    split
    case isTrue h => exact hsequence 1 _ (by rw [follows, if_neg h0, if_pos h])
    case isFalse h1 =>
      split
      case isTrue h => exact hsequence 2 _ (by rw [follows, if_neg h0, if_neg h1, if_pos h])
      case isFalse h2 =>
        split
        case isTrue h =>
          exact hsequence 3 _ (by rw [follows, if_neg h0, if_neg h1, if_neg h2, if_pos h])
        case isFalse h3 =>
          refine ⟨replacement, ?_⟩
          have hnone : follows b = none := by
            rw [follows, if_neg h0, if_neg h1, if_neg h2, if_neg h3]
          rw [continuations_consumes, consumes, hnone]
          dsimp only [Option.map_some]
          congr 2
          omega

/-- What is checked of each byte holds of all. -/
theorem forall_byte {P : UInt8 → Prop} (h : ∀ n < 256, P (UInt8.ofNat n)) (b : UInt8) : P b := by
  rw [← UInt8.ofNat_toNat (x := b)]
  exact h b.toNat b.toNat_lt

/-- No byte that follows a lead is one. -/
theorem follows_of_continuation : ∀ b : UInt8, isContinuation b = true → follows b = none :=
  forall_byte (by decide +kernel)

/-- What is read at the front of a text: a sequence with a lead, or bytes that are none. -/
structure Front (b : UInt8) (rest s r : List UInt8) : Prop where
  eq : b :: rest = s ++ r
  ne_nil : s ≠ []
  cutAtEnd : CutAtEnd follows isContinuation (b :: rest) ↔ CutAtEnd follows isContinuation r
  whole : ∀ m, s.length ≤ m → consumes b rest m = s.length
  endsAt : ∀ n, s.length < n →
    (EndsAt follows isContinuation n (b :: rest) ↔ EndsAt follows isContinuation (n - s.length) r)
  limited : ∀ m, m ≠ 0 → m < s.length →
    (consumes b rest m = s.length ↔ EndsAt follows isContinuation (m + 1) (b :: rest))

/-- A complete sequence is one front. -/
theorem front_sequence {s : List UInt8} (heq : b :: rest = s ++ r)
    (hs : Sequence follows isContinuation s)
    (hlen : ∀ m, consumes b rest m = min (s.length - 1) m + 1) : Front b rest s r where
  eq := heq
  ne_nil := hs.ne_nil
  cutAtEnd := by rw [heq, cutAtEnd_append hs]
  whole m hm := by
    have hpos := List.length_pos_iff.mpr hs.ne_nil
    rw [hlen]
    omega
  endsAt n hn := by
    rw [heq, endsAt_append hs (by omega)]
    exact and_iff_right (by omega)
  limited m hm hlt := by
    rw [hlen, heq]
    by_cases hends : s.length = m + 1
    · apply iff_of_true
      · omega
      · rw [← hends]
        exact endsAt_of_front hs (by omega)
    · apply iff_of_false
      · omega
      · intro h
        have hle := ((endsAt_append hs (Ne.symm hends)).mp h).1
        omega

/-- A run of stray bytes is one front. -/
theorem front_strays {run : List UInt8} (heq : b :: rest = run ++ r) (hne : run ≠ [])
    (hrun : ∀ t ∈ run, follows t = none)
    (hlen : ∀ m, consumes b rest m = min (run.length - 1) (m - 1) + 1) :
    Front b rest run r where
  eq := heq
  ne_nil := hne
  cutAtEnd := by rw [heq, cutAtEnd_strays hrun]
  whole m hm := by
    have hpos := List.length_pos_iff.mpr hne
    rw [hlen]
    omega
  endsAt n hn := by
    rw [heq, endsAt_strays hrun]
    exact and_iff_right (by omega)
  limited m hm hlt := by
    rw [hlen, heq, endsAt_strays hrun]
    apply iff_of_false
    · omega
    · intro h
      have hle := h.2.two_le
      omega

/-- The end of a text cuts its first sequence, which takes the terminator along, or there is
something to read. -/
theorem front_or_cut (b : UInt8) (rest : List UInt8) :
    (Cut follows isContinuation (b :: rest) ∧ ∀ m, rest.length < m →
      consumes b rest m = rest.length + 2) ∨
      ∃ s r, Front b rest s r := by
  cases hb : follows b with
  | none =>
    refine .inr ⟨b :: rest.takeWhile isContinuation, rest.dropWhile isContinuation,
      front_strays ?_ (List.cons_ne_nil _ _) ?_ ?_⟩
    · rw [List.cons_append, List.takeWhile_append_dropWhile]
    · intro t ht
      rcases List.mem_cons.mp ht with rfl | ht
      · exact hb
      · exact follows_of_continuation t (List.mem_takeWhile_imp ht)
    · intro m
      rw [consumes, hb]
      rfl
  | some n =>
    have hfrontLength : frontLength follows isContinuation (b :: rest) =
        if n ≤ tails rest then some (n + 1) else if tails rest < rest.length then some
            (tails rest + 2) else none := by
      rw [frontLength, hb]
      rfl
    have hconsumes (m : Nat) : consumes b rest m = min (min n (tails rest + 1)) m + 1 := by
      rw [consumes, hb]
    rcases front_cases follows isContinuation (List.cons_ne_nil b rest) with hcut | ⟨s, r, heq, hs⟩
    · refine .inl ⟨hcut, fun m hm => ?_⟩
      rw [frontLength_cut hcut] at hfrontLength
      have hle : tails rest ≤ rest.length := (List.takeWhile_sublist _).length_le
      rw [hconsumes]
      split at hfrontLength
      · cases hfrontLength
      · split at hfrontLength
        · cases hfrontLength
        · omega
    · refine .inr ⟨s, r, front_sequence heq hs fun m => ?_⟩
      rw [heq, frontLength_append hs r] at hfrontLength
      rw [hconsumes]
      split at hfrontLength
      · have hlength := Option.some.inj hfrontLength
        omega
      · split at hfrontLength
        · have hlength := Option.some.inj hfrontLength
          omega
        · cases hfrontLength

/-! ## What a sequence is read as -/

theorem sequence_eq (count : Nat) (rest : List UInt8) {max : Nat} (hmax : rest.length ≤ max)
    (consumed : Nat) (dst : UInt32) :
    sequence count (rest ++ [0]) max consumed dst =
      some (consumed + (Clipboard.continuation count rest dst).1,
        (Clipboard.continuation count rest dst).2) := by
  induction count generalizing rest max consumed dst with
  | zero => rfl
  | succ count ih =>
    unfold sequence
    cases rest with
    | nil =>
      rw [List.nil_append]
      split <;> simp [Clipboard.continuation, not_isContinuation_zero]
    | cons b rest =>
      rw [List.length_cons] at hmax
      rw [if_neg (by omega), List.cons_append, Clipboard.continuation, List.headD_cons,
        List.tail_cons]
      dsimp only
      cases hb : isContinuation b with
      | false => rfl
      | true =>
        have hrest : rest.length ≤ max - 1 := by omega
        rw [Bool.not_true, if_neg Bool.false_ne_true, ih rest hrest, if_pos rfl]
        congr 2
        omega

/-- A sequence is read as it was before the text was one in memory, where the text has no end that
could be passed. -/
theorem lorieUtf8ToUCS4_eq (b : UInt8) (rest : List UInt8) (hm : rest.length + 1 ≤ m) :
    lorieUtf8ToUCS4 (b :: rest ++ [0]) m = some (Clipboard.lorieUtf8ToUCS4 b rest) := by
  have hrest : rest.length ≤ m - 1 := by omega
  have hsequence (n : Nat) (dst : UInt32) : sequence n (rest ++ [0]) (m - 1) 1 dst =
      some ((Clipboard.continuation n rest dst).1 + 1, (Clipboard.continuation n rest dst).2) := by
    rw [sequence_eq n rest hrest, Nat.add_comm]
  unfold lorieUtf8ToUCS4 Clipboard.lorieUtf8ToUCS4
  rw [if_neg (by omega), List.cons_append]
  dsimp only
  have htails : min (tails rest) (m - 1) = tails rest :=
    Nat.min_eq_left ((List.takeWhile_sublist _).length_le.trans hrest)
  rw [hsequence, hsequence, hsequence, hsequence, continuations_consumes, htails, Nat.add_comm 1]
  have hff : b &&& 0xff = b := by
    apply UInt8.toBitVec_inj.mp
    exact BitVec.and_allOnes
  rw [hff]
  split_ifs <;> rfl

/-! ## A pass -/

theorem pass_nil (rounds m : Nat) : pass (rounds + 1) ([] ++ [0]) m = some ([], [0]) := by
  rw [List.nil_append, pass]
  split <;> rfl

/-- One round reads a character and goes on behind it. -/
theorem pass_cons (hb : b ≠ 0) (hm : m ≠ 0) {len : Nat} {ucs : UInt32}
    (hread : lorieUtf8ToUCS4 (b :: rest ++ [0]) m = some (len, ucs)) :
    pass (rounds + 1) (b :: rest ++ [0]) m =
      (pass rounds ((b :: rest ++ [0]).drop len) (subSize m len)).map fun p =>
        ((b :: rest ++ [0], ucs) :: p.1, p.2) := by
  rw [List.cons_append] at hread ⊢
  conv => lhs; unfold pass
  rw [if_neg hm]
  dsimp only
  rw [if_neg hb, hread]
  rfl

/-- A pass starts where it is told to. -/
theorem visited_head {src : Pointer} {p : List (Pointer × UInt32) × Pointer}
    (h : pass rounds src m = some p) :
    (visited p).head? = some src := by
  cases rounds with
  | zero => cases h
  | succ rounds =>
    unfold pass at h
    split at h
    · cases h
      rfl
    · split at h
      · cases h
      · split at h
        · cases h
          rfl
        · obtain ⟨read, -, h⟩ := Option.bind_eq_some_iff.mp h
          obtain ⟨p', -, rfl⟩ := Option.map_eq_some_iff.mp h
          rfl

theorem subSize_of_le {len : Nat} (hle : len ≤ m) (hm : m < 2 ^ 64) : subSize m len = m - len := by
  unfold subSize
  omega

namespace Front

variable {s : List UInt8} (h : Front b rest s r)

include h

theorem length_eq : rest.length + 1 = s.length + r.length := by
  rw [← List.length_append, ← h.eq, List.length_cons]

theorem length_pos : 0 < s.length := List.length_pos_iff.mpr h.ne_nil

theorem drop : (b :: rest ++ [0]).drop s.length = r ++ [0] := by
  rw [h.eq, List.append_assoc, List.drop_left]

theorem nul_free (hr : 0 ∉ b :: rest) : 0 ∉ r := by
  rw [h.eq, List.mem_append, not_or] at hr
  exact hr.2

end Front

theorem ne_zero_of_nul_free (hr : 0 ∉ b :: rest) : b ≠ 0 := fun h => hr (h ▸ List.mem_cons_self ..)

/-- A pass with room for it goes past the terminator that cuts a sequence. -/
theorem pass_cut (hr : 0 ∉ r) (hcut : CutAtEnd follows isContinuation r)
    (hrounds : r.length < rounds)
    (hlt : r.length + 1 < m) (hm : m < 2 ^ 64) : pass rounds (r ++ [0]) m = none := by
  induction rounds generalizing r m with
  | zero => exact absurd hrounds (Nat.not_lt_zero _)
  | succ rounds ih =>
    cases r with
    | nil => exact absurd hcut not_cutAtEnd_nil
    | cons b rest =>
      have hm0 : m ≠ 0 := by omega
      obtain ⟨ucs, hread⟩ := lorieUtf8ToUCS4_consumes b rest hm0
      rw [pass_cons (ne_zero_of_nul_free hr) hm0 hread]
      rw [List.length_cons] at hlt hrounds
      rcases front_or_cut b rest with ⟨-, hlen⟩ | ⟨s, r, hfront⟩
      · -- the sequence takes the terminator, and nothing is left to read
        have hlength : (b :: rest ++ [0]).length = rest.length + 2 := by simp
        rw [hlen m (by omega), subSize_of_le (by omega) hm, ← hlength, List.drop_length, hlength]
        obtain ⟨rounds, rfl⟩ := Nat.exists_eq_succ_of_ne_zero (show rounds ≠ 0 by omega)
        unfold pass
        rw [if_neg (by omega)]
        rfl
      · have hlength := hfront.length_eq
        have hpos := hfront.length_pos
        rw [hfront.whole m (by omega), hfront.drop, subSize_of_le (by omega) hm,
          ih (hfront.nul_free hr) (hfront.cutAtEnd.mp hcut) (by omega) (by omega) (by omega)]
        rfl

/-- The byte that is written for a character. -/
def latin1 (ucs : UInt32) : UInt8 := if ucs > 0xff then 0x3f else ucs.toUInt8

/-- A pass with room for the text ends at the terminator, if that cuts no sequence. -/
theorem pass_whole (hr : 0 ∉ r) (hcut : ¬CutAtEnd follows isContinuation r)
    (hrounds : r.length < rounds) {fuel : Nat}
    (hfuel : r.length ≤ fuel) (hle : r.length ≤ m) (hm : m < 2 ^ 64) :
    ∃ characters, pass rounds (r ++ [0]) m = some (characters, [0]) ∧
      characters.map (fun c => latin1 c.2) = latin1Bytes fuel r := by
  induction rounds generalizing r m fuel with
  | zero => exact absurd hrounds (Nat.not_lt_zero _)
  | succ rounds ih =>
    cases r with
    | nil => exact ⟨[], pass_nil rounds m, by cases fuel <;> rfl⟩
    | cons b rest =>
      rw [List.length_cons] at hle hrounds hfuel
      have hm0 : m ≠ 0 := by omega
      obtain ⟨fuel, rfl⟩ := Nat.exists_eq_succ_of_ne_zero (show fuel ≠ 0 by omega)
      rcases front_or_cut b rest with ⟨hcut', -⟩ | ⟨s, r, hfront⟩
      · exact absurd hcut'.atEnd hcut
      · have hlength := hfront.length_eq
        have hpos := hfront.length_pos
        obtain ⟨len, ucs, hdecode⟩ : ∃ len ucs, Clipboard.lorieUtf8ToUCS4 b rest = (len, ucs) :=
          ⟨_, _, rfl⟩
        have hread := lorieUtf8ToUCS4_eq b rest hle
        rw [hdecode] at hread
        obtain rfl : len = s.length := by
          obtain ⟨ucs', hread'⟩ := lorieUtf8ToUCS4_consumes b rest hm0
          rw [hread, hfront.whole m (by omega)] at hread'
          exact congrArg Prod.fst (Option.some.inj hread')
        obtain ⟨characters, hpass, hmap⟩ :=
          ih (hfront.nul_free hr) (fun h => hcut (hfront.cutAtEnd.mpr h))
          (show r.length < rounds by omega) (show r.length ≤ fuel by omega)
            (show r.length ≤ m - s.length by omega)
          (by omega)
        refine ⟨(b :: rest ++ [0], ucs) :: characters, ?_, ?_⟩
        · rw [pass_cons (ne_zero_of_nul_free hr) hm0 hread, hfront.drop,
            subSize_of_le (by omega) hm, hpass]
          rfl
        · have hdrop : (b :: rest).drop s.length = r := by rw [hfront.eq, List.drop_left]
          rw [List.map_cons, hmap, latin1Bytes, hdecode]
          dsimp only
          rw [hdrop]
          rfl

/-! ## Two passes -/

theorem consumes_le (b : UInt8) (rest : List UInt8) (m : Nat) : consumes b rest m ≤ m + 1 := by
  unfold consumes
  split <;> omega

/-- Two passes that start at one place visit the same ones if they do after the first sequence. -/
theorem visits_cons {q : Option (List (Pointer × UInt32) × Pointer)} {src : Pointer}
    {ucs ucs' : UInt32}
    (first : List (Pointer × UInt32) × Pointer) :
    (∃ second, (q.map fun p => ((src, ucs) :: p.1, p.2)) = some second ∧
        visited second = visited ((src, ucs') :: first.1, first.2)) ↔
      ∃ second, q = some second ∧ visited second = visited first := by
  cases q with
  | none => exact iff_of_false (fun ⟨_, h, _⟩ => nomatch h) (fun ⟨_, h, _⟩ => nomatch h)
  | some p =>
    constructor
    · rintro ⟨second, h, heq⟩
      cases h
      exact ⟨p, rfl, (List.cons.inj heq).2⟩
    · rintro ⟨second, h, heq⟩
      cases h
      exact ⟨_, rfl, congrArg (src :: ·) heq⟩

/-- A pass with less room visits the same places exactly if it has room for the text, or for all of
it up to the last byte of a sequence: it does not look for that byte, and forgets what room there
was. -/
theorem visited_eq_iff (hr : 0 ∉ r) (hcut : ¬CutAtEnd follows isContinuation r)
    (hrounds : r.length < rounds) {large : Nat}
    (hlarge : r.length ≤ large) (hlt : large < 2 ^ 64) (hm : m < 2 ^ 64)
    {first : List (Pointer × UInt32) × Pointer}
    (hfirst : pass rounds (r ++ [0]) large = some first) :
    (∃ second, pass rounds (r ++ [0]) m = some second ∧ visited second = visited first) ↔
      r.length ≤ m ∨ EndsAt follows isContinuation (m + 1) r := by
  induction rounds generalizing r m large first with
  | zero => exact absurd hrounds (Nat.not_lt_zero _)
  | succ rounds ih =>
    cases r with
    | nil =>
      rw [pass_nil] at hfirst ⊢
      exact iff_of_true ⟨_, rfl, congrArg visited (Option.some.inj hfirst)⟩ (.inl (Nat.zero_le _))
    | cons b rest =>
      rw [List.length_cons] at hlarge hrounds ⊢
      have hb := ne_zero_of_nul_free hr
      rcases front_or_cut b rest with ⟨hcut', -⟩ | ⟨s, r, hfront⟩
      · exact absurd hcut'.atEnd hcut
      have hlength := hfront.length_eq
      have hpos := hfront.length_pos
      have hr' := hfront.nul_free hr
      have hcut' : ¬CutAtEnd follows isContinuation r := fun h => hcut (hfront.cutAtEnd.mpr h)
      have hlarge0 : large ≠ 0 := by omega
      obtain ⟨ucs, hread⟩ := lorieUtf8ToUCS4_consumes b rest hlarge0
      rw [pass_cons hb hlarge0 hread, hfront.whole large (by omega), hfront.drop,
        subSize_of_le (by omega) hlt] at hfirst
      obtain ⟨first', hfirst', rfl⟩ := Option.map_eq_some_iff.mp hfirst
      have ih' {m : Nat} (hm : m < 2 ^ 64) :=
        ih hr' hcut' (by omega) (by omega) (by omega) hm hfirst'
      by_cases hm0 : m = 0
      · subst hm0
        refine iff_of_false ?_ fun h => h.elim (by omega) fun h => absurd h.two_le (by decide)
        rintro ⟨second, h, heq⟩
        unfold pass at h
        rw [if_pos rfl] at h
        cases h
        have hlast : [] = visited first' := (List.cons.inj heq).2
        exact List.append_ne_nil_of_right_ne_nil _ (List.cons_ne_nil _ _) hlast.symm
      obtain ⟨ucs', hread'⟩ := lorieUtf8ToUCS4_consumes b rest hm0
      rw [pass_cons hb hm0 hread', visits_cons]
      by_cases hle : s.length ≤ m
      · have hends := hfront.endsAt (m + 1) (by omega)
        rw [Nat.sub_add_comm hle] at hends
        rw [hfront.whole m hle, hfront.drop, subSize_of_le hle hm, ih' (by omega), hends]
        exact or_congr_left (by omega)
      · by_cases hconsumes : consumes b rest m = s.length
        · -- the room was short of one byte, which leaves the greatest number
          have hle' := consumes_le b rest m
          have hwrap : subSize m s.length = 2 ^ 64 - 1 := by
            unfold subSize
            omega
          rw [hconsumes, hfront.drop, hwrap, ih' (by omega)]
          exact iff_of_true (.inl (by omega))
            (.inr ((hfront.limited m hm0 (by omega)).mp hconsumes))
        · refine iff_of_false ?_ fun h => h.elim (by omega) fun h =>
            hconsumes ((hfront.limited m hm0 (by omega)).mpr h)
          rintro ⟨second, hsecond, heq⟩
          have hhead := visited_head hsecond
          rw [heq, visited_head hfirst', Option.some_inj, ← hfront.drop] at hhead
          have hlengths := congrArg List.length hhead
          have hle' := consumes_le b rest m
          simp only [List.length_drop, List.length_append, List.length_cons, List.length_nil]
            at hlengths
          omega

theorem text_terminated (l rest : List UInt8) : text (l ++ 0 :: rest) = some (cString l) := by
  rw [text, if_pos (by simp)]
  congr 1
  unfold cString
  induction l with
  | nil => rfl
  | cons b l ih =>
    rw [List.cons_append, List.takeWhile_cons, List.takeWhile_cons]
    split
    · exact congrArg (b :: ·) ih
    · rfl

/-- The second pass writes one byte for each character of the first. -/
theorem writeLatin1_eq (characters : List (Pointer × UInt32)) (front rest : List UInt8)
    (h : characters.length ≤ rest.length) :
    writeLatin1 characters front.length (front ++ rest) =
      some (front ++ (characters.map fun c => latin1 c.2) ++ rest.drop characters.length) := by
  induction characters generalizing front rest with
  | nil => simp [writeLatin1]
  | cons c characters ih =>
    cases rest with
    | nil => cases h
    | cons old rest =>
      have hstore :
          store (front ++ old :: rest) front.length (latin1 c.2) =
            some (front ++ [latin1 c.2] ++ rest) := by
        simp [store]
      have hih := ih (front ++ [latin1 c.2]) rest (Nat.le_of_succ_le_succ h)
      rw [List.length_append, List.length_singleton] at hih
      rw [writeLatin1, ← latin1, hstore, Option.bind_some, hih]
      simp

/-- What the conversion does in memory is what it does to the text, if it does not leave it. -/
theorem lorieUtf8ToLatin1_eq (src : CText) (hcut : ¬CutAtEnd follows isContinuation src.bytes)
    (hlength : src.bytes.length ≤ 4294967295) :
    lorieUtf8ToLatin1 (src.bytes ++ [0]) = some (Clipboard.lorieUtf8ToLatin1 src.bytes) := by
  have hrounds : src.bytes.length < (src.bytes ++ [0]).length + 1 := by
    rw [List.length_append]
    omega
  obtain ⟨first, hfirst, hmap⟩ := pass_whole src.nul_free hcut hrounds le_rfl
    (show src.bytes.length ≤ 2 ^ 64 - 1 by omega) (by omega)
  obtain ⟨second, hsecond, hmap'⟩ := pass_whole src.nul_free hcut hrounds le_rfl hlength (by omega)
  have hcount : second.length = first.length := by
    rw [← List.length_map (fun c => latin1 c.2), hmap', ← hmap, List.length_map]
  have hwrite := writeLatin1_eq second [] (List.replicate (first.length + 1) 0) (by simp; omega)
  unfold lorieUtf8ToLatin1 firstPass secondPass
  rw [hfirst, hsecond]
  dsimp only [bind, Option.bind_some]
  rw [List.nil_append, List.length_nil] at hwrite
  rw [hwrite, hmap', hcount, Option.bind_some, List.drop_replicate, Nat.add_sub_cancel_left,
    List.nil_append]
  exact text_terminated _ []

end WinEmulator.Lorie.ClipboardText
