import WinEmulator.Laws.Lorie.ClipboardPasses

/-!
# What `lorieCheckUTF8` accepts

The check takes any byte with its high bit for a lead, a byte that follows one too, and does not
look where the text ends before it reads. So it decides what it should of texts with a NUL and no
such byte in the place of a lead, and of those it rejects before their end.
-/

set_option autoImplicit false

namespace WinEmulator.Lorie.ClipboardText

open WinEmulator.Lib WinEmulator.Lib.LeadBytes
open WinEmulator.Lorie.Clipboard (isContinuation)

/-- The bytes up to the first NUL or the end are complete sequences. -/
def WellFormed (utf : List UInt8) : Prop :=
  Concat (Complete follows isContinuation) (utf.takeWhile (· ≠ 0))

/-- The check reads nothing outside of the array, and says whether the text is well formed. -/
def Decides (utf : List UInt8) : Prop :=
  ∃ ok, lorieCheckUTF8 utf = some ok ∧ (ok = true ↔ WellFormed utf)

/-- How many bytes the check reads after a lead, as it tells them: any byte with its high bit may be
one. -/
def checked (b : UInt8) : Option Nat :=
  if b &&& 0x80 = 0 then some 0
  else if b &&& 0xe0 = 0xe0 then if b &&& 0xf0 = 0xf0 then if b &&& 0xf8 = 0xf0 then some 3
    else some 2 else some 2
  else some 1

/-- The lead of no sequence, which is rejected when two bytes after it were read. -/
def isInvalid (b : UInt8) : Bool := b &&& 0xf8 == 0xf8

/-- A sequence that the check steps over. -/
inductive Passed : List UInt8 → Prop
  | intro {lead : UInt8} {tails : List UInt8}
      (complete : Complete checked isContinuation (lead :: tails))
    (valid : isInvalid lead = false) (text : lead ≠ 0) : Passed (lead :: tails)

/-- A sequence that it stops at. -/
inductive Stops : List UInt8 → Prop
  | broken {s : List UInt8} (broken : Broken checked isContinuation s) : Stops s
  | invalid {lead : UInt8} {tails : List UInt8}
      (complete : Complete checked isContinuation (lead :: tails))
    (invalid : isInvalid lead = true) : Stops (lead :: tails)

/-- A text with a sequence, after others that are passed, that the check stops at. -/
def Rejected (utf : List UInt8) : Prop :=
  ∃ before s rest, utf = before ++ (s ++ rest) ∧ Concat Passed before ∧ Stops s

variable {utf l rest : List UInt8} {c : UInt8} {n ix rounds : Nat}

/-! ## One round -/

/-- The bytes that must follow a lead, one after the other. -/
def continues : Nat → List UInt8 → Option Bool
  | 0, _ => some true
  | _ + 1, [] => none
  | n + 1, b :: rest => if isContinuation b then continues n rest else some false

/-- What an `int` can be the index of. -/
def reachable (utf : List UInt8) : List UInt8 := utf.take (2 ^ 31)

theorem byteAt_add (hdrop : (reachable utf).drop ix = l) (k : Nat) :
    byteAt utf (ix + k) = l[k]? := by
  rw [← hdrop, List.getElem?_drop, reachable, List.getElem?_take, byteAt]

theorem byteAt_self (hdrop : (reachable utf).drop ix = l) : byteAt utf ix = l.head? := by
  rw [← Nat.add_zero ix, byteAt_add hdrop, List.head?_eq_getElem?]

theorem lt_length_of_drop (hdrop : (reachable utf).drop ix = c :: rest) : ix < utf.length := by
  have hlength := congrArg List.length hdrop
  rw [List.length_drop, reachable, List.length_take, List.length_cons] at hlength
  omega

theorem checked_isSome : ∀ c : UInt8, (checked c).isSome = true := forall_byte (by decide +kernel)

theorem checkUTF8_end (hdrop : (reachable utf).drop ix = []) : checkUTF8 utf rounds ix = none := by
  cases rounds with
  | zero => rfl
  | succ rounds =>
    rw [checkUTF8, byteAt_self hdrop]
    rfl

theorem checkUTF8_nul (hdrop : (reachable utf).drop ix = 0 :: rest) :
    checkUTF8 utf (rounds + 1) ix = some true := by
  rw [checkUTF8, byteAt_self hdrop]
  rfl

/-- One round checks the sequence that its first byte announces. -/
theorem checkUTF8_lead (hdrop : (reachable utf).drop ix = c :: rest) (hc : c ≠ 0)
    (hn : checked c = some n) :
    checkUTF8 utf (rounds + 1) ix = (continues n rest).bind fun ok =>
      if ok = true ∧
        isInvalid c = false then checkUTF8 utf rounds (ix + (n + 1)) else some false := by
  have hbyte (k : Nat) : byteAt utf (ix + (k + 1)) = rest[k]? := by
    rw [byteAt_add hdrop, List.getElem?_cons_succ]
  have hvalid :
      ∀ c : UInt8, isInvalid c = true ↔ c &&& 0x80 ≠ 0 ∧ c &&& 0xe0 = 0xe0 ∧ c &&& 0xf0 = 0xf0 ∧
        c &&& 0xf8 ≠ 0xf0 :=
    forall_byte (by decide +kernel)
  rw [checkUTF8, byteAt_self hdrop, List.head?_cons]
  simp only [bind, Option.bind_some, hc, lt_length_of_drop hdrop, not_false_eq_true, and_self,
    if_true, ne_eq,
    hbyte 0, hbyte 1, hbyte 2]
  unfold checked at hn
  by_cases h0 : c &&& 0x80 = 0
  · rw [if_pos h0] at hn
    cases hn
    have hok : isInvalid c = false := Bool.eq_false_iff.mpr fun h => ((hvalid c).mp h).1 h0
    rw [if_neg (not_not_intro h0)]
    simp [continues, hok]
  rw [if_neg h0] at hn
  rw [if_pos h0]
  by_cases h1 : c &&& 0xe0 = 0xe0
  · rw [if_pos h1] at hn
    by_cases h2 : c &&& 0xf0 = 0xf0
    · rw [if_pos h2] at hn
      by_cases h3 : c &&& 0xf8 = 0xf0
      · rw [if_pos h3] at hn
        cases hn
        have hok : isInvalid c = false := Bool.eq_false_iff.mpr fun h => ((hvalid c).mp h).2.2.2 h3
        rcases rest with _ | ⟨x, _ | ⟨y, _ | ⟨z, rest⟩⟩⟩
        · rfl
        · cases hx : isContinuation x <;> simp [continues, h1, hx]
        · cases hx : isContinuation x <;> cases hy : isContinuation y <;>
            simp [continues, h1, h2, h3, hx, hy]
        · cases hx : isContinuation x <;> cases hy : isContinuation y <;>
            cases hz : isContinuation z <;>
            simp [continues, h1, h2, h3, hok, hx, hy, hz]
      · rw [if_neg h3] at hn
        cases hn
        have hbad : isInvalid c = true := (hvalid c).mpr ⟨h0, h1, h2, h3⟩
        rcases rest with _ | ⟨x, _ | ⟨y, rest⟩⟩
        · rfl
        · cases hx : isContinuation x <;> simp [continues, h1, hx]
        · cases hx : isContinuation x <;> cases hy : isContinuation y <;>
            simp [continues, h1, h2, h3, hbad, hx, hy]
    · rw [if_neg h2] at hn
      cases hn
      have hok : isInvalid c = false := Bool.eq_false_iff.mpr fun h => h2 ((hvalid c).mp h).2.2.1
      rcases rest with _ | ⟨x, _ | ⟨y, rest⟩⟩
      · rfl
      · cases hx : isContinuation x <;> simp [continues, h1, hx]
      · cases hx : isContinuation x <;> cases hy : isContinuation y <;>
          simp [continues, h1, h2, hok, hx, hy]
  · rw [if_neg h1] at hn
    cases hn
    have hok : isInvalid c = false := Bool.eq_false_iff.mpr fun h => h1 ((hvalid c).mp h).2.1
    cases rest with
    | nil => rfl
    | cons x rest =>
      cases hx : isContinuation x <;> simp [continues, h1, hok, hx]

/-! ## What a round does with a sequence -/

theorem continues_append {tails : List UInt8} (hall : ∀ t ∈ tails, isContinuation t = true)
    (k : Nat) (rest : List UInt8) :
    continues (tails.length + k) (tails ++ rest) = continues k rest := by
  induction tails with
  | nil => rw [List.length_nil, Nat.zero_add, List.nil_append]
  | cons t tails ih =>
    rw [List.length_cons, Nat.succ_add, List.cons_append, continues,
      if_pos (hall t (List.mem_cons_self ..))]
    exact ih fun t ht => hall t (List.mem_cons_of_mem _ ht)

/-- All the announced bytes are there. -/
theorem continues_complete {tails : List UInt8} (hall : ∀ t ∈ tails, isContinuation t = true)
    (rest : List UInt8) :
    continues tails.length (tails ++ rest) = some true := continues_append hall 0 rest

/-- A byte of another kind stands among them. -/
theorem continues_broken {tails : List UInt8} {other : UInt8}
    (hall : ∀ t ∈ tails, isContinuation t = true)
    (hother : isContinuation other = false) (hfew : tails.length < n) (rest : List UInt8) :
    continues n (tails ++ other :: rest) = some false := by
  obtain ⟨k, rfl⟩ := Nat.exists_eq_add_of_lt hfew
  rw [Nat.add_assoc, continues_append hall, continues, hother]
  rfl

/-- The text ends before the announced bytes. -/
theorem continues_cut {tails : List UInt8} (hall : ∀ t ∈ tails, isContinuation t = true)
    (hfew : tails.length < n) :
    continues n tails = none := by
  obtain ⟨k, rfl⟩ := Nat.exists_eq_add_of_lt hfew
  have h := continues_append hall (k + 1) []
  rw [List.append_nil] at h
  exact h

theorem drop_append {s : List UInt8} (hdrop : (reachable utf).drop ix = s ++ rest) :
    (reachable utf).drop (ix + s.length) = rest := by
  rw [← List.drop_drop, hdrop, List.drop_left]

/-- A sequence that passes is skipped. -/
theorem checkUTF8_passed {s : List UInt8} (hs : Passed s)
    (hdrop : (reachable utf).drop ix = s ++ rest) :
    checkUTF8 utf (rounds + 1) ix = checkUTF8 utf rounds (ix + s.length) := by
  obtain ⟨⟨count, all⟩, valid, text⟩ := hs
  rw [List.cons_append] at hdrop
  rw [checkUTF8_lead hdrop text count, continues_complete all]
  exact if_pos ⟨rfl, valid⟩

theorem checked_zero : checked 0 = some 0 := rfl

/-- A sequence that does not pass ends the loop. -/
theorem checkUTF8_stops {s : List UInt8} (hs : Stops s)
    (hdrop : (reachable utf).drop ix = s ++ rest) :
    checkUTF8 utf (rounds + 1) ix = some false := by
  cases hs with
  | broken broken =>
    obtain ⟨count, few, all, stops⟩ := broken
    rename_i lead other tails n
    have hne : lead ≠ 0 := fun h => by
      rw [h, checked_zero] at count
      cases count
      exact Nat.not_lt_zero _ few
    rw [List.cons_append, List.append_assoc] at hdrop
    rw [checkUTF8_lead hdrop hne count, List.singleton_append, continues_broken all stops few]
    rfl
  | invalid complete invalid =>
    obtain ⟨count, all⟩ := complete
    rename_i lead tails
    have hne : lead ≠ 0 := fun h => by
      rw [h] at invalid
      cases invalid
    rw [List.cons_append] at hdrop
    rw [checkUTF8_lead hdrop hne count, continues_complete all, Option.bind_some, invalid]
    rfl

/-- A text that is cut short is read past its end. -/
theorem checkUTF8_cut (hcut : Cut checked isContinuation l) (hdrop : (reachable utf).drop ix = l) :
    checkUTF8 utf rounds ix = none := by
  cases rounds with
  | zero => rfl
  | succ rounds =>
    obtain ⟨count, few, all⟩ := hcut
    rename_i lead tails n
    have hne : lead ≠ 0 := fun h => by
      rw [h, checked_zero] at count
      cases count
      exact Nat.not_lt_zero _ few
    rw [checkUTF8_lead hdrop hne count, continues_cut all few]
    rfl

/-! ## A whole check -/

/-- A text that the check accepts: others that are passed up to a NUL. -/
def Accepted (utf : List UInt8) : Prop :=
  ∃ before rest, utf = before ++ 0 :: rest ∧ Concat Passed before

theorem Passed.sequence {s : List UInt8} (hs : Passed s) : Sequence checked isContinuation s := by
  obtain ⟨complete, -, -⟩ := hs
  exact .inl complete

theorem Stops.sequence {s : List UInt8} (hs : Stops s) : Sequence checked isContinuation s := by
  cases hs with
  | broken broken => exact .inr (.inl broken)
  | invalid complete _ => exact .inl complete

/-- What was passed leaves rounds enough for the rest. -/
theorem checkUTF8_concat {before : List UInt8} (hbefore : Concat Passed before)
    (hdrop : (reachable utf).drop ix = before ++ rest)
    (hrounds : (before ++ rest).length < rounds) :
    ∃ rounds', rest.length < rounds' ∧
      checkUTF8 utf rounds ix = checkUTF8 utf rounds' (ix + before.length) := by
  induction hbefore generalizing ix rounds with
  | nil => exact ⟨rounds, hrounds, rfl⟩
  | append head tail ih =>
    rename_i s before
    obtain ⟨rounds, rfl⟩ := Nat.exists_eq_succ_of_ne_zero (show rounds ≠ 0 by omega)
    rw [List.append_assoc] at hdrop hrounds
    have hpos := List.length_pos_iff.mpr head.sequence.ne_nil
    rw [List.length_append] at hrounds
    obtain ⟨rounds', hrounds', h⟩ :=
      ih (drop_append hdrop) (show (before ++ rest).length < rounds by omega)
    refine ⟨rounds', hrounds', (checkUTF8_passed head hdrop).trans (h.trans ?_)⟩
    rw [List.length_append, Nat.add_assoc]

theorem checkUTF8_of_accepted (h : Accepted l) (hdrop : (reachable utf).drop ix = l)
    (hrounds : l.length < rounds) :
    checkUTF8 utf rounds ix = some true := by
  obtain ⟨before, rest, rfl, hbefore⟩ := h
  obtain ⟨rounds', hrounds', h⟩ := checkUTF8_concat hbefore hdrop hrounds
  obtain ⟨rounds', rfl⟩ := Nat.exists_eq_succ_of_ne_zero (Nat.ne_zero_of_lt hrounds')
  exact h.trans (checkUTF8_nul (drop_append hdrop))

theorem checkUTF8_of_rejected (h : Rejected l) (hdrop : (reachable utf).drop ix = l)
    (hrounds : l.length < rounds) :
    checkUTF8 utf rounds ix = some false := by
  obtain ⟨before, s, rest, rfl, hbefore, hs⟩ := h
  obtain ⟨rounds', hrounds', h⟩ := checkUTF8_concat hbefore hdrop hrounds
  obtain ⟨rounds', rfl⟩ := Nat.exists_eq_succ_of_ne_zero (Nat.ne_zero_of_lt hrounds')
  exact h.trans (checkUTF8_stops hs (drop_append hdrop))

/-- What the check says of a text tells what it found. -/
theorem found_of_checkUTF8 {ok : Bool} (hdrop : (reachable utf).drop ix = l)
    (h : checkUTF8 utf rounds ix = some ok) :
    if ok then Accepted l else Rejected l := by
  induction rounds generalizing ix l with
  | zero => cases h
  | succ rounds ih =>
    by_cases hnil : l = []
    · rw [hnil] at hdrop
      rw [checkUTF8_end hdrop] at h
      cases h
    rcases front_cases checked isContinuation hnil with hcut | ⟨s, rest, rfl, hs⟩
    · rw [checkUTF8_cut hcut hdrop] at h
      cases h
    by_cases hzero : ∃ t, s = 0 :: t
    · obtain ⟨t, rfl⟩ := hzero
      rw [List.cons_append] at hdrop ⊢
      rw [checkUTF8_nul hdrop] at h
      cases h
      exact ⟨[], t ++ rest, rfl, .nil⟩
    have hpassed_or : Passed s ∨ Stops s := by
      rcases hs with complete | broken | stray
      · obtain ⟨count, all⟩ := complete
        rename_i lead tails
        cases hinvalid : isInvalid lead with
        | true => exact .inr (.invalid ⟨count, all⟩ hinvalid)
        | false => exact .inl ⟨⟨count, all⟩, hinvalid, fun h => hzero ⟨tails, by rw [h]⟩⟩
      · exact .inr (.broken broken)
      · obtain ⟨count⟩ := stray
        rename_i unit
        exact absurd (checked_isSome unit) (by rw [count]; exact Bool.false_ne_true)
    rcases hpassed_or with hpassed | hstops
    · rw [checkUTF8_passed hpassed hdrop] at h
      have hfound := ih (drop_append hdrop) h
      cases ok with
      | true =>
        obtain ⟨before, after, rfl, hbefore⟩ := hfound
        exact ⟨s ++ before, after, (List.append_assoc ..).symm, .append hpassed hbefore⟩
      | false =>
        obtain ⟨before, s', after, rfl, hbefore, hs'⟩ := hfound
        exact ⟨s ++ before, s', after, (List.append_assoc ..).symm, .append hpassed hbefore, hs'⟩
    · rw [checkUTF8_stops hstops hdrop] at h
      cases h
      exact ⟨[], s, rest, rfl, .nil, hstops⟩

/-- The texts that the check accepts. -/
theorem lorieCheckUTF8_true : lorieCheckUTF8 utf = some true ↔ Accepted (reachable utf) := by
  constructor
  · exact fun h => found_of_checkUTF8 List.drop_zero h
  · exact fun h =>
      checkUTF8_of_accepted h List.drop_zero (Nat.lt_succ_of_le (List.length_take_le' ..))

/-- The texts that the check rejects. -/
theorem lorieCheckUTF8_false : lorieCheckUTF8 utf = some false ↔ Rejected (reachable utf) := by
  constructor
  · exact fun h => found_of_checkUTF8 List.drop_zero h
  · exact fun h =>
      checkUTF8_of_rejected h List.drop_zero (Nat.lt_succ_of_le (List.length_take_le' ..))

/-! ## Which texts are decided -/

/-- No sequence is both passed and stopped at. -/
theorem Passed.not_stops {s : List UInt8} (hs : Passed s) : ¬Stops s := by
  obtain ⟨⟨count, all⟩, valid, -⟩ := hs
  intro hstops
  cases hstops with
  | broken broken =>
    obtain ⟨_, _, _, stops⟩ := broken
    rw [all _ (List.mem_append_right _ (List.mem_singleton_self _))] at stops
    cases stops
  | invalid _ invalid =>
    rw [valid] at invalid
    cases invalid

/-- A text of sequences that are passed has none that is not. -/
theorem not_stops_of_concat {before s : List UInt8} (hbefore : Concat Passed before) (hs : Stops s)
    (h : Concat Passed (before ++ (s ++ rest))) : False := by
  induction hbefore with
  | nil =>
    rw [List.nil_append] at h
    generalize hl : s ++ rest = l at h
    cases h with
    | nil => exact hs.sequence.ne_nil (List.append_eq_nil_iff.mp hl).1
    | append head _ =>
      obtain ⟨rfl, -⟩ := hs.sequence.eq_of_append_eq head.sequence hl
      exact head.not_stops hs
  | append head tail ih =>
    rename_i front before
    generalize hl : front ++ before ++ (s ++ rest) = l at h
    cases h with
    | nil =>
      have hfront := (List.append_eq_nil_iff.mp (List.append_eq_nil_iff.mp hl).1).1
      exact head.sequence.ne_nil hfront
    | append head' tail' =>
      rw [List.append_assoc] at hl
      obtain ⟨-, rfl⟩ := head.sequence.eq_of_append_eq head'.sequence hl
      exact ih tail'

/-- A byte that is a lead is read as one. -/
theorem checked_of_follows :
    ∀ b : UInt8, (follows b).isSome = true → checked b = follows b ∧ isInvalid b = false :=
  forall_byte (by decide +kernel)

theorem concat_passed (h : Concat (Complete follows isContinuation) l) (hl : 0 ∉ l) :
    Concat Passed l := by
  induction h with
  | nil => exact .nil
  | append head _ ih =>
    rw [List.mem_append, not_or] at hl
    refine .append ?_ (ih hl.2)
    obtain ⟨count, all⟩ := head
    rename_i lead tails
    obtain ⟨hchecked, hvalid⟩ := checked_of_follows lead (by rw [count]; rfl)
    exact ⟨⟨hchecked.trans count, all⟩, hvalid, fun h => hl.1 (h ▸ List.mem_cons_self ..)⟩

theorem ne_zero_of_mem_takeWhile {b : UInt8} (h : b ∈ l.takeWhile (· ≠ 0)) :
    decide (b ≠ 0) = true := by
  have hb := List.mem_takeWhile_imp h
  exact hb

theorem takeWhile_nul_free (utf : List UInt8) : 0 ∉ utf.takeWhile (· ≠ 0) := fun h =>
  of_decide_eq_true (ne_zero_of_mem_takeWhile h) rfl

theorem split_nul (h : 0 ∈ l) : ∃ rest, l = l.takeWhile (· ≠ 0) ++ 0 :: rest := by
  induction l with
  | nil => cases h
  | cons b l ih =>
    by_cases hb : b = 0
    · exact ⟨l, by simp [hb]⟩
    · obtain ⟨rest, heq⟩ := ih ((List.mem_cons.mp h).resolve_left (Ne.symm hb))
      refine ⟨rest, ?_⟩
      rw [List.takeWhile_cons_of_pos (by simpa using hb), List.cons_append, ← heq]

theorem reachable_append (utf : List UInt8) : reachable utf ++ utf.drop (2 ^ 31) = utf :=
  List.take_append_drop ..

/-- The text up to a NUL that an `int` reaches. -/
theorem takeWhile_reachable (h : 0 ∈ reachable utf) :
    (reachable utf).takeWhile (· ≠ 0) = utf.takeWhile (· ≠ 0) := by
  obtain ⟨rest, heq⟩ := split_nul h
  have hall : ∀ b ∈ (reachable utf).takeWhile (· ≠ 0), decide (b ≠ 0) = true :=
    fun _ => ne_zero_of_mem_takeWhile
  calc (reachable utf).takeWhile (· ≠ 0)
      = ((reachable utf).takeWhile (· ≠ 0) ++ 0 :: (rest ++ utf.drop (2 ^ 31))).takeWhile
          (· ≠ 0) := by
        rw [List.takeWhile_append_of_pos hall]
        simp
    _ = utf.takeWhile (· ≠ 0) := by
      rw [← List.cons_append, ← List.append_assoc, ← heq, reachable_append]

/-- Well-formed text with a terminator is accepted. -/
theorem accepted_of_wellFormed (h : WellFormed utf) (hnul : 0 ∈ reachable utf) :
    Accepted (reachable utf) := by
  obtain ⟨rest, heq⟩ := split_nul hnul
  refine ⟨_, rest, heq, ?_⟩
  rw [takeWhile_reachable hnul]
  exact concat_passed h (takeWhile_nul_free utf)

/-- What is rejected is not well formed. -/
theorem not_wellFormed_of_rejected (h : Rejected (reachable utf)) : ¬WellFormed utf := by
  intro hwell
  by_cases hnul : 0 ∈ reachable utf
  · have htrue := lorieCheckUTF8_true.mpr (accepted_of_wellFormed hwell hnul)
    rw [lorieCheckUTF8_false.mpr h] at htrue
    cases htrue
  · have hall : ∀ b ∈ reachable utf, decide (b ≠ 0) = true :=
      fun b hb => decide_eq_true fun h => hnul (h ▸ hb)
    obtain ⟨before, s, rest, heq, hbefore, hs⟩ := h
    have hpassed := concat_passed hwell (takeWhile_nul_free utf)
    rw [← reachable_append utf, List.takeWhile_append_of_pos hall, heq, List.append_assoc,
      List.append_assoc] at hpassed
    exact not_stops_of_concat hbefore hs hpassed

/-- **The check reads inside the array and decides whether a text is well formed** exactly if the
text has a NUL and is, or if it has a sequence the check rejects, all at indices of an `int`. -/
theorem lorieCheckUTF8_decides_iff (utf : List UInt8) :
    Decides utf ↔ 0 ∈ reachable utf ∧ WellFormed utf ∨ Rejected (reachable utf) := by
  constructor
  · rintro ⟨ok, hcheck, hok⟩
    cases ok with
    | true =>
      obtain ⟨before, rest, heq, -⟩ := lorieCheckUTF8_true.mp hcheck
      refine .inl ⟨?_, hok.mp rfl⟩
      rw [heq]
      exact List.mem_append_right _ (List.mem_cons_self ..)
    | false => exact .inr (lorieCheckUTF8_false.mp hcheck)
  · rintro (⟨hnul, hwell⟩ | hrejected)
    · exact ⟨true, lorieCheckUTF8_true.mpr (accepted_of_wellFormed hwell hnul),
        iff_of_true rfl hwell⟩
    · exact ⟨false, lorieCheckUTF8_false.mpr hrejected,
        iff_of_false nofun (not_wellFormed_of_rejected hrejected)⟩

/-- A text of one letter, which has no NUL, and one of two bytes that each must follow a lead. -/
theorem letter_and_continuations_not_decided : ¬Decides [0x41] ∧ ¬Decides [0x80, 0x80, 0] := by
  constructor
  · rintro ⟨ok, hcheck, -⟩
    cases hcheck
  · rintro ⟨ok, hcheck, hok⟩
    cases hcheck
    have hwell : Concat (Complete follows isContinuation) [0x80, 0x80] := hok.mp rfl
    generalize hl : ([0x80, 0x80] : List UInt8) = l at hwell
    cases hwell with
    | nil => cases hl
    | append head _ =>
      obtain ⟨count, -⟩ := head
      rw [List.cons_append] at hl
      obtain ⟨rfl, -⟩ := List.cons.inj hl
      cases count

end WinEmulator.Lorie.ClipboardText
