import Mathlib.Data.List.TakeWhile

/-!
# Sequences with a lead

A text is read in sequences. The lead of one says how many other units follow it, if the unit may be
a lead, and those are told from leads. A text that is not well formed is read on all the same: a
sequence ends at the first unit that does not belong to it, which it takes along, or the end of the
text cuts it.
-/

set_option autoImplicit false

namespace WinEmulator.Lib.LeadBytes

variable {α : Type}

section

variable (follows : α → Option Nat) (isTail : α → Bool)

/-- A lead with the units that follow it. -/
inductive Complete : List α → Prop
  | intro {lead : α} {tails : List α} (count : follows lead = some tails.length)
      (all : ∀ t ∈ tails, isTail t = true) :
    Complete (lead :: tails)

/-- A lead, some of its units and one that does not belong to it. -/
inductive Broken : List α → Prop
  | intro {lead other : α} {tails : List α} {n : Nat} (count : follows lead = some n)
      (few : tails.length < n)
    (all : ∀ t ∈ tails, isTail t = true) (stops : isTail other = false) :
      Broken (lead :: (tails ++ [other]))

/-- A lead and some of its units. -/
inductive Cut : List α → Prop
  | intro {lead : α} {tails : List α} {n : Nat} (count : follows lead = some n)
      (few : tails.length < n)
    (all : ∀ t ∈ tails, isTail t = true) : Cut (lead :: tails)

/-- A unit that is no lead. -/
inductive Stray : List α → Prop
  | intro {unit : α} (count : follows unit = none) : Stray [unit]

/-- What is read at once, wherever it stands. -/
def Sequence (s : List α) : Prop :=
  Complete follows isTail s ∨ Broken follows isTail s ∨ Stray follows s

/-- The length of the sequence at the front, if the end does not cut it. -/
def frontLength : List α → Option Nat
  | [] => none
  | lead :: rest =>
    match follows lead with
    | none => some 1
    | some n =>
      let tails := (rest.takeWhile isTail).length
      if n ≤ tails then some (n + 1) else if tails < rest.length then some (tails + 2) else none

end

/-- One after another. -/
inductive Concat (P : List α → Prop) : List α → Prop
  | nil : Concat P []
  | append {s rest : List α} (head : P s) (tail : Concat P rest) : Concat P (s ++ rest)

variable {follows : α → Option Nat} {isTail : α → Bool} {s rest l : List α} {P Q : List α → Prop}

theorem Concat.imp (h : Concat P l) (himp : ∀ s, P s → Q s) : Concat Q l := by
  induction h with
  | nil => exact .nil
  | append head _ ih => exact .append (himp _ head) ih

/-! ## The front -/

theorem takeWhile_length_of_all (hall : ∀ t ∈ s, isTail t = true)
    (hstop : ∀ t ∈ rest.head?, isTail t = false) :
    ((s ++ rest).takeWhile isTail).length = s.length := by
  rw [List.takeWhile_append_of_pos hall]
  cases rest with
  | nil => simp
  | cons t rest => simp [hstop t rfl]

theorem frontLength_complete (h : Complete follows isTail s) (rest : List α) :
    frontLength follows isTail (s ++ rest) = some s.length := by
  obtain ⟨count, all⟩ := h
  rename_i lead tails
  have hle : tails.length ≤ ((tails ++ rest).takeWhile isTail).length := by
    rw [List.takeWhile_append_of_pos all, List.length_append]
    exact Nat.le_add_right _ _
  rw [List.cons_append, frontLength, count]
  exact if_pos hle

theorem frontLength_broken (h : Broken follows isTail s) (rest : List α) :
    frontLength follows isTail (s ++ rest) = some s.length := by
  obtain ⟨count, few, all, stops⟩ := h
  rename_i lead other tails n
  have htails : ((tails ++ [other] ++ rest).takeWhile isTail).length = tails.length := by
    rw [List.append_assoc]
    apply takeWhile_length_of_all all
    intro t ht
    cases ht
    exact stops
  rw [List.cons_append, frontLength, count]
  dsimp only
  rw [htails, if_neg (Nat.not_le.mpr few), if_pos (by simp)]
  simp

theorem frontLength_stray (h : Stray follows s) (rest : List α) :
    frontLength follows isTail (s ++ rest) = some s.length := by
  obtain ⟨count⟩ := h
  rw [List.singleton_append, frontLength, count]
  rfl

/-- The length of a sequence does not depend on what follows it. -/
theorem frontLength_append (h : Sequence follows isTail s) (rest : List α) :
    frontLength follows isTail (s ++ rest) = some s.length := by
  rcases h with h | h | h
  · exact frontLength_complete h rest
  · exact frontLength_broken h rest
  · exact frontLength_stray h rest

/-- A cut sequence has no length. -/
theorem frontLength_cut (h : Cut follows isTail s) : frontLength follows isTail s = none := by
  obtain ⟨count, few, all⟩ := h
  rename_i lead tails n
  have htails : (tails.takeWhile isTail).length = tails.length := by
    rw [List.takeWhile_eq_self_iff.mpr all]
  rw [frontLength, count]
  dsimp only
  rw [htails, if_neg (Nat.not_le.mpr few), if_neg (Nat.lt_irrefl _)]

/-- Two sequences at the front of one text are the same. -/
theorem Sequence.eq_of_append_eq {s' rest' : List α} (h : Sequence follows isTail s)
    (h' : Sequence follows isTail s')
    (heq : s ++ rest = s' ++ rest') : s = s' ∧ rest = rest' := by
  have hlength : s.length = s'.length := by
    have hfront := frontLength_append h rest
    rw [heq, frontLength_append h' rest'] at hfront
    exact (Option.some.inj hfront).symm
  exact List.append_inj heq hlength

theorem Sequence.ne_nil (h : Sequence follows isTail s) : s ≠ [] := by
  rintro rfl
  rcases h with h | h | h <;> cases h

/-- A text has a sequence at its front, or its end cuts it. -/
theorem front_cases (follows : α → Option Nat) (isTail : α → Bool) (hne : l ≠ []) :
    Cut follows isTail l ∨ ∃ s rest, l = s ++ rest ∧ Sequence follows isTail s := by
  obtain ⟨lead, rest, rfl⟩ := List.exists_cons_of_ne_nil hne
  have hsplit := List.takeWhile_append_dropWhile (p := isTail) (l := rest)
  have hall : ∀ t ∈ rest.takeWhile isTail, isTail t = true := fun t ht => List.mem_takeWhile_imp ht
  cases hcount : follows lead with
  | none => exact .inr ⟨[lead], rest, rfl, .inr (.inr ⟨hcount⟩)⟩
  | some n =>
    by_cases hle : n ≤ (rest.takeWhile isTail).length
    · refine .inr
        ⟨lead :: (rest.takeWhile isTail).take n,
        (rest.takeWhile isTail).drop n ++ rest.dropWhile isTail, ?_,
        .inl ⟨?_, fun t ht => hall t (List.mem_of_mem_take ht)⟩⟩
      · rw [List.cons_append, ← List.append_assoc, List.take_append_drop, hsplit]
      · rw [hcount, List.length_take, Nat.min_eq_left hle]
    · cases hdrop : rest.dropWhile isTail with
      | nil =>
        rw [hdrop, List.append_nil] at hsplit
        rw [hsplit] at hle hall
        exact .inl ⟨hcount, Nat.not_le.mp hle, hall⟩
      | cons other rest' =>
        refine .inr ⟨lead :: (rest.takeWhile isTail ++ [other]), rest', ?_,
          .inr (.inl ⟨hcount, Nat.not_le.mp hle, hall, ?_⟩)⟩
        · rw [List.cons_append, List.append_assoc, List.singleton_append, ← hdrop, hsplit]
        · have hnot := List.head?_dropWhile_not isTail rest
          rw [hdrop] at hnot
          exact hnot

/-! ## The end -/

section

variable (follows isTail)

/-- The end of the text cuts its last sequence. -/
def CutAtEnd (l : List α) : Prop :=
  ∃ before last, l = before ++ last ∧ Concat (Sequence follows isTail) before ∧
    Cut follows isTail last

/-- A sequence of more units than one ends where so many units were read. -/
def EndsAt (n : Nat) (l : List α) : Prop :=
  ∃ before s rest, l = before ++ (s ++ rest) ∧ Concat (Sequence follows isTail) before ∧
    Sequence follows isTail s ∧
    2 ≤ s.length ∧ before.length + s.length = n

end

theorem not_cutAtEnd_nil : ¬CutAtEnd follows isTail [] := by
  rintro ⟨before, last, heq, -, hcut⟩
  rw [(List.append_eq_nil_iff.mp heq.symm).2] at hcut
  cases hcut

theorem Cut.atEnd (h : Cut follows isTail l) : CutAtEnd follows isTail l := ⟨[], l, rfl, .nil, h⟩

/-- Whether a text is cut at its end is decided behind any of its sequences. -/
theorem cutAtEnd_append (hs : Sequence follows isTail s) :
    CutAtEnd follows isTail (s ++ rest) ↔ CutAtEnd follows isTail rest := by
  constructor
  · rintro ⟨before, last, heq, hbefore, hcut⟩
    cases hbefore with
    | nil =>
      have hfront := frontLength_append hs rest
      rw [heq, List.nil_append, frontLength_cut hcut] at hfront
      cases hfront
    | append head tail =>
      rename_i s' before
      rw [List.append_assoc] at heq
      obtain ⟨-, rfl⟩ := hs.eq_of_append_eq head heq
      exact ⟨before, last, rfl, tail, hcut⟩
  · rintro ⟨before, last, rfl, hbefore, hcut⟩
    exact ⟨s ++ before, last, (List.append_assoc ..).symm, .append hs hbefore, hcut⟩

/-- So is where it ends. -/
theorem endsAt_append (hs : Sequence follows isTail s) {n : Nat} (hn : n ≠ s.length) :
    EndsAt follows isTail n (s ++ rest) ↔
      s.length ≤ n ∧ EndsAt follows isTail (n - s.length) rest := by
  constructor
  · rintro ⟨before, s', rest', heq, hbefore, hs', hlength, hends⟩
    cases hbefore with
    | nil =>
      obtain ⟨rfl, -⟩ := hs.eq_of_append_eq hs' heq
      exact absurd hends.symm (by simpa using hn)
    | append head tail =>
      rename_i front before
      rw [List.append_assoc] at heq
      obtain ⟨rfl, rfl⟩ := hs.eq_of_append_eq head heq
      rw [List.length_append] at hends
      exact ⟨by omega, before, s', rest', rfl, tail, hs', hlength, by omega⟩
  · rintro ⟨hle, before, s', rest', rfl, hbefore, hs', hlength, hends⟩
    refine ⟨s ++ before, s', rest', (List.append_assoc ..).symm, .append hs hbefore, hs',
      hlength, ?_⟩
    rw [List.length_append]
    omega

theorem endsAt_of_front (hs : Sequence follows isTail s) (hlength : 2 ≤ s.length) :
    EndsAt follows isTail s.length (s ++ rest) :=
  ⟨[], s, rest, rfl, .nil, hs, hlength, Nat.zero_add _⟩

/-- Nothing that ends is longer than the text. -/
theorem EndsAt.le_length {n : Nat} (h : EndsAt follows isTail n l) : n ≤ l.length := by
  obtain ⟨before, s, rest, rfl, -, -, -, hends⟩ := h
  simp only [List.length_append]
  omega

theorem EndsAt.two_le {n : Nat} (h : EndsAt follows isTail n l) : 2 ≤ n := by
  obtain ⟨before, s, rest, -, -, -, hlength, hends⟩ := h
  omega

/-! ## Strays -/

/-- The same behind stray elements. -/
theorem cutAtEnd_strays {run : List α} (hrun : ∀ t ∈ run, follows t = none) :
    CutAtEnd follows isTail (run ++ rest) ↔ CutAtEnd follows isTail rest := by
  induction run with
  | nil => exact Iff.rfl
  | cons t run ih =>
    have hstray : Sequence follows isTail [t] := .inr (.inr ⟨hrun t (List.mem_cons_self ..)⟩)
    rw [List.cons_append, ← List.singleton_append, cutAtEnd_append hstray,
      ih fun t ht => hrun t (List.mem_cons_of_mem _ ht)]

/-- And the same for where it ends. -/
theorem endsAt_strays {run : List α} (hrun : ∀ t ∈ run, follows t = none) {n : Nat} :
    EndsAt follows isTail n (run ++ rest) ↔ run.length ≤ n ∧
      EndsAt follows isTail (n - run.length) rest := by
  induction run generalizing n with
  | nil => simp
  | cons t run ih =>
    have hstray : Sequence follows isTail [t] := .inr (.inr ⟨hrun t (List.mem_cons_self ..)⟩)
    by_cases hn : n = 1
    · subst hn
      refine iff_of_false (fun h => absurd h.two_le (by decide)) fun ⟨_, h⟩ => ?_
      have := h.two_le
      simp only [List.length_cons] at this
      omega
    · rw [List.cons_append, ← List.singleton_append, endsAt_append hstray (by simpa using hn),
        ih fun t ht => hrun t (List.mem_cons_of_mem _ ht), List.length_singleton, List.length_cons,
          Nat.sub_sub,
        Nat.add_comm 1]
      constructor
      · exact fun ⟨_, h, hends⟩ => ⟨by omega, hends⟩
      · exact fun ⟨h, hends⟩ => ⟨by omega, by omega, hends⟩

end WinEmulator.Lib.LeadBytes
