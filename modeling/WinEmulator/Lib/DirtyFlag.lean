import Mathlib.Logic.Function.Basic

/-!
# A copy that a flag keeps current

A writer changes cells and then raises a flag; a reader takes the flag down and then copies the
cells, in its own time and while the writer goes on. `Fresh` says of each cell that the copy has it,
or that something is still to come that will bring it: the flag is up, the writer has yet to raise
it, or the reader has yet to read the cell. Each step of the two keeps this. When nothing is to
come, the copy is current.
-/

set_option autoImplicit false

namespace WinEmulator.Lib

variable {Cell : Type} {Val : Cell → Type}

/-- Each cell is copied as it is, or is still to be. -/
def Fresh (cells copy : (c : Cell) → Val c) (raised : Prop) (owed unread : Cell → Prop) : Prop :=
  ∀ c, copy c = cells c ∨ raised ∨ owed c ∨ unread c

namespace Fresh

variable {cells copy : (c : Cell) → Val c} {raised raised' : Prop}
  {owed owed' unread unread' : Cell → Prop}

/-- A report that is owed may have been made, and one that was made may be owed again. -/
theorem mono (h : Fresh cells copy raised owed unread)
    (hreport : ∀ c, raised ∨ owed c → raised' ∨ owed' c)
    (hunread : ∀ c, unread c → unread' c) : Fresh cells copy raised' owed' unread' := fun c => by
  rcases h c with heq | hraised | howed | hread
  · exact .inl heq
  · exact .inr (or_assoc.mp (.inl (hreport c (.inl hraised))))
  · exact .inr (or_assoc.mp (.inl (hreport c (.inr howed))))
  · exact .inr (.inr (.inr (hunread c hread)))

/-- There is a report to come for every cell. -/
theorem reported (hreport : ∀ c, raised ∨ owed c) : Fresh cells copy raised owed unread := fun c =>
  .inr (or_assoc.mp (.inl (hreport c)))

/-- The writer changes a cell and owes the flag for it. -/
theorem write [DecidableEq Cell] (h : Fresh cells copy raised owed unread) (c : Cell) (v : Val c)
    (howed : owed c) :
    Fresh (Function.update cells c v) copy raised owed unread := fun d => by
  by_cases hd : d = c
  · subst hd
    exact .inr (.inr (.inl howed))
  · rw [Function.update_of_ne hd]
    exact h d

/-- The reader takes the flag down, and is going to read every cell. -/
theorem lower (hunread : ∀ c, unread' c) : Fresh cells copy raised' owed unread' :=
  fun c => .inr (.inr (.inr (hunread c)))

/-- The reader reads a cell. -/
theorem read [DecidableEq Cell] (h : Fresh cells copy raised owed unread) (c : Cell) :
    Fresh cells (Function.update copy c (cells c)) raised owed fun d => d ≠ c ∧
      unread d := fun d => by
  by_cases hd : d = c
  · subst hd
    exact .inl (Function.update_self ..)
  · rw [Function.update_of_ne hd]
    exact (h d).imp_right (Or.imp_right (Or.imp_right fun hunread => ⟨hd, hunread⟩))

/-- When nothing is to come, the copy is current. -/
theorem current (h : Fresh cells copy raised owed unread) (hraised : ¬raised) {c : Cell}
    (howed : ¬owed c)
    (hunread : ¬unread c) : copy c = cells c :=
  (h c).resolve_right fun hc => hc.elim hraised fun hc => hc.elim howed hunread

end Fresh

end WinEmulator.Lib
