import Mathlib.Logic.Basic

/-!
# Sequences in which an element may take the place of the one before

`Superseding R` relates what has come to what is left of it where an element may be left out only if
the very next one supersedes it. The laws are for sequences that grow at their end: the new element
is put behind the last one, or in its place.
-/

set_option autoImplicit false

namespace WinEmulator.Lib

variable {α : Type} {R : α → α → Prop}

/-- Each element is there or is superseded by the next one. -/
def Superseding (R : α → α → Prop) : List α → List α → Prop
  | [], bs => bs = []
  | a :: as, bs =>
    (∃ rest, bs = a :: rest ∧ Superseding R as rest) ∨ (∃ next, as.head? = some next ∧ R a next) ∧
      Superseding R as bs

namespace Superseding

variable {as bs : List α} {a b : α}

theorem nil : Superseding R ([] : List α) [] := rfl

/-- The last element is always there. -/
theorem getLast?_eq (h : Superseding R as bs) : bs.getLast? = as.getLast? := by
  induction as generalizing bs with
  | nil =>
    obtain rfl : bs = [] := h
    rfl
  | cons a as ih =>
    rcases h with ⟨rest, rfl, hrest⟩ | ⟨⟨next, hnext, -⟩, hbs⟩
    · rw [List.getLast?_cons, List.getLast?_cons, ih hrest]
    · obtain ⟨as', rfl⟩ : ∃ as', as = next :: as' := by
        cases as with
        | nil => cases hnext
        | cons x xs => exact ⟨xs, by rw [Option.some.inj hnext]⟩
      rw [ih hbs, List.getLast?_cons_cons]

private theorem head?_snoc {next : α} (h : as.head? = some next) :
    (as ++ [b]).head? = some next := by
  rw [List.head?_append, h]
  rfl

/-- A new element behind the last one. -/
theorem snoc (h : Superseding R as bs) (b : α) : Superseding R (as ++ [b]) (bs ++ [b]) := by
  induction as generalizing bs with
  | nil =>
    obtain rfl : bs = [] := h
    exact .inl ⟨[], rfl, nil⟩
  | cons a as ih =>
    rcases h with ⟨rest, rfl, hrest⟩ | ⟨⟨next, hnext, hR⟩, hbs⟩
    · exact .inl ⟨rest ++ [b], rfl, ih hrest⟩
    · exact .inr ⟨⟨next, head?_snoc hnext, hR⟩, ih hbs⟩

/-- A new element in the place of the last one. -/
theorem replace (h : Superseding R as (bs ++ [a])) (hR : R a b) :
    Superseding R (as ++ [b]) (bs ++ [b]) := by
  induction as generalizing bs with
  | nil => exact absurd h (List.append_ne_nil_of_right_ne_nil bs (List.cons_ne_nil a []))
  | cons c as ih =>
    rcases h with ⟨rest, heq, hrest⟩ | ⟨⟨next, hnext, hnextR⟩, hbs⟩
    · cases bs with
      | nil =>
        obtain ⟨rfl, rfl⟩ := List.cons.inj heq
        obtain rfl : as = [] := by
          have hlast := hrest.getLast?_eq
          rwa [List.getLast?_nil, eq_comm, List.getLast?_eq_none_iff] at hlast
        exact .inr ⟨⟨b, rfl, hR⟩, .inl ⟨[], rfl, nil⟩⟩
      | cons d bs =>
        obtain ⟨rfl, rfl⟩ := List.cons.inj heq
        exact .inl ⟨bs ++ [b], rfl, ih hrest⟩
    · exact .inr ⟨⟨next, head?_snoc hnext, hnextR⟩, ih hbs⟩

/-- Elements that nothing supersedes are all there, in their order. -/
theorem filter_eq (h : Superseding R as bs) {p : α → Bool} (hp : ∀ a b, R a b → p a = false) :
    bs.filter p = as.filter p := by
  induction as generalizing bs with
  | nil =>
    obtain rfl : bs = [] := h
    rfl
  | cons a as ih =>
    rcases h with ⟨rest, rfl, hrest⟩ | ⟨⟨next, -, hR⟩, hbs⟩
    · rw [List.filter_cons, List.filter_cons, ih hrest]
    · rw [ih hbs, List.filter_cons_of_neg (by rw [hp a next hR]; exact Bool.false_ne_true)]

end Superseding

end WinEmulator.Lib
