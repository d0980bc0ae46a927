import Mathlib.Data.List.Basic

/-!
# The lines of a text

A line ends with a newline, with a carriage return or with both. What follows the last end is a line
as well, unless it is empty. Lines are written with a newline after each.
-/

set_option autoImplicit false

namespace WinEmulator.Lib.Lines

/-- No line ends in it. -/
def OneLine (line : List Char) : Prop := ∀ c ∈ line, c ≠ '\n' ∧ c ≠ '\r'

/-- The lines, the first of which began with `line`. -/
def linesFrom : List Char → List Char → List (List Char)
  | line, [] => if line = [] then [] else [line]
  | line, '\r' :: '\n' :: rest => line :: linesFrom [] rest
  | line, c :: rest =>
    if c = '\n' ∨ c = '\r' then line :: linesFrom [] rest else linesFrom (line ++ [c]) rest

def readLines (text : List Char) : List (List Char) := linesFrom [] text

def writeLines (lines : List (List Char)) : List Char := lines.flatMap (· ++ ['\n'])

theorem oneLine_append {s t : List Char} : OneLine (s ++ t) ↔ OneLine s ∧ OneLine t :=
  List.forall_mem_append

theorem oneLine_linesFrom {line text : List Char} (h : OneLine line) :
    ∀ l ∈ linesFrom line text, OneLine l := by
  fun_induction linesFrom line text with
  | case1 => exact nofun
  | case2 line hne => exact List.forall_mem_singleton.mpr h
  | case3 line rest ih => exact List.forall_mem_cons.mpr ⟨h, ih nofun⟩
  | case4 line c rest hne hend ih => exact List.forall_mem_cons.mpr ⟨h, ih nofun⟩
  | case5 line c rest hne hend ih =>
    exact ih (oneLine_append.mpr ⟨h, List.forall_mem_singleton.mpr (not_or.mp hend)⟩)

theorem oneLine_readLines (text : List Char) : ∀ line ∈ readLines text, OneLine line :=
  oneLine_linesFrom nofun

/-- Up to its end a line is read as it is. -/
theorem linesFrom_append {line rest : List Char} (h : OneLine line) (start : List Char) :
    linesFrom start (line ++ '\n' :: rest) = (start ++ line) :: readLines rest := by
  induction line generalizing start with
  | nil =>
    rw [List.nil_append, List.append_nil, linesFrom]
    · rw [if_pos (.inl rfl), readLines]
    · exact fun _ hreturn => absurd hreturn (by decide)
  | cons c line ih =>
    obtain ⟨⟨hnewline, hreturn⟩, hrest⟩ := List.forall_mem_cons.mp h
    rw [List.cons_append, linesFrom]
    · rw [if_neg (not_or.mpr ⟨hnewline, hreturn⟩), ih hrest, List.append_assoc]
      rfl
    · exact fun _ heq => absurd heq hreturn

/-- What is written is read again. -/
theorem readLines_writeLines {lines : List (List Char)} (h : ∀ line ∈ lines, OneLine line) :
    readLines (writeLines lines) = lines := by
  induction lines with
  | nil => rfl
  | cons line lines ih =>
    obtain ⟨hline, hlines⟩ := List.forall_mem_cons.mp h
    rw [writeLines, List.flatMap_cons, List.append_assoc, List.singleton_append, readLines,
      linesFrom_append hline,
      List.nil_append, ← writeLines, ih hlines]

end WinEmulator.Lib.Lines
