import Mathlib.Data.List.DropRight
import WinEmulator.App.Proot

/-!
# A language is switched on once

The comment marks at the start of a line go before the blanks do, so a mark that stands behind a
blank is left, and goes when the file is edited again.
-/

set_option autoImplicit false

namespace WinEmulator.App.LocaleGen

open WinEmulator.Lib.Lines

variable {targetLocale content line : Text}

/-! ## What is to hold -/

/-- Without its comment marks and the blanks around it, the line is a locale and one more field, and
the locale is the target but for case and punctuation. -/
def NamesTarget (targetLocale line : Text) : Prop :=
  ∃ locale charset, (uncommentLine line).splitOn ' ' = [locale, charset] ∧
    comp locale = comp targetLocale

def Commented (line : Text) : Prop := line.head? = some '#'

/-- Every line stays where it is. One that names the target has no comment mark in front, and no
other one changes; and editing again changes nothing. -/
def EditsOnce (targetLocale content : Text) : Prop :=
  List.Forall₂
      (fun line line' => (line' = line ∨ NamesTarget targetLocale line) ∧
        (NamesTarget targetLocale line → ¬ Commented line'))
      (readLines content) (readLines (editEtcLocaleGen targetLocale content)) ∧
    editEtcLocaleGen targetLocale (editEtcLocaleGen targetLocale content) =
      editEtcLocaleGen targetLocale content

/-! ## One line -/

theorem trim_eq (s : Text) : trim s = (s.dropWhile isWhitespace).rdropWhile isWhitespace := rfl

/-- Trimming twice trims no more. -/
theorem trim_trim (s : Text) : trim (trim s) = trim s := by
  have hfirst : (trim s).dropWhile isWhitespace = trim s := by
    rw [trim_eq]
    cases hrest : (s.dropWhile isWhitespace).rdropWhile isWhitespace with
    | nil => rfl
    | cons c cs =>
      obtain ⟨after, hafter⟩ :=
        hrest ▸ List.rdropWhile_prefix isWhitespace (l := s.dropWhile isWhitespace)
      have hnot : ¬ isWhitespace c = true := by
        have hdrop := List.dropWhile_idempotent isWhitespace s
        rw [← hafter, List.cons_append, List.dropWhile_cons] at hdrop
        intro hc
        rw [if_pos hc] at hdrop
        have hlength := congrArg List.length hdrop
        have hle := (List.dropWhile_suffix isWhitespace (l := cs ++ after)).length_le
        rw [List.length_cons] at hlength
        omega
      rw [List.dropWhile_cons, if_neg hnot]
  rw [trim_eq (trim s), hfirst, trim_eq, List.rdropWhile_idempotent]

/-- Uncommenting brings in no character. -/
theorem mem_of_mem_uncommentLine {c : Char} (h : c ∈ uncommentLine line) : c ∈ line := by
  rw [uncommentLine, trim_eq] at h
  have hblank :=
    (List.dropWhile_suffix isWhitespace).subset ((List.rdropWhile_prefix isWhitespace _).subset h)
  exact (List.dropWhile_suffix _).subset hblank

/-- A line without a mark in front is only trimmed. -/
theorem uncommentLine_again (h : ¬ Commented (uncommentLine line)) :
    uncommentLine (uncommentLine line) = uncommentLine line := by
  have hmark : (uncommentLine line).dropWhile (· = '#') = uncommentLine line := by
    cases hline : uncommentLine line with
    | nil => rfl
    | cons c cs =>
      rw [hline] at h
      have hne : ¬ (decide (c = '#')) = true := fun hc => h (congrArg some (of_decide_eq_true hc))
      rw [List.dropWhile_cons, if_neg hne]
  rw [uncommentLine, hmark, uncommentLine, trim_trim]

/-- The line of the locale is uncommented. -/
theorem editLine_names (h : NamesTarget targetLocale line) :
    editLine targetLocale line = uncommentLine line := by
  obtain ⟨locale, charset, hsplit, hcomp⟩ := h
  simp only [editLine, hsplit]
  rw [if_pos hcomp]

/-- Every other line stays. -/
theorem editLine_other (h : ¬ NamesTarget targetLocale line) :
    editLine targetLocale line = line := by
  unfold editLine
  split
  case h_1 locale charset hsplit => exact if_neg fun hcomp => h ⟨locale, charset, hsplit, hcomp⟩
  case h_2 => rfl

theorem oneLine_editLine (h : OneLine line) : OneLine (editLine targetLocale line) := by
  by_cases hnames : NamesTarget targetLocale line
  · rw [editLine_names hnames]
    exact fun c hc => h c (mem_of_mem_uncommentLine hc)
  · rw [editLine_other hnames]
    exact h

/-- A line whose marks all come first is edited once. -/
theorem editLine_again (h : NamesTarget targetLocale line → ¬ Commented (uncommentLine line)) :
    editLine targetLocale (editLine targetLocale line) = editLine targetLocale line := by
  by_cases hnames : NamesTarget targetLocale line
  · rw [editLine_names hnames]
    obtain ⟨locale, charset, hsplit, hcomp⟩ := hnames
    have hagain := uncommentLine_again (h ⟨locale, charset, hsplit, hcomp⟩)
    rw [editLine_names ⟨locale, charset, by rw [hagain, hsplit], hcomp⟩, hagain]
  · rw [editLine_other hnames, editLine_other hnames]

/-! ## The file -/

/-- The edited file has the edited lines, one for each. -/
theorem readLines_editEtcLocaleGen (targetLocale content : Text) :
    readLines (editEtcLocaleGen targetLocale content) = (readLines content).map
      (editLine targetLocale) := by
  refine readLines_writeLines (List.forall_mem_map.mpr fun line hline => ?_)
  exact oneLine_editLine (oneLine_readLines content line hline)

/-- **The lines of the language lose their comment marks, nothing else changes, and editing again
changes nothing,** exactly when in each of these lines the comment marks come before all blanks. -/
theorem editsOnce_iff (targetLocale content : Text) :
    EditsOnce targetLocale content ↔
      ∀ line ∈ readLines content, NamesTarget targetLocale line →
        ¬ Commented (uncommentLine line) := by
  rw [EditsOnce, readLines_editEtcLocaleGen, List.forall₂_map_right_iff, List.forall₂_same]
  constructor
  · rintro ⟨hlines, -⟩ line hline hnames
    rw [← editLine_names hnames]
    exact (hlines line hline).2 hnames
  · intro hmarks
    refine ⟨fun line hline => ⟨?_, fun hnames => ?_⟩, ?_⟩
    · exact (Classical.em (NamesTarget targetLocale line)).symm.imp_left editLine_other
    · rw [editLine_names hnames]
      exact hmarks line hline hnames
    · rw [editEtcLocaleGen, readLines_editEtcLocaleGen, List.map_map, editEtcLocaleGen]
      congr 1
      exact List.map_congr_left fun line hline => editLine_again (hmarks line hline)

/-- A mark, a blank and another mark. -/
theorem not_editsOnce_twoMarks : ¬ ∀ targetLocale content, EditsOnce targetLocale content := by
  intro hall
  have hmarks := (hall "en_US.UTF-8".toList "# #en_US.UTF-8 UTF-8\n".toList).2
  revert hmarks
  decide

end WinEmulator.App.LocaleGen
