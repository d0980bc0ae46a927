import Mathlib.Data.List.DropRight
import WinEmulator.Lib.Resolve

/-!
# Where a relative path leads, lexically

A relative path takes some steps up and goes down again by names. So it stays in the directory it
starts from, or comes back to it, exactly if those names begin with the last names of the directory.
-/

set_option autoImplicit false

namespace WinEmulator.Lib.JavaFile

open Fs

/-! ## Steps up and names -/

/-- How often a path goes up in the end, and the names it goes down by. -/
structure Way where
  up : Nat
  names : List Name
deriving DecidableEq

namespace Way

/-- One more component. A double dot takes back the name before it, and else is one more step up. -/
def next (w : Way) (c : Name) : Way :=
  if c = [] ∨ c = dot then w
  else if c = dotdot then if w.names = [] then ⟨w.up + 1, []⟩ else ⟨w.up, w.names.dropLast⟩
  else ⟨w.up, w.names ++ [c]⟩

/-- What it makes of a directory. -/
def target (w : Way) (base : Loc) : Loc := base.take (base.length - w.up) ++ w.names

/-- The names begin with the last ones of the directory, as many as there are steps up. -/
def Returns (w : Way) (base : Loc) : Prop := base.drop (base.length - w.up) <+: w.names

instance (w : Way) (base : Loc) : Decidable (w.Returns base) :=
  inferInstanceAs (Decidable (base.drop (base.length - w.up) <+: w.names))

end Way

def way (cs : List Name) : Way := cs.foldl Way.next ⟨0, []⟩

theorem dropLast_take (l : Loc) (k : Nat) :
    (l.take (l.length - k)).dropLast = l.take (l.length - (k + 1)) := by
  rw [List.dropLast_eq_take, List.take_take, List.length_take]
  congr 1
  omega

/-- A double dot is one step. -/
theorem Way.target_next_dotdot (w : Way) (base : Loc) :
    (w.next dotdot).target base = (w.target base).dropLast := by
  have hdot : ¬(dotdot = [] ∨ dotdot = dot) := by decide
  rw [next, if_neg hdot, if_pos rfl, target, target]
  split
  case isTrue hnil => rw [hnil, List.append_nil, List.append_nil, dropLast_take]
  case isFalse hne => rw [List.dropLast_append_of_ne_nil hne]

/-- Collapsing a relative path goes the way that it describes. -/
theorem collapse_target (w : Way) (base : Loc) (cs : List Name) :
    collapse (w.target base) cs = (cs.foldl Way.next w).target base := by
  induction cs generalizing w with
  | nil => rfl
  | cons c cs ih =>
    rw [List.foldl_cons, ← ih, collapse]
    split
    case isTrue hdot => rw [Way.next, if_pos hdot]
    case isFalse hdot =>
      split
      case isTrue hdots => rw [hdots, Way.target_next_dotdot]
      case isFalse hdots =>
        rw [Way.next, if_neg hdot, if_neg hdots, Way.target, Way.target, List.append_assoc]

theorem collapse_eq (base : Loc) (cs : List Name) : collapse base cs = (way cs).target base := by
  rw [way, ← collapse_target, Way.target, Nat.sub_zero, List.take_length, List.append_nil]

/-- **A path leads into the directory it starts from** if and only if it returns to it. -/
theorem prefix_collapse_iff (base : Loc) (cs : List Name) :
    base <+: collapse base cs ↔ (way cs).Returns base := by
  have hbase := List.take_append_drop (base.length - (way cs).up) base
  rw [collapse_eq, Way.target, Way.Returns]
  nth_rewrite 1 [← hbase]
  exact List.prefix_append_right_inj _

/-! ## Components -/

theorem components_nil : components [] = [] := by simp [components]

/-- A slash ends a component. -/
theorem components_append_slash (s t : List Char) :
    components (s ++ '/' :: t) = components s ++ components t := by
  rw [components, List.splitOn_append_cons_self, List.filter_append]
  rfl

theorem components_cons_slash (t : List Char) : components ('/' :: t) = components t := by
  rw [← List.nil_append ('/' :: t), components_append_slash, components_nil, List.nil_append]

/-- A text without a slash is one component. -/
theorem components_of_not_mem {s : List Char} (hne : s ≠ []) (h : '/' ∉ s) :
    components s = [s] := by
  rw [components, List.splitOn_eq_singleton h, List.filter_cons_of_pos (by simpa using hne),
    List.filter_nil]

/-- What follows a text that ends with a slash, or begins with one itself, adds its own
components. -/
theorem components_append {s t : List Char}
    (h : s = [] ∨ s.getLast? = some '/' ∨ t = [] ∨ t.head? = some '/') :
    components (s ++ t) = components s ++ components t := by
  rcases h with rfl | hlast | rfl | hhead
  · rw [components_nil, List.nil_append, List.nil_append]
  · obtain ⟨s', rfl⟩ := List.getLast?_eq_some_iff.mp hlast
    rw [List.append_assoc, List.singleton_append, components_append_slash, components_append_slash,
      components_nil,
      List.append_nil]
  · rw [components_nil, List.append_nil, List.append_nil]
  · obtain ⟨t', rfl⟩ := List.head?_eq_some_iff.mp hhead
    rw [components_append_slash, components_cons_slash]

theorem not_mem_of_mem_splitOn {s : List Char} {c : Name} (h : c ∈ s.splitOn '/') : '/' ∉ c := by
  induction s generalizing c with
  | nil =>
    rw [List.splitOn_nil, List.mem_singleton] at h
    rw [h]
    exact List.not_mem_nil
  | cons x s ih =>
    rw [List.splitOn_cons_eq_if_modifyHead] at h
    split at h
    · rcases List.mem_cons.mp h with rfl | hc
      · exact List.not_mem_nil
      · exact ih hc
    next hx =>
      cases hsplit : s.splitOn '/' with
      | nil => exact absurd hsplit (List.splitOn_ne_nil _ _)
      | cons y ys =>
        rw [hsplit] at h ih
        rcases List.mem_cons.mp h with rfl | hc
        · rw [List.mem_cons, not_or]
          exact ⟨fun heq => hx (beq_iff_eq.mpr heq.symm), ih List.mem_cons_self⟩
        · exact ih (List.mem_cons_of_mem _ hc)

/-- No component has a slash. -/
theorem not_mem_of_mem_components {s : List Char} {c : Name} (h : c ∈ components s) : '/' ∉ c :=
  not_mem_of_mem_splitOn (List.mem_filter.mp h).1

theorem head?_absolutePath {p : Path} (h : p ≠ []) : (absolutePath p).head? = some '/' := by
  cases p with
  | nil => exact absurd rfl h
  | cons c p =>
    rw [absolutePath, List.intercalate_cons_cons]
    rfl

/-- The target of a link that an absolute path is. -/
theorem targetPath_absolutePath {p : Path} (h : ∀ c ∈ p, '/' ∉ c) :
    targetPath (absolutePath p) = [] :: p :=
  List.splitOn_intercalate '/' (List.forall_mem_cons.mpr ⟨List.not_mem_nil, h⟩)
    (List.cons_ne_nil [] p)

/-! ## The last segment -/

/-- What stands after the last slash. -/
def lastSegment (s : List Char) : Name := s.rtakeWhile (· ≠ '/')

/-- What stands up to the last slash. -/
def upToLastSlash (s : List Char) : List Char := s.rdropWhile (· ≠ '/')

/-- A path is what is before its last segment, and that segment. -/
theorem upToLastSlash_append_lastSegment (s : List Char) : upToLastSlash s ++ lastSegment s = s :=
  List.rdropWhile_append_rtakeWhile

theorem not_mem_lastSegment (s : List Char) : '/' ∉ lastSegment s := fun h => by
  simpa using List.mem_rtakeWhile_imp h

theorem upToLastSlash_ends (s : List Char) :
    upToLastSlash s = [] ∨ (upToLastSlash s).getLast? = some '/' := by
  by_cases hnil : upToLastSlash s = []
  · exact .inl hnil
  · have hlast : ¬(decide ((upToLastSlash s).getLast hnil ≠ '/') = true) :=
      List.rdropWhile_last_not _ _ hnil
    rw [List.getLast?_eq_some_getLast hnil]
    exact .inr (congrArg some (by simpa using hlast))

end WinEmulator.Lib.JavaFile
