import Mathlib.Algebra.GroupWithZero.Nat
import Mathlib.Data.List.Basic
import WinEmulator.Lib.Sh

/-!
# Which joined words a shell gives back

`Sh.join` puts a space between words and quotes nothing. The words come back from it in every
environment and whatever files there are exactly when each is plain (`simpleCommand_join_iff`).

That plain words come back is a matter of running the tokeniser over them. The converse is a count.
In an environment without parameters a character adds at most one to the characters and finished
fields there are, and the end of the string at most one more, so to get all the words back every
single character must have added one. A quote, a backslash or a dollar sign adds nothing; a blank or
a terminator adds one only where it ends a field. What is left are words without any of them, and
these become fields that stay as they are only if they match no other pathname.
-/

set_option autoImplicit false

namespace WinEmulator.Lib.Sh

open State

/-! ## Plain words come back -/

/-- Reading goes on from where the first part ends. -/
theorem steps_append (env : Env) (s : State) (cs ds : List Char) :
    steps env s (cs ++ ds) = (steps env s cs).bind fun s' => steps env s' ds := by
  induction cs generalizing s with
  | nil => rfl
  | cons c cs ih =>
    show (step env s c).bind _ = ((step env s c).bind _).bind _
    rw [Option.bind_assoc]
    congr 1
    funext s'
    exact ih s'

/-- An ordinary character inside a field is added to it. -/
theorem step_ordinary (env : Env) (done : List Field) (f : Field) {c : Char}
    (h : classOf c = .ordinary) :
    step env ⟨.unquoted, done, some f⟩ c = some ⟨.unquoted, done, some (f ++ [(c, false)])⟩ := by
  simp only [step, unquoted, h, reduceCtorEq, false_and, if_false]
  rfl

/-- Ordinary characters join the word as they are. -/
theorem steps_ordinary (env : Env) (done : List Field) (f : Field) {cs : List Char}
    (h : ∀ c ∈ cs, classOf c = .ordinary) :
    steps env ⟨.unquoted, done, some f⟩ cs = some ⟨.unquoted, done, some (f ++ literal cs)⟩ := by
  induction cs generalizing f with
  | nil =>
    show some _ = some _
    rw [literal, List.map_nil, List.append_nil]
  | cons c cs ih =>
    show (step env _ c).bind _ = _
    rw [step_ordinary env done f (h c List.mem_cons_self), Option.bind_some,
      ih _ fun d hd => h d (List.mem_cons_of_mem _ hd)]
    simp only [literal, List.map_cons, List.append_assoc, List.singleton_append]

/-- A word without special characters becomes a field of its own. -/
theorem steps_unspecial (env : Env) (done : List Field) {w : List Char} (h : Unspecial w) :
    steps env ⟨.unquoted, done, none⟩ w = some ⟨.unquoted, done, some (literal w)⟩ := by
  obtain ⟨ne, ordinary, hash, tilde⟩ := h
  cases w with
  | nil => exact absurd rfl ne
  | cons c cs =>
    have hc : classOf c = .ordinary := ordinary c List.mem_cons_self
    have hhash : c ≠ '#' := by
      rintro rfl
      exact hash rfl
    have htilde : c ≠ '~' := by
      rintro rfl
      exact tilde rfl
    have hfirst : step env ⟨.unquoted, done, none⟩ c =
        some ⟨.unquoted, done, some [(c, false)]⟩ := by
      simp only [step, unquoted, hc, hhash, htilde, and_false, if_false]
      rfl
    show (step env _ c).bind _ = _
    rw [hfirst, Option.bind_some,
      steps_ordinary env done _ fun d hd => ordinary d (List.mem_cons_of_mem _ hd)]
    rfl

/-- The fields of such words, joined, are those words. -/
theorem fields_join (env : Env) {ws : List (List Char)} (h : ∀ w ∈ ws, Unspecial w) :
    fields env (join ws) = some (ws.map literal) := by
  have main : ∀ done, (steps env ⟨.unquoted, done, none⟩ (join ws)).bind (finish env)
      = some (done ++ ws.map literal) := by
    induction ws with
    | nil =>
      intro done
      show some done = _
      rw [List.map_nil, List.append_nil]
    | cons w ws ih =>
      intro done
      have hw := steps_unspecial env done (h w List.mem_cons_self)
      cases ws with
      | nil =>
        show (steps env _ w).bind _ = _
        rw [hw]
        rfl
      | cons v vs =>
        show (steps env _ (w ++ ' ' :: join (v :: vs))).bind _ = _
        rw [steps_append, hw, Option.bind_some]
        have hblank : step env ⟨.unquoted, done, some (literal w)⟩ ' '
            = some ⟨.unquoted, done ++ [literal w], none⟩ := rfl
        show ((step env _ ' ').bind _).bind _ = _
        rw [hblank, Option.bind_some, ih (fun u hu => h u (List.mem_cons_of_mem _ hu))]
        simp only [List.map_cons, List.append_assoc, List.singleton_append]
  have hstart := main []
  rw [List.nil_append] at hstart
  exact hstart

/-- A word of inert characters is plain. -/
theorem Opening.plain {w : List Char} (h : Opening w) (ne : w ≠ []) : Plain w := by
  refine ⟨⟨ne, fun c hc => (h.inert c hc).1, h.not_comment, h.not_tilde⟩, ?_⟩
  have hliteral : ∀ f ∈ components (literal w), isLiteral f = true := by
    intro f hf
    refine isLiteral_of_no_glob fun p hp => ?_
    obtain ⟨c, hc, rfl⟩ := List.mem_map.mp (mem_of_mem_components hf hp)
    exact (h.inert c hc).2
  intro t ht
  rw [eq_of_expands_literal hliteral ht, text_components]

/-- A word that begins with a slash is a command name, not an assignment or a reserved word. -/
theorem command_of_slash (cs : List Char) :
    (isAssignment (literal ('/' :: cs)) || isReserved (literal ('/' :: cs))) = false := by
  have hassign : isAssignment (literal ('/' :: cs)) = false := by
    unfold isAssignment literal
    simp [isNameStart]
  have hreserved : isReserved (literal ('/' :: cs)) = false := by
    unfold isReserved
    rw [text_literal]
    simp
  rw [hassign, hreserved]
  rfl

/-- **Plain words come back** from a command line whose first word is a command name. -/
theorem simpleCommand_join (env : Env) (files : Files) {w : List Char} {ws : List (List Char)}
    (hcommand : (isAssignment (literal w) || isReserved (literal w)) = false)
    (h : ∀ u ∈ w :: ws, Plain u) : simpleCommand env files (join (w :: ws)) = some (w :: ws) := by
  unfold simpleCommand
  rw [fields_join env fun u hu => (h u hu).unspecial, Option.bind_some]
  have hhead : (List.map literal (w :: ws)).head?.any
      (fun f => isAssignment f || isReserved f) = false := hcommand
  rw [hhead]
  simp only [Bool.false_eq_true, if_false, Option.some.injEq]
  generalize w :: ws = all at h
  induction all with
  | nil => rfl
  | cons u us ih =>
    have hu := (globbed_iff_fixed (literal u)).mpr (h u List.mem_cons_self).fixed files
    rw [List.map_cons, List.flatMap_cons, hu, text_literal,
      ih fun v hv => h v (List.mem_cons_of_mem _ hv)]
    rfl

/-! ## Nothing else does -/

/-- An environment with no parameters and no known home directories. -/
def bare : Env := ⟨fun _ => none, fun _ => none⟩

/-- How many characters and fields there are. -/
def count (fs : List Field) : Nat := (fs.map fun f => f.length + 1).sum

namespace State

/-- The characters and the finished fields. -/
def size (s : State) : Nat := count s.done + (s.cur.getD []).length

/-- A backslash in double quotes may turn out to be a character, and so may the name of a
parameter. -/
def credit (s : State) : Nat :=
  match s.mode with
  | .doubleEscape | .name _ _ | .brace _ _ => 1
  | _ => 0

end State

theorem count_snoc (fs : List Field) (f : Field) : count (fs ++ [f]) = count fs + f.length + 1 := by
  unfold count
  rw [List.map_append, List.sum_append, List.map_singleton, List.sum_singleton, Nat.add_assoc]

@[simp] theorem size_goto (s : State) (m : Mode) : (s.goto m).size = s.size := rfl

@[simp] theorem size_openField (s : State) : s.openField.size = s.size := rfl

@[simp] theorem size_push (s : State) (c : Char) (q : Bool) : (s.push c q).size = s.size + 1 := by
  show count s.done + (s.cur.getD [] ++ [(c, q)]).length = _
  rw [List.length_append, ← Nat.add_assoc]
  rfl

theorem size_flush_le (s : State) : s.flush.size ≤ s.size + 1 := by
  unfold State.flush
  split
  · exact Nat.le_add_right _ _
  next f hcur =>
    show count (s.done ++ [f]) + 0 ≤ count s.done + (s.cur.getD []).length + 1
    rw [count_snoc, hcur, Option.getD_some]

@[simp] theorem credit_goto (s : State) (m : Mode) :
    (s.goto m).credit = State.credit ⟨m, [], none⟩ := rfl

/-- In the bare environment the value of a parameter is nothing or a zero. -/
theorem size_expand_bare_le (s : State) (dq : Bool) (n : List Char) :
    (s.expand bare dq n).size ≤ s.size + 1 := by
  unfold State.expand Env.value
  split
  · have hzero : put dq s '0' = s.push '0' dq := by cases dq <;> rfl
    rw [List.foldl_cons, List.foldl_nil, hzero, size_push]
  · split <;> exact Nat.le_succ _

theorem terminate_size {s s' : State} (h : terminate s = some s') :
    s'.size + s'.credit ≤ s.size + 1 := by
  unfold terminate at h
  split at h
  · cases h
  · cases h
    exact size_flush_le s

/-- An unquoted character adds at most one. -/
theorem unquoted_size {s s' : State} {c : Char} (h : unquoted s c = some s') :
    s'.size + s'.credit ≤ s.size + 1 := by
  unfold unquoted at h
  split at h
  · cases h
    exact size_flush_le s
  · exact terminate_size h
  · cases h
  · cases h
    exact Nat.le_add_right _ _
  · cases h
    exact Nat.le_add_right _ _
  · cases h
    exact Nat.le_add_right _ _
  · cases h
    exact Nat.le_add_right _ _
  · split at h
    · cases h
      exact Nat.le_add_right _ _
    · split at h
      · cases h
        exact Nat.le_add_right _ _
      · cases h
        rw [size_goto, size_push]
        exact Nat.le_refl _

/-- No character within double quotes makes more than it costs. -/
theorem doubleQuoted_size {s s' : State} {c : Char} (h : doubleQuoted s c = some s') :
    s'.size + s'.credit ≤ s.size + 1 := by
  unfold doubleQuoted at h
  split at h
  · cases h
    exact Nat.le_add_right _ _
  · split at h
    · cases h
      exact Nat.le_refl _
    · split at h
      · cases h
        exact Nat.le_add_right _ _
      · split at h
        · cases h
        · cases h
          rw [size_goto, size_push]
          exact Nat.le_refl _

theorem resume_size {dq : Bool} {s s' : State} {c : Char} (h : resume dq s c = some s') :
    s'.size + s'.credit ≤ s.size + 1 := by
  unfold resume at h
  split at h
  · exact doubleQuoted_size h
  · exact unquoted_size h

/-- Nor does one after a dollar. -/
theorem afterDollar_size {dq : Bool} {s s' : State} {c : Char}
    (h : afterDollar bare dq s c = some s') :
    s'.size + s'.credit ≤ s.size + 1 := by
  unfold afterDollar at h
  split at h
  · cases h
    exact Nat.le_refl _
  · split at h
    · cases h
      cases dq <;> exact size_expand_bare_le s _ [c]
    · split at h
      · cases h
        exact Nat.le_refl _
      · cases h

theorem afterTilde_size {s s' : State} {n : List Char} {c : Char}
    (h : afterTilde bare s n c = some s') :
    s'.size + s'.credit ≤ s.size + 1 := by
  unfold afterTilde at h
  split at h
  · cases h
  · split at h
    · cases h
    · cases h
      exact Nat.le_add_right _ _
    · cases h

/-- In the bare environment a character adds at most one. -/
theorem step_size {s s' : State} {c : Char} (h : step bare s c = some s') :
    s'.size + s'.credit ≤ s.size + s.credit + 1 := by
  have hle : s.size + 1 ≤ s.size + s.credit + 1 := by omega
  unfold step at h
  cases hmode : s.mode with
  | unquoted =>
    simp only [hmode] at h
    exact Nat.le_trans (unquoted_size h) hle
  | escape =>
    simp only [hmode] at h
    split at h
    · cases h
      exact Nat.le_trans (Nat.le_add_right s.size 1) hle
    · cases h
      rw [size_goto, size_push]
      exact hle
  | single =>
    simp only [hmode] at h
    split at h
    · cases h
      exact Nat.le_trans (Nat.le_add_right s.size 1) hle
    · cases h
      rw [size_push]
      show s.size + 1 + s.credit ≤ _
      omega
  | double =>
    simp only [hmode] at h
    exact Nat.le_trans (doubleQuoted_size h) hle
  | doubleEscape =>
    have hcredit : s.credit = 1 := by
      unfold State.credit
      rw [hmode]
    simp only [hmode] at h
    split at h
    · cases h
      exact Nat.le_trans (Nat.le_add_right s.size 1) hle
    · split at h
      · cases h
        rw [size_goto, size_push]
        exact hle
      · cases h
        rw [size_goto, size_push, size_push, hcredit]
        exact Nat.le_refl _
  | dollar dq =>
    simp only [hmode] at h
    exact Nat.le_trans (afterDollar_size h) hle
  | name dq n =>
    have hcredit : s.credit = 1 := by
      unfold State.credit
      rw [hmode]
    simp only [hmode] at h
    split at h
    · cases h
      exact hle
    · have hvalue := size_expand_bare_le s dq n
      have hresume := resume_size h
      omega
  | brace dq n =>
    have hcredit : s.credit = 1 := by
      unfold State.credit
      rw [hmode]
    simp only [hmode] at h
    split at h
    · split at h
      · cases h
      · cases h
        have hvalue := size_expand_bare_le s dq n
        cases dq <;> exact Nat.le_trans hvalue hle
    · split at h
      · cases h
        exact hle
      · cases h
  | tilde n =>
    simp only [hmode] at h
    exact Nat.le_trans (afterTilde_size h) hle
  | comment =>
    simp only [hmode] at h
    split at h
    · exact Nat.le_trans (terminate_size h) hle
    · cases h
      exact Nat.le_add_right _ _
  | ended =>
    simp only [hmode] at h
    split at h
    · cases h
      exact Nat.le_add_right _ _
    · split at h
      · cases h
        exact Nat.le_trans (Nat.le_add_right s.size 1) hle
      · cases h

theorem count_flush_le (s : State) : count s.flush.done ≤ s.size + 1 :=
  Nat.le_trans (Nat.le_add_right _ _) (size_flush_le s)

/-- A whole string adds at most its length and one. -/
theorem count_le {s s' : State} {cs : List Char} {fs : List Field}
    (h : steps bare s cs = some s') (hfin : finish bare s' = some fs) :
    count fs ≤ s.size + s.credit + cs.length + 1 := by
  induction cs generalizing s with
  | nil =>
    obtain rfl : s = s' := Option.some.inj h
    have hflush := count_flush_le s
    rw [List.length_nil]
    unfold finish at hfin
    split at hfin
    · cases hfin
      omega
    next n hmode =>
      have hcredit : s.credit = 1 := by
        unfold State.credit
        rw [hmode]
      have hvalue := size_expand_bare_le s false n
      have hflush := count_flush_le (s.expand bare false n)
      cases hfin
      omega
    · cases hfin
    · cases hfin
      omega
    · cases hfin
      omega
    · cases hfin
  | cons c cs ih =>
    obtain ⟨mid, hstep, hrest⟩ := Option.bind_eq_some_iff.mp h
    have htail := ih hrest
    have hhead := step_size hstep
    rw [List.length_cons]
    omega

/-- A field of unquoted ordinary characters that begins with neither a number sign nor a tilde. -/
def Literal (f : Field) : Prop := ∃ w, Unspecial w ∧ f = literal w

/-- All fields are like that, finished or not. -/
def AllLiteral (s : State) : Prop := (∀ f ∈ s.done, Literal f) ∧ ∀ f ∈ s.cur, Literal f

theorem literal_snoc {f : Field} {c : Char} (h : Literal f) (hc : classOf c = .ordinary) :
    Literal (f ++ [(c, false)]) := by
  obtain ⟨w, ⟨ne, ordinary, hash, tilde⟩, rfl⟩ := h
  refine ⟨w ++ [c], ⟨by simp, ?_, ?_, ?_⟩, by simp [literal]⟩
  · intro d hd
    rcases List.mem_append.mp hd with hd | hd
    · exact ordinary d hd
    · rw [List.mem_singleton.mp hd]
      exact hc
  · rw [List.head?_append_of_ne_nil _ ne]
    exact hash
  · rw [List.head?_append_of_ne_nil _ ne]
    exact tilde

theorem allLiteral_flush {s : State} (h : AllLiteral s) : AllLiteral s.flush := by
  unfold State.flush
  split
  · exact h
  next f hcur =>
    refine ⟨fun g hg => ?_, fun g hg => (by cases hg)⟩
    rcases List.mem_append.mp hg with hg | hg
    · exact h.1 g hg
    · rw [List.mem_singleton.mp hg]
      exact h.2 f hcur

/-- The end of the command adds one only where it ends a field. -/
theorem terminate_allLiteral {s s' : State} (h : terminate s = some s') (all : AllLiteral s) :
    s'.mode = .ended ∧ AllLiteral s' := by
  unfold terminate at h
  split at h
  · cases h
  · cases h
    exact ⟨rfl, allLiteral_flush all⟩

/-- An unquoted character that adds one is a blank, a terminator, or means itself. -/
theorem unquoted_tight {s s' : State} {c : Char} (h : unquoted s c = some s') (all : AllLiteral s)
    (tight : s.size + 1 ≤ s'.size + s'.credit) :
    (s'.mode = .unquoted ∨ s'.mode = .ended) ∧ AllLiteral s' := by
  unfold unquoted at h
  split at h
  · cases h
    exact ⟨.inl rfl, allLiteral_flush all⟩
  · obtain ⟨hmode, hall⟩ := terminate_allLiteral h all
    exact ⟨.inr hmode, hall⟩
  · cases h
  · cases h
    exact absurd tight (Nat.not_succ_le_self _)
  · cases h
    exact absurd tight (Nat.not_succ_le_self _)
  · cases h
    exact absurd tight (Nat.not_succ_le_self _)
  · cases h
    exact absurd tight (Nat.not_succ_le_self _)
  next hc =>
    split at h
    · cases h
      exact absurd tight (Nat.not_succ_le_self _)
    next hash =>
      split at h
      · cases h
        exact absurd tight (Nat.not_succ_le_self _)
      next tilde =>
        cases h
        refine ⟨.inl rfl, all.1, fun f hf => ?_⟩
        obtain rfl : s.cur.getD [] ++ [(c, false)] = f := Option.some.inj hf
        cases hcur : s.cur with
        | none =>
          refine ⟨[c], ⟨by simp, ?_, ?_, ?_⟩, rfl⟩
          · intro d hd
            rw [List.mem_singleton.mp hd]
            exact hc
          · intro heq
            exact hash ⟨hcur, Option.some.inj heq⟩
          · intro heq
            exact tilde ⟨hcur, Option.some.inj heq⟩
        | some f => exact literal_snoc (all.2 f hcur) hc

/-- After the command nothing adds one. -/
theorem ended_not_tight {s s' : State} {c : Char} (hmode : s.mode = .ended)
    (h : step bare s c = some s') :
    s'.size + s'.credit = s.size := by
  have hcredit : s.credit = 0 := by
    unfold State.credit
    rw [hmode]
  unfold step at h
  simp only [hmode] at h
  split at h
  · cases h
    rw [hcredit, Nat.add_zero]
  · split at h
    · cases h
      rfl
    · cases h

/-- When every character adds one, nothing but words that mean themselves comes out. -/
theorem literal_of_tight {s s' : State} {cs : List Char} {fs : List Field}
    (hmode : s.mode = .unquoted ∨ s.mode = .ended) (h : steps bare s cs = some s')
    (hfin : finish bare s' = some fs)
    (all : AllLiteral s) (tight : count fs = s.size + cs.length + 1) : ∀ f ∈ fs, Literal f := by
  induction cs generalizing s with
  | nil =>
    cases h
    unfold finish at hfin
    rcases hmode with hmode | hmode
    · rw [hmode] at hfin
      cases hfin
      exact (allLiteral_flush all).1
    · rw [hmode] at hfin
      cases hfin
      exact (allLiteral_flush all).1
  | cons c cs ih =>
    obtain ⟨mid, hstep, hrest⟩ := Option.bind_eq_some_iff.mp h
    have hle := count_le hrest hfin
    rw [List.length_cons] at tight
    rcases hmode with hmode | hmode
    · have hunquoted : unquoted s c = some mid := by
        unfold step at hstep
        rw [hmode] at hstep
        exact hstep
      obtain ⟨hmid, hall⟩ := unquoted_tight hunquoted all (by omega)
      have hcount := unquoted_size hunquoted
      have hcredit : mid.credit = 0 := by
        unfold State.credit
        rcases hmid with hmid | hmid <;> rw [hmid]
      exact ih hmid hrest hall (by omega)
    · have hsame := ended_not_tight hmode hstep
      omega

/-- A device without files. -/
def noFiles : Files where
  names _ := []
  exists_ _ := false
  isName := by
    intro p n hn
    cases hn
  nodup _ := List.nodup_nil

theorem expandFrom_noFiles (p : List Char) (fs : List Field) : expandFrom noFiles p fs = [] := by
  induction fs generalizing p with
  | nil => rfl
  | cons f fs ih =>
    cases fs with
    | nil =>
      unfold expandFrom
      split <;> rfl
    | cons f' fs =>
      unfold expandFrom
      split
      · exact ih _
      · rfl

/-- With no files every word stays as it is. -/
theorem globbed_noFiles (f : Field) : globbed noFiles f = [text f] := by
  unfold globbed pathnames
  rw [expandFrom_noFiles, List.insertionSort_nil]

/-- The length of the joined words. -/
theorem length_join {ws : List (List Char)} (ne : ws ≠ []) :
    (join ws).length + 1 = (ws.map List.length).sum + ws.length := by
  induction ws with
  | nil => exact absurd rfl ne
  | cons w ws ih =>
    cases ws with
    | nil => simp [join]
    | cons v vs =>
      have := ih (by simp)
      simp only [join, List.length_append, List.length_cons, List.map_cons, List.sum_cons] at this ⊢
      omega

/-- The words of a command are what its fields become. -/
theorem fields_of_simpleCommand {env : Env} {files : Files} {cs : List Char} {ws : List (List Char)}
    (h : simpleCommand env files cs = some ws) :
    ∃ fs, fields env cs = some fs ∧ fs.flatMap (globbed files) = ws := by
  obtain ⟨fs, hfields, hwords⟩ := Option.bind_eq_some_iff.mp h
  refine ⟨fs, hfields, ?_⟩
  split at hwords
  · cases hwords
  · exact Option.some.inj hwords

theorem count_eq (fs : List Field) :
    count fs = ((fs.map text).map List.length).sum + (fs.map text).length := by
  induction fs with
  | nil => rfl
  | cons f fs ih =>
    have hcons : count (f :: fs) = f.length + 1 + count fs := List.sum_cons
    have htext : (text f).length = f.length := List.length_map _
    rw [hcons, ih, List.map_cons, List.map_cons, List.sum_cons, List.length_cons, htext]
    omega

/-- Words that come back in the bare environment and without files have no special characters. -/
theorem unspecial_of_bare {ws : List (List Char)} (ne : ws ≠ [])
    (h : simpleCommand bare noFiles (join ws) = some ws) : ∀ w ∈ ws, Unspecial w := by
  obtain ⟨fs, hfields, hwords⟩ := fields_of_simpleCommand h
  have htexts : fs.map text = ws := by
    rw [← hwords, List.flatMap_congr fun f _ => globbed_noFiles f]
    exact List.map_eq_flatMap
  obtain ⟨s', hsteps, hfin⟩ := Option.bind_eq_some_iff.mp hfields
  have hcount : count fs = State.size .start + (join ws).length + 1 := by
    have hlen := length_join ne
    have hstart : State.size .start = 0 := rfl
    rw [count_eq, htexts]
    omega
  have hliteral := literal_of_tight (.inl rfl) hsteps hfin
    ⟨fun f hf => (by cases hf), fun f hf => (by cases hf)⟩ hcount
  intro w hw
  rw [← htexts] at hw
  obtain ⟨f, hf, rfl⟩ := List.mem_map.mp hw
  obtain ⟨w, unspecial, rfl⟩ := hliteral f hf
  rw [text_literal]
  exact unspecial

/-- When as many words come back as fields went in, each field became its own word. -/
theorem eq_of_flatMap {α β : Type} {f : α → List β} {g : α → β} (hf : ∀ a, f a ≠ []) {l : List α}
    (h : l.flatMap f = l.map g) : ∀ a ∈ l, f a = [g a] := by
  induction l with
  | nil =>
    intro a ha
    cases ha
  | cons b l ih =>
    have hlength : l.length ≤ (l.flatMap f).length := by
      rw [List.length_flatMap]
      clear h ih
      induction l with
      | nil => exact Nat.le_refl _
      | cons c l ih =>
        have hpos := List.length_pos_of_ne_nil (hf c)
        rw [List.map_cons, List.sum_cons, List.length_cons]
        omega
    rw [List.flatMap_cons, List.map_cons] at h
    obtain ⟨x, xs, hb⟩ := List.exists_cons_of_ne_nil (hf b)
    rw [hb, List.cons_append] at h
    obtain ⟨rfl, hrest⟩ := List.cons.inj h
    have hnil : xs = [] := by
      have hlen := congrArg List.length hrest
      rw [List.length_append, List.length_map] at hlen
      exact List.eq_nil_of_length_eq_zero (by omega)
    subst hnil
    intro a ha
    rcases List.mem_cons.mp ha with rfl | ha
    · exact hb
    · exact ih hrest a ha

/-- **The joined words come back in every environment and whatever files there are exactly when each
of them is plain.** -/
theorem simpleCommand_join_iff {cs : List Char} {ws : List (List Char)} :
    (∀ env files, simpleCommand env files (join (('/' :: cs) :: ws)) = some (('/' :: cs) :: ws)) ↔
      ∀ w ∈ ('/' :: cs) :: ws, Plain w := by
  constructor
  · intro h w hw
    have unspecial := unspecial_of_bare (List.cons_ne_nil _ _) (h bare noFiles)
    refine ⟨unspecial w hw, (globbed_iff_fixed (literal w)).mp fun files => ?_⟩
    obtain ⟨fs, hfields, hwords⟩ := fields_of_simpleCommand (h bare files)
    rw [fields_join bare unspecial] at hfields
    obtain rfl := Option.some.inj hfields
    have hmap : ((('/' :: cs) :: ws).map literal).map text = ('/' :: cs) :: ws := by
      rw [List.map_map]
      exact (List.map_congr_left fun w _ => text_literal w).trans (List.map_id _)
    exact eq_of_flatMap (globbed_ne_nil files) (hwords.trans hmap.symm) _ (List.mem_map_of_mem hw)
  · intro h env files
    exact simpleCommand_join env files (command_of_slash cs) h

end WinEmulator.Lib.Sh
