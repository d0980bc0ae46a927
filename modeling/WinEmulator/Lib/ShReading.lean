import Mathlib.Data.List.Basic
import WinEmulator.Lib.ShWords

/-!
# What a shell reads without its environment

A text at the end of a command is read the same way in every environment, or the value of some
parameter gets into the fields. To tell, one environment is enough: one in which every parameter is
a slash and a long name, and no home directory is known (`fields_of_marking`). A field that got such
a value matches pathnames with a long last component only (`globbed_marked`).
-/

set_option autoImplicit false

namespace WinEmulator.Lib.Sh

open State

/-! ## Fields while they are read -/

/-- The fields, finished or not. -/
def State.all (s : State) : List Field := s.done ++ s.cur.toList

/-- A property of the fields that no character but a slash takes away. -/
structure Kept (Q : List Field → Prop) : Prop where
  fresh : ∀ fs, Q fs → Q (fs ++ [[]])
  more : ∀ fs f p, p.1 ≠ '/' → Q (fs ++ [f]) → Q (fs ++ [f ++ [p]])

@[simp] theorem all_goto (s : State) (m : Mode) : (s.goto m).all = s.all := rfl

@[simp] theorem all_flush (s : State) : s.flush.all = s.all := by
  unfold State.flush
  split
  · rfl
  next f hcur =>
    show s.done ++ [f] ++ [] = s.done ++ s.cur.toList
    rw [hcur, List.append_nil]
    rfl

/-- Nothing is left unfinished. -/
theorem done_flush (s : State) : s.flush.done = s.all := by
  unfold State.flush State.all
  cases s.cur with
  | none => exact (List.append_nil _).symm
  | some f => rfl

theorem kept_terminate {Q : List Field → Prop} {s s' : State} (h : terminate s = some s')
    (hs : Q s.all) : Q s'.all := by
  unfold terminate at h
  split at h
  · cases h
  · cases h
    rw [all_goto, all_flush]
    exact hs

section Kept

variable {Q : List Field → Prop} (hQ : Kept Q) {s s' : State} {c : Char}
include hQ

theorem kept_openField (h : Q s.all) : Q s.openField.all := by
  unfold State.openField State.all at *
  cases hcur : s.cur with
  | none =>
    rw [hcur, Option.toList_none, List.append_nil] at h
    exact hQ.fresh _ h
  | some f =>
    rw [hcur] at h
    exact h

theorem kept_push (hc : c ≠ '/') (q : Bool) (h : Q s.all) : Q (s.push c q).all := by
  unfold State.push State.all at *
  cases hcur : s.cur with
  | none =>
    rw [hcur, Option.toList_none, List.append_nil] at h
    exact hQ.more _ [] (c, q) hc (hQ.fresh _ h)
  | some f =>
    rw [hcur] at h
    exact hQ.more _ f (c, q) hc h

/-- A character outside quotes keeps what every step of the reader keeps. -/
theorem kept_unquoted (hc : c ≠ '/') (h : unquoted s c = some s') (hs : Q s.all) : Q s'.all := by
  unfold unquoted at h
  split at h
  · cases h
    rw [all_goto, all_flush]
    exact hs
  · exact kept_terminate h hs
  · cases h
  · cases h
    exact kept_openField (s := s) hQ hs
  · cases h
    exact kept_openField (s := s) hQ hs
  · cases h
    exact hs
  · cases h
    exact hs
  · split at h
    · cases h
      exact hs
    · split at h
      · cases h
        exact hs
      · cases h
        exact kept_push hQ hc false hs

/-- So does a character within double quotes. -/
theorem kept_doubleQuoted (hc : c ≠ '/') (h : doubleQuoted s c = some s') (hs : Q s.all) :
    Q s'.all := by
  unfold doubleQuoted at h
  split at h
  · cases h
    exact hs
  · split at h
    · cases h
      exact hs
    · split at h
      · cases h
        exact hs
      · split at h
        · cases h
        · cases h
          exact kept_push hQ hc true hs

/-- A value without a slash. -/
theorem kept_put {dq : Bool} {v : List Char} (hv : '/' ∉ v) (hs : Q s.all) :
    Q (v.foldl (put dq) s).all := by
  induction v generalizing s with
  | nil => exact hs
  | cons c v ih =>
    obtain ⟨hc, hrest⟩ := List.ne_and_not_mem_of_not_mem_cons hv
    refine ih hrest ?_
    unfold put
    split
    · rw [all_flush]
      exact hs
    · exact kept_push hQ hc.symm dq hs

theorem kept_resume {dq : Bool} (hc : c ≠ '/') (h : resume dq s c = some s') (hs : Q s.all) :
    Q s'.all := by
  unfold resume at h
  split at h
  · exact kept_doubleQuoted hQ hc h hs
  · exact kept_unquoted hQ hc h hs

end Kept

/-! ## A value that shows -/

/-- A slash and a long name. -/
def marker (n : Nat) : List Char := '/' :: List.replicate n 'x'

/-- Every parameter has that value, and no home directory is known. -/
def marking (n : Nat) : Env := ⟨fun _ => some (marker n), fun _ => none⟩

/-- The last slash of the field is that of a value. -/
def Marked (n : Nat) (f : Field) : Prop :=
  ∃ a q b, f = a ++ (marker n).map (·, q) ++ b ∧ ∀ p ∈ b, p.1 ≠ '/'

def AnyMarked (n : Nat) (fs : List Field) : Prop := ∃ f ∈ fs, Marked n f

theorem kept_anyMarked (n : Nat) : Kept (AnyMarked n) where
  fresh := by
    rintro fs ⟨f, hf, hmarked⟩
    exact ⟨f, List.mem_append_left _ hf, hmarked⟩
  more := by
    rintro fs g p hp ⟨f, hf, hmarked⟩
    rcases List.mem_append.mp hf with hf | hf
    · exact ⟨f, List.mem_append_left _ hf, hmarked⟩
    · obtain rfl := List.mem_singleton.mp hf
      obtain ⟨a, q, b, rfl, hb⟩ := hmarked
      refine ⟨_, List.mem_append_right _ (List.mem_singleton.mpr rfl), a, q, b ++ [p], ?_, ?_⟩
      · rw [List.append_assoc]
      · intro q hq
        rcases List.mem_append.mp hq with hq | hq
        · exact hb q hq
        · rw [List.mem_singleton.mp hq]
          exact hp

/-- The value of a parameter is the same everywhere, or what the environment says. -/
theorem value_cases (n : List Char) :
    (∃ v, '/' ∉ v ∧ ∀ env : Env, env.value n = v) ∨ ∀ env :
    Env, env.value n = (env.param n).getD [] := by
  unfold Env.value
  split
  · exact .inl ⟨['0'], by decide, fun _ => rfl⟩
  · split
    · exact .inl ⟨[], List.not_mem_nil, fun _ => rfl⟩
    · exact .inr fun _ => rfl

/-- That value is left in the field that is read. -/
theorem anyMarked_put (n : Nat) (s : State) (dq : Bool) :
    AnyMarked n ((marker n).foldl (put dq) s).all := by
  have hput : ∀ c : Char, c = '/' ∨ c = 'x' → ∀ t, put dq t c = t.push c dq := by
    rintro c (rfl | rfl) t <;> cases dq <;> rfl
  have hrest : ∀ (k : Nat) (t : State) (f : Field), t.cur = some f →
      ((List.replicate k 'x').foldl (put dq) t).all =
          t.done ++ [f ++ (List.replicate k 'x').map (·, dq)] := by
    intro k
    induction k with
    | zero =>
      intro t f ht
      show t.done ++ t.cur.toList = _
      rw [ht, List.replicate_zero, List.map_nil, List.append_nil]
      rfl
    | succ k ih =>
      intro t f ht
      have hpush : (t.push 'x' dq).cur = some (f ++ [('x', dq)]) := by
        unfold State.push
        rw [ht]
        rfl
      rw [List.replicate_succ, List.foldl_cons, hput 'x' (.inr rfl), ih _ _ hpush, List.map_cons,
        List.append_assoc]
      rfl
  have hall : ((marker n).foldl (put dq) s).all
      = s.done ++ [s.cur.getD [] ++ [('/', dq)] ++ (List.replicate n 'x').map (·, dq)] := by
    rw [marker, List.foldl_cons, hput '/' (.inl rfl)]
    exact hrest n (s.push '/' dq) _ rfl
  rw [hall]
  refine ⟨_, List.mem_append_right _ (List.mem_singleton.mpr rfl), s.cur.getD [], dq, [], ?_, ?_⟩
  · rw [List.append_nil, List.append_assoc]
    rfl
  · intro p hp
    cases hp

/-- A parameter is read the same way everywhere, unless its value shows. -/
theorem expand_marking {Q : List Field → Prop} (hQ : Kept Q) (n : Nat) (s : State) (dq : Bool)
    (m : List Char) :
    AnyMarked n (s.expand (marking n) dq m).all ∨
      (∀ env, s.expand env dq m = s.expand (marking n) dq m) ∧
        (Q s.all → Q (s.expand (marking n) dq m).all) := by
  unfold State.expand
  rcases value_cases m with ⟨v, hv, hsame⟩ | hparam
  · refine .inr ⟨fun env => by rw [hsame, hsame], ?_⟩
    rw [hsame]
    exact kept_put hQ hv
  · rw [hparam]
    exact .inl (anyMarked_put n s dq)

/-- After a dollar the mark shows, or every environment goes on alike. -/
theorem afterDollar_marking {Q : List Field → Prop} (hQ : Kept Q) {n : Nat} {dq : Bool}
    {s s' : State} {c : Char} (h : afterDollar (marking n) dq s c = some s') :
    AnyMarked n s'.all ∨ (∀ env, afterDollar env dq s c = some s') ∧ (Q s.all → Q s'.all) := by
  unfold afterDollar at h ⊢
  split at h
  next hstart =>
    cases h
    exact .inr ⟨fun _ => if_pos hstart, id⟩
  next hstart =>
    split at h
    next hspecial =>
      cases h
      rcases expand_marking hQ n s dq [c] with hmarked | ⟨hsame, hkept⟩
      · exact .inl hmarked
      · exact .inr ⟨fun env => by rw [if_neg hstart, if_pos hspecial, hsame env], hkept⟩
    next hspecial =>
      split at h
      next hbrace =>
        cases h
        exact .inr ⟨fun _ => by rw [if_neg hstart, if_neg hspecial, if_pos hbrace], id⟩
      · cases h

/-- A character is read the same way everywhere, unless a value shows. -/
theorem step_marking {Q : List Field → Prop} (hQ : Kept Q) {n : Nat} {s s' : State} {c : Char}
    (hc : c ≠ '/')
    (h : step (marking n) s c = some s') :
    AnyMarked n s'.all ∨ (∀ env, step env s c = some s') ∧ (Q s.all → Q s'.all) := by
  unfold step at h ⊢
  cases hmode : s.mode with
  | unquoted =>
    simp only [hmode] at h ⊢
    exact .inr ⟨fun _ => h, kept_unquoted hQ hc h⟩
  | escape =>
    simp only [hmode] at h ⊢
    refine .inr ⟨fun _ => h, fun hs => ?_⟩
    split at h
    · cases h
      exact hs
    · cases h
      exact kept_push hQ hc true hs
  | single =>
    simp only [hmode] at h ⊢
    refine .inr ⟨fun _ => h, fun hs => ?_⟩
    split at h
    · cases h
      exact hs
    · cases h
      exact kept_push hQ hc true hs
  | double =>
    simp only [hmode] at h ⊢
    exact .inr ⟨fun _ => h, kept_doubleQuoted hQ hc h⟩
  | doubleEscape =>
    simp only [hmode] at h ⊢
    have hback : backslash ≠ '/' := by decide
    refine .inr ⟨fun _ => h, fun hs => ?_⟩
    split at h
    · cases h
      exact hs
    · split at h
      · cases h
        exact kept_push hQ hc true hs
      · cases h
        exact kept_push hQ hc true (kept_push hQ hback true hs)
  | dollar dq =>
    simp only [hmode] at h ⊢
    exact afterDollar_marking hQ h
  | name dq m =>
    simp only [hmode] at h ⊢
    split at h
    next hname =>
      cases h
      exact .inr ⟨fun _ => if_pos hname, id⟩
    next hname =>
      rcases expand_marking hQ n s dq m with hmarked | ⟨hsame, hkept⟩
      · exact .inl (kept_resume (kept_anyMarked n) hc h hmarked)
      · refine .inr ⟨fun env => ?_, fun hs => kept_resume hQ hc h (hkept hs)⟩
        rw [if_neg hname, hsame env]
        exact h
  | brace dq m =>
    simp only [hmode] at h ⊢
    split at h
    next hclose =>
      split at h
      · cases h
      next hname =>
        cases h
        rcases expand_marking hQ n s dq m with hmarked | ⟨hsame, hkept⟩
        · exact .inl hmarked
        · exact .inr ⟨fun env => by rw [if_pos hclose, if_neg hname, hsame env], hkept⟩
    next hclose =>
      split at h
      next hname =>
        cases h
        exact .inr ⟨fun _ => by rw [if_neg hclose, if_pos hname], id⟩
      · cases h
  | tilde m =>
    simp only [hmode] at h ⊢
    unfold afterTilde at h ⊢
    rw [if_neg hc] at h
    simp only [if_neg hc]
    split at h
    · cases h
    next hclass =>
      cases h
      exact .inr ⟨fun _ => rfl, id⟩
    · cases h
  | comment =>
    simp only [hmode] at h ⊢
    refine .inr ⟨fun _ => h, fun hs => ?_⟩
    split at h
    · exact kept_terminate h hs
    · cases h
      exact hs
  | ended =>
    simp only [hmode] at h ⊢
    refine .inr ⟨fun _ => h, fun hs => ?_⟩
    split at h
    · cases h
      exact hs
    · split at h
      · cases h
        exact hs
      · cases h

/-- So is a text without a slash. -/
theorem steps_marking {Q : List Field → Prop} (hQ : Kept Q) {n : Nat} {s s' : State}
    {cs : List Char}
    (hcs : '/' ∉ cs) (h : steps (marking n) s cs = some s') :
    AnyMarked n s'.all ∨ (∀ env, steps env s cs = some s') ∧ (Q s.all → Q s'.all) := by
  induction cs generalizing s with
  | nil =>
    cases h
    exact .inr ⟨fun _ => rfl, id⟩
  | cons c cs ih =>
    obtain ⟨hc, hrest⟩ := List.ne_and_not_mem_of_not_mem_cons hcs
    obtain ⟨mid, hstep, hsteps⟩ := Option.bind_eq_some_iff.mp h
    rcases step_marking hQ hc.symm hstep with hmarked | ⟨hsame, hkept⟩
    · -- a value that shows once is there to stay
      refine .inl ?_
      clear h hstep ih hcs
      induction cs generalizing mid with
      | nil =>
        cases hsteps
        exact hmarked
      | cons d ds ih =>
        obtain ⟨hd, hrest⟩ := List.ne_and_not_mem_of_not_mem_cons hrest
        obtain ⟨mid', hstep, hsteps⟩ := Option.bind_eq_some_iff.mp hsteps
        have hmarked' : AnyMarked n mid'.all := by
          rcases step_marking (kept_anyMarked n) hd.symm hstep with hmarked' | ⟨-, hkept⟩
          · exact hmarked'
          · exact hkept hmarked
        exact ih hrest mid' hsteps hmarked'
    · rcases ih hrest hsteps with hmarked | ⟨hsame', hkept'⟩
      · exact .inl hmarked
      · refine .inr ⟨fun env => ?_, fun hs => hkept' (hkept hs)⟩
        show (step env s c).bind _ = _
        rw [hsame env, Option.bind_some]
        exact hsame' env

/-- A line that does not show the mark is read the same in every environment. -/
theorem finish_marking {Q : List Field → Prop} (hQ : Kept Q) {n : Nat} {s : State} {fs : List Field}
    (h : finish (marking n) s = some fs) :
    AnyMarked n fs ∨ (∀ env, finish env s = some fs) ∧ (Q s.all → Q fs) := by
  unfold finish at h ⊢
  split at h
  · cases h
    exact .inr ⟨fun _ => rfl, fun hs => by rwa [done_flush]⟩
  next m _ =>
    cases h
    rw [done_flush]
    rcases expand_marking hQ n s false m with hmarked | ⟨hsame, hkept⟩
    · exact .inl hmarked
    · refine .inr ⟨fun env => ?_, hkept⟩
      show some (s.expand env false m).flush.done = _
      rw [hsame env, done_flush]
  · cases h
  · cases h
    exact .inr ⟨fun _ => rfl, fun hs => by rwa [done_flush]⟩
  · cases h
    exact .inr ⟨fun _ => rfl, fun hs => by rwa [done_flush]⟩
  · cases h

/-- A value that shows once is there to stay. -/
theorem finish_anyMarked {n : Nat} {s : State} {fs : List Field}
    (h : finish (marking n) s = some fs)
    (hs : AnyMarked n s.all) : AnyMarked n fs := by
  rcases finish_marking (kept_anyMarked n) h with hmarked | ⟨-, hkept⟩
  · exact hmarked
  · exact hkept hs

/-! ## The rest of a word -/

/-- Words, each with a space after it. -/
def spaced (ws : List (List Char)) : List Char := ws.flatMap fun w => w ++ [' ']

/-- Words without special characters are read as they are. -/
theorem steps_spaced (env : Env) (done : List Field) {ws : List (List Char)}
    (h : ∀ w ∈ ws, Unspecial w) :
    steps env ⟨.unquoted, done, none⟩ (spaced ws) =
      some ⟨.unquoted, done ++ ws.map literal, none⟩ := by
  induction ws generalizing done with
  | nil =>
    rw [List.map_nil, List.append_nil]
    rfl
  | cons w ws ih =>
    have hblank : steps env ⟨.unquoted, done, some (literal w)⟩ [' ']
        = some ⟨.unquoted, done ++ [literal w], none⟩ := rfl
    show steps env _ ((w ++ [' ']) ++ spaced ws) = _
    rw [steps_append, steps_append, steps_unspecial env done (h w List.mem_cons_self),
      Option.bind_some,
      hblank, Option.bind_some, ih _ fun u hu => h u (List.mem_cons_of_mem _ hu), List.map_cons,
      List.append_assoc, List.singleton_append]

/-- The fields begin with some words and the beginning of one more, which goes on without a
slash. -/
def Begins (ws : List Field) (w : Field) (fs : List Field) : Prop :=
  ∃ g rest, fs = ws ++ (w ++ g) :: rest ∧ ∀ p ∈ g, p.1 ≠ '/'

theorem kept_begins (ws : List Field) (w : Field) : Kept (Begins ws w) where
  fresh := by
    rintro fs ⟨g, rest, rfl, hg⟩
    exact ⟨g, rest ++ [[]], by rw [List.append_assoc, List.cons_append], hg⟩
  more := by
    rintro fs f p hp ⟨g, rest, heq, hg⟩
    rcases List.eq_nil_or_concat' rest with rfl | ⟨rest, last, rfl⟩
    · obtain ⟨rfl, hf⟩ := List.append_inj' heq rfl
      obtain rfl := (List.cons.inj hf).1
      refine ⟨g ++ [p], [], by rw [List.append_assoc], ?_⟩
      intro q hq
      rcases List.mem_append.mp hq with hq | hq
      · exact hg q hq
      · rw [List.mem_singleton.mp hq]
        exact hp
    · rw [← List.cons_append, ← List.append_assoc] at heq
      obtain ⟨rfl, hf⟩ := List.append_inj' heq rfl
      obtain rfl := (List.cons.inj hf).1
      exact ⟨g, rest ++ [f ++ [p]], by rw [List.append_assoc, List.cons_append], hg⟩

/-- **What follows the beginning of a word is read the same way everywhere**, unless a value
shows. -/
theorem fields_of_marking {ws : List (List Char)} {w r : List Char} {n : Nat} {fs : List Field}
    (hws : ∀ u ∈ ws, Unspecial u) (hw : Unspecial w) (hr : '/' ∉ r)
    (h : fields (marking n) (spaced ws ++ (w ++ r)) = some fs) :
    AnyMarked n fs ∨
      (∀ env, fields env (spaced ws ++ (w ++ r)) = some fs) ∧
        Begins (ws.map literal) (literal w) fs := by
  have hstart : ∀ env, fields env (spaced ws ++ (w ++ r))
      = (steps env ⟨.unquoted, ws.map literal, some (literal w)⟩ r).bind (finish env) := by
    intro env
    unfold fields
    rw [State.start, steps_append, steps_spaced env [] hws, Option.bind_some, steps_append,
      steps_unspecial env _ hw, Option.bind_some, List.nil_append]
  rw [hstart] at h
  obtain ⟨s, hsteps, hfin⟩ := Option.bind_eq_some_iff.mp h
  rcases steps_marking (kept_begins (ws.map literal) (literal w)) hr hsteps
    with hmarked | ⟨hsame, hkept⟩
  · exact .inl (finish_anyMarked hfin hmarked)
  · rcases finish_marking (kept_begins (ws.map literal) (literal w)) hfin
      with hmarked | ⟨hsame', hkept'⟩
    · exact .inl hmarked
    · have hbegins :
          Begins (ws.map literal) (literal w)
            (State.all ⟨.unquoted, ws.map literal, some (literal w)⟩) :=
        ⟨[], [], by rw [List.append_nil]; rfl, fun p hp => by cases hp⟩
      refine .inr ⟨fun env => ?_, hkept' (hkept hbegins)⟩
      rw [hstart, hsame env, Option.bind_some]
      exact hsame' env

/-! ## What a value matches -/

/-- A pattern that begins with so many characters matches no shorter name. -/
theorem length_of_accepts {n k : Nat} {q : Bool} {b : Field} {m : List Char}
    (hk : (List.replicate n ('x', q) ++ b).length ≤ k)
    (h : accepts (elemsWith k (List.replicate n ('x', q) ++ b)) m = true) : n ≤ m.length := by
  induction n generalizing k m with
  | zero => exact Nat.zero_le _
  | succ n ih =>
    rw [List.replicate_succ, List.cons_append] at hk h
    cases k with
    | zero => cases hk
    | succ k =>
      have hchar : elemsWith (k + 1) (('x', q) :: (List.replicate n ('x', q) ++ b))
          = .char 'x' :: elemsWith k (List.replicate n ('x', q) ++ b) := by
        rw [elemsWith, if_neg (by simp), if_neg (by simp), if_neg (by simp)]
      rw [hchar] at h
      cases m with
      | nil => cases h
      | cons d ds =>
        have htail : accepts (elemsWith k (List.replicate n ('x', q) ++ b)) ds = true :=
          (Bool.and_eq_true_iff.mp h).2
        exact Nat.succ_le_succ (ih (Nat.le_of_succ_le_succ hk) htail)

/-- The last component of an expansion comes from the last field. -/
theorem expands_concat {fs : List Field} {f : Field} {t : List Char} (ne : fs ≠ [])
    (h : Expands (fs ++ [f]) t) :
    ∃ u m, t = u ++ '/' :: m ∧ Becomes f m := by
  induction fs generalizing t with
  | nil => exact absurd rfl ne
  | cons g fs ih =>
    cases fs with
    | nil =>
      cases h with
      | @more _ _ _ n t _ hrest =>
        cases hrest with
        | last hf => exact ⟨n, t, rfl, hf⟩
    | cons g' fs =>
      cases h with
      | @more _ _ _ n t _ hrest =>
        obtain ⟨u, m, rfl, hm⟩ := ih (List.cons_ne_nil _ _) hrest
        exact ⟨n ++ '/' :: u, m, by rw [List.append_assoc, List.cons_append], hm⟩

/-- **The pathnames of a field with a value in it have a long last component.** -/
theorem globbed_marked {files : Files} {n : Nat} {f : Field} {o : List Char} (h : Marked n f)
    (ho : o ∈ globbed files f) : ∃ u m, o = u ++ '/' :: m ∧ '/' ∉ m ∧ n ≤ m.length := by
  obtain ⟨a, q, b, rfl, hb⟩ := h
  have hlast : ∀ p ∈ List.replicate n ('x', q) ++ b, p.1 ≠ '/' := by
    intro p hp
    rcases List.mem_append.mp hp with hp | hp
    · rw [List.eq_of_mem_replicate hp]
      show 'x' ≠ '/'
      decide
    · exact hb p hp
  have htext : '/' ∉ text (List.replicate n ('x', q) ++ b) := by
    intro hmem
    obtain ⟨p, hp, heq⟩ := List.mem_map.mp hmem
    exact hlast p hp heq
  have hlength : n ≤ (text (List.replicate n ('x', q) ++ b)).length := by
    rw [text, List.length_map, List.length_append, List.length_replicate]
    exact Nat.le_add_right _ _
  have hform :
      a ++ (marker n).map (·, q) ++ b = a ++ ('/', q) :: (List.replicate n ('x', q) ++ b) := by
    rw [marker, List.map_cons, List.map_replicate, List.append_assoc, List.cons_append]
  have hcomponents : components (a ++ (marker n).map (·, q) ++ b)
      = components a ++ [List.replicate n ('x', q) ++ b] := by
    rw [hform]
    unfold components
    rw [List.splitOnP_append_cons _ _ (by rfl),
      List.splitOnP_eq_singleton fun p hp => decide_eq_false (hlast p hp)]
  unfold globbed at ho
  split at ho
  · rw [List.mem_singleton.mp ho, hform, text_append]
    exact ⟨_, _, rfl, htext, hlength⟩
  next names hnames =>
    have ht := expands_of_mem_pathnames ho
    rw [hcomponents] at ht
    obtain ⟨u, m, rfl, hm⟩ := expands_concat (List.splitOnP_ne_nil _ _) ht
    refine ⟨u, m, rfl, ?_⟩
    unfold Becomes at hm
    split at hm
    · rw [hm]
      exact ⟨htext, hlength⟩
    · exact ⟨hm.1.2.2.2, length_of_accepts (Nat.le_refl _) (Bool.and_eq_true_iff.mp hm.2).2⟩

end WinEmulator.Lib.Sh
