import Mathlib.Logic.Basic

/-!
# Runs of a machine

A machine is a function that says what an action makes of a state, or that the action is not
possible there. A run is a list of actions. Interleavings are runs too: the actions of all parties
are one type, and a scheduler is the list.

`run_induction` is the one induction every law about all runs goes through. Its step may use a
condition on the state before each action, for laws that hold of the runs whose steps all meet it;
`Meets` is that condition over a whole run.
-/

set_option autoImplicit false

namespace WinEmulator.Lib

variable {State Action : Type} (step : State → Action → Option State)

/-- The state after a list of actions, if each was possible in its turn. -/
def run : State → List Action → Option State
  | s, [] => some s
  | s, a :: as => (step s a).bind fun s' => run s' as

/-- Every action of the run meets `ok` in the state it is taken in. -/
def Meets (ok : State → Action → Prop) : State → List Action → Prop
  | _, [] => True
  | s, a :: as => ok s a ∧ ∀ s', step s a = some s' → Meets ok s' as

variable {step}

/-- A run's first action and the run after it. -/
theorem run_cons {s s' : State} {a : Action} {as : List Action} :
    run step s (a :: as) = some s' ↔ ∃ mid, step s a = some mid ∧ run step mid as = some s' :=
  Option.bind_eq_some_iff

/-- A run through a list of actions and then another. -/
theorem exists_of_run_append {s s' : State} {as bs : List Action}
    (h : run step s (as ++ bs) = some s') :
    ∃ mid, run step s as = some mid ∧ run step mid bs = some s' := by
  induction as generalizing s with
  | nil => exact ⟨s, rfl, h⟩
  | cons a as ih =>
    obtain ⟨next, hstep, hrun⟩ := run_cons.mp h
    obtain ⟨mid, hmid, hrest⟩ := ih hrun
    exact ⟨mid, run_cons.mpr ⟨next, hstep, hmid⟩, hrest⟩

theorem run_append {s mid s' : State} {as bs : List Action} (has : run step s as = some mid)
    (hbs : run step mid bs = some s') : run step s (as ++ bs) = some s' := by
  induction as generalizing s with
  | nil => exact Option.some.inj has ▸ hbs
  | cons a as ih =>
    obtain ⟨next, hstep, hrun⟩ := run_cons.mp has
    exact run_cons.mpr ⟨next, hstep, ih hrun⟩

/-- What every step that meets `ok` preserves holds after every run whose steps all do. -/
theorem run_induction {ok : State → Action → Prop} {Inv : State → Prop}
    (preserved : ∀ {s s' a}, Inv s → ok s a → step s a = some s' → Inv s')
    {s s' : State} {as : List Action} (init : Inv s) (meets : Meets step ok s as)
    (h : run step s as = some s') : Inv s' := by
  induction as generalizing s with
  | nil =>
    cases h
    exact init
  | cons a as ih =>
    obtain ⟨mid, hstep, hrun⟩ := run_cons.mp h
    exact ih (preserved init meets.1 hstep) (meets.2 mid hstep) hrun

/-- What every step preserves holds after every run. -/
theorem run_invariant {Inv : State → Prop}
    (preserved : ∀ {s s' a}, Inv s → step s a = some s' → Inv s')
    {s s' : State} {as : List Action} (init : Inv s) (h : run step s as = some s') : Inv s' := by
  induction as generalizing s with
  | nil => exact Option.some.inj h ▸ init
  | cons a as ih =>
    obtain ⟨mid, hstep, hrun⟩ := run_cons.mp h
    exact ih (preserved init hstep) hrun

/-- A condition on actions alone. -/
theorem Meets.of_forall {ok : State → Action → Prop} {as : List Action} (h : ∀ a ∈ as, ∀ s, ok s a)
    (s : State) :
    Meets step ok s as := by
  induction as generalizing s with
  | nil => trivial
  | cons a as ih =>
    exact ⟨h a List.mem_cons_self s,
      fun s' _ => ih (fun b hb => h b (List.mem_cons_of_mem a hb)) s'⟩

/-- A condition that follows from another wherever an invariant holds follows from it over whole
runs. -/
theorem Meets.imp {ok ok' : State → Action → Prop} {Inv : State → Prop}
    (preserved : ∀ {s s' a}, Inv s → ok s a → step s a = some s' → Inv s')
    (follows : ∀ {s a}, Inv s → ok s a → ok' s a) {s : State} {as : List Action} (init : Inv s)
    (meets : Meets step ok s as) : Meets step ok' s as := by
  induction as generalizing s with
  | nil => trivial
  | cons a as ih =>
    exact ⟨follows init meets.1,
      fun s' hstep => ih (preserved init meets.1 hstep) (meets.2 s' hstep)⟩

/-- Two conditions that agree wherever an invariant holds and the action is possible agree over
whole runs. -/
theorem meets_iff {ok ok' : State → Action → Prop} {Inv : State → Prop}
    (preserved : ∀ {s s' a}, Inv s → step s a = some s' → Inv s')
    (agree : ∀ {s s' a}, Inv s → step s a = some s' → (ok s a ↔ ok' s a))
    {s s' : State} {as : List Action} (init : Inv s) (h : run step s as = some s') :
    Meets step ok s as ↔ Meets step ok' s as := by
  induction as generalizing s with
  | nil => exact Iff.rfl
  | cons a as ih =>
    obtain ⟨mid, hstep, hrun⟩ := run_cons.mp h
    have hrest := ih (preserved init hstep) hrun
    constructor
    · rintro ⟨hok, htail⟩
      refine ⟨(agree init hstep).mp hok, fun next hnext => ?_⟩
      obtain rfl := Option.some.inj (hstep.symm.trans hnext)
      exact hrest.mp (htail mid hstep)
    · rintro ⟨hok, htail⟩
      refine ⟨(agree init hstep).mpr hok, fun next hnext => ?_⟩
      obtain rfl := Option.some.inj (hstep.symm.trans hnext)
      exact hrest.mpr (htail mid hstep)

/-- What a step keeps exactly under a condition holds after a run exactly when it held before and
all its steps meet the condition. -/
theorem run_iff {ok : State → Action → Prop} {Inv P : State → Prop}
    (preserved : ∀ {s s' a}, Inv s → step s a = some s' → Inv s')
    (keeps : ∀ {s s' a}, Inv s → step s a = some s' → (P s' ↔ P s ∧ ok s a))
    {s s' : State} {as : List Action} (init : Inv s) (h : run step s as = some s') :
    P s' ↔ P s ∧ Meets step ok s as := by
  induction as generalizing s with
  | nil =>
    cases h
    exact (and_iff_left trivial).symm
  | cons a as ih =>
    obtain ⟨mid, hstep, hrun⟩ := run_cons.mp h
    rw [ih (preserved init hstep) hrun, keeps init hstep, and_assoc]
    refine and_congr_right fun _ => and_congr_right fun _ => ?_
    constructor
    · intro htail next hnext
      obtain rfl := Option.some.inj (hstep.symm.trans hnext)
      exact htail
    · exact fun htail => htail mid hstep

/-- What holds in every state that a run comes to, if it holds before and each step that meets a
condition, and no other step, keeps it. -/
theorem always_iff {ok : State → Action → Prop} {Inv P : State → Prop}
    (preserved : ∀ {s s' a}, Inv s → step s a = some s' → Inv s')
    (keeps : ∀ {s a}, Inv s → P s → (ok s a ↔ ∀ s', step s a = some s' → P s'))
    {s : State} (init : Inv s) (holds : P s) (as : List Action) :
    (∀ bs s', bs <+: as → run step s bs = some s' → P s') ↔ Meets step ok s as := by
  induction as generalizing s with
  | nil =>
    refine iff_of_true (fun bs s' hbs hrun => ?_) trivial
    obtain rfl := List.prefix_nil.mp hbs
    exact Option.some.inj hrun ▸ holds
  | cons a as ih =>
    constructor
    · intro halways
      have hnext : ∀ mid, step s a = some mid → P mid := fun mid hmid =>
        halways [a] mid (List.prefix_append [a] as) (run_cons.mpr ⟨mid, hmid, rfl⟩)
      refine ⟨(keeps init holds).mpr hnext,
        fun mid hmid => (ih (preserved init hmid) (hnext mid hmid)).mp ?_⟩
      exact fun bs s' hbs hrun =>
        halways (a :: bs) s' (List.cons_prefix_cons.mpr ⟨rfl, hbs⟩) (run_cons.mpr ⟨mid, hmid, hrun⟩)
    · rintro ⟨hok, hmeets⟩ bs s' hbs hrun
      cases bs with
      | nil => exact Option.some.inj hrun ▸ holds
      | cons b bs =>
        obtain ⟨rfl, hprefix⟩ := List.cons_prefix_cons.mp hbs
        obtain ⟨mid, hmid, hrest⟩ := run_cons.mp hrun
        have hnext := (keeps init holds).mp hok mid hmid
        exact (ih (preserved init hmid) hnext).mpr (hmeets mid hmid) bs s' hprefix hrest

/-- Two conditions that agree wherever an invariant holds agree over all runs, also over those that
end early. The steps that meet the second one need to preserve the invariant. -/
theorem meets_congr {ok ok' : State → Action → Prop} {Inv : State → Prop}
    (preserved : ∀ {s s' a}, Inv s → ok' s a → step s a = some s' → Inv s')
    (agree : ∀ {s a}, Inv s → (ok s a ↔ ok' s a)) {s : State} (init : Inv s) (as : List Action) :
    Meets step ok s as ↔ Meets step ok' s as := by
  induction as generalizing s with
  | nil => exact Iff.rfl
  | cons a as ih =>
    rw [Meets, Meets, agree init]
    refine and_congr_right fun hok => forall_congr' fun s' => ?_
    exact forall_congr' fun hstep => ih (preserved init hok hstep)

instance Meets.decidable {ok : State → Action → Prop} [∀ s a, Decidable (ok s a)] :
    ∀ s as, Decidable (Meets step ok s as)
  | _, [] => inferInstanceAs (Decidable True)
  | s, a :: as =>
    match hstep : step s a with
    | none =>
      decidable_of_iff (ok s a) ⟨fun h => ⟨h, fun _ h' => by cases hstep.symm.trans h'⟩, And.left⟩
    | some mid =>
      have : Decidable (Meets step ok mid as) := Meets.decidable mid as
      decidable_of_iff (ok s a ∧ Meets step ok mid as)
        ⟨fun h => ⟨h.1, fun _ h' => by cases hstep.symm.trans h'; exact h.2⟩,
          fun h => ⟨h.1, h.2 mid hstep⟩⟩

end WinEmulator.Lib
