import WinEmulator.Lib.Machine
import Mathlib.Logic.Function.Basic

/-!
# Calls that seem to happen at once

Threads call the operations of an object that they share. What is seen of a call is its beginning
and its result. In the atomic machine a call takes effect in one step between the two, and the
specification of the object says which results it may have and what becomes of the object. An
implementation is linearizable when all that is seen of any of its runs is also seen of a run of the
atomic machine.

`linearizable_of_abstraction` is the way to prove it: every step of the implementation either
changes nothing of the abstraction and is not seen, or is one step of the atomic machine.
-/

set_option autoImplicit false

namespace WinEmulator.Lib.AtomicCalls

variable {Thread Op Result Object : Type} [DecidableEq Thread]

/-- What is seen of a call. -/
inductive Event (Thread Op Result : Type)
  | call (t : Thread) (op : Op)
  | ret (t : Thread) (r : Result)

/-- How far a thread is with a call. -/
inductive Phase (Op Result : Type)
  | idle
  /-- The call has not taken effect. -/
  | called (op : Op)
  | done (r : Result)
deriving DecidableEq

structure State (Object Thread Op Result : Type) where
  object : Object
  phase : Thread → Phase Op Result

inductive Action (Thread Op Result : Type)
  | call (t : Thread) (op : Op)
  | effect (t : Thread) (r : Result)
  | ret (t : Thread) (r : Result)

def Action.event : Action Thread Op Result → Option (Event Thread Op Result)
  | .call t op => some (.call t op)
  | .effect _ _ => none
  | .ret t r => some (.ret t r)

/-- No call has begun. -/
def start (object : Object) : State Object Thread Op Result := ⟨object, fun _ => .idle⟩

variable [DecidableEq Result]

/-- The atomic machine. `spec` says what becomes of the object when an operation has a result, if it
may have it. -/
def step (spec : Object → Op → Result → Option Object) (s : State Object Thread Op Result) :
    Action Thread Op Result → Option (State Object Thread Op Result)
  | .call t op =>
    match s.phase t with
    | .idle => some { s with phase := Function.update s.phase t (.called op) }
    | _ => none
  | .effect t r =>
    match s.phase t with
    | .called op =>
      (spec s.object op r).map fun object => ⟨object, Function.update s.phase t (.done r)⟩
    | _ => none
  | .ret t r =>
    match s.phase t with
    | .done r' => if r = r' then some { s with phase := Function.update s.phase t .idle } else none
    | _ => none

variable {C A : Type}

/-- All that is seen of a run is seen of a run of the atomic machine. -/
def Linearizable (spec : Object → Op → Result → Option Object) (object : Object)
    (stepC : C → A → Option C)
    (event : A → Option (Event Thread Op Result)) (c : C) : Prop :=
  ∀ {actions : List A} {c' : C}, run stepC c actions = some c' →
    ∃ atomic s, run (step spec) (start object) atomic = some s ∧
      atomic.filterMap Action.event = actions.filterMap event

variable {spec : Object → Op → Result → Option Object} {stepC : C → A → Option C}
  {event : A → Option (Event Thread Op Result)}

/-- What a step of the implementation may be, as seen through an abstraction. -/
def Matches (spec : Object → Op → Result → Option Object)
    (event : A → Option (Event Thread Op Result))
    (s : State Object Thread Op Result) (a : A) (s' : State Object Thread Op Result) : Prop :=
  (event a = none ∧ s' = s) ∨ ∃ b, step spec s b = some s' ∧ b.event = event a

theorem exists_run_of_abstraction {Inv : C → Prop} {abs : C → State Object Thread Op Result}
    (preserved : ∀ {c c' a}, Inv c → stepC c a = some c' → Inv c')
    (simulates : ∀ {c c' a}, Inv c → stepC c a = some c' → Matches spec event (abs c) a (abs c'))
    {c c' : C} {actions : List A} (init : Inv c) (hrun : run stepC c actions = some c') :
    ∃ atomic, run (step spec) (abs c) atomic = some (abs c') ∧
      atomic.filterMap Action.event = actions.filterMap event := by
  induction actions generalizing c with
  | nil =>
    cases hrun
    exact ⟨[], rfl, rfl⟩
  | cons a actions ih =>
    obtain ⟨mid, hstep, hrest⟩ := run_cons.mp hrun
    obtain ⟨atomic, hatomic, hseen⟩ := ih (preserved init hstep) hrest
    obtain ⟨hnone, hsame⟩ | ⟨b, hb, hevent⟩ := simulates init hstep
    · exact ⟨atomic, hsame ▸ hatomic, by rw [hseen, List.filterMap_cons_none hnone]⟩
    · exact ⟨b :: atomic,
        run_cons.mpr
        ⟨_, hb, hatomic⟩, by rw [List.filterMap_cons, List.filterMap_cons, hseen, hevent]⟩

/-- **A simulation with an invariant gives linearizability.** -/
theorem linearizable_of_abstraction {Inv : C → Prop} {abs : C → State Object Thread Op Result}
    (preserved : ∀ {c c' a}, Inv c → stepC c a = some c' → Inv c')
    (simulates : ∀ {c c' a}, Inv c → stepC c a = some c' → Matches spec event (abs c) a (abs c'))
    {object : Object} {c : C} (init : Inv c) (hstart : abs c = start object) :
    Linearizable spec object stepC event c := by
  intro actions c' hrun
  obtain ⟨atomic, hatomic, hseen⟩ := exists_run_of_abstraction preserved simulates init hrun
  exact ⟨atomic, abs c', hstart ▸ hatomic, hseen⟩

/-! ## Steps of the atomic machine -/

variable {object object' : Object} {phase : Thread → Phase Op Result} {a : A} {t : Thread} {op : Op}
  {r : Result}

/-- A call is matched by the object's own call. -/
theorem Matches.call (hevent : event a = some (.call t op)) (h : phase t = .idle) :
    Matches spec event ⟨object, phase⟩ a ⟨object, Function.update phase t (.called op)⟩ :=
  .inr ⟨.call t op, by simp only [step, h], hevent.symm⟩

/-- The step that takes effect is matched by the operation. -/
theorem Matches.effect (hevent : event a = none) (h : phase t = .called op)
    (hspec : spec object op r = some object') :
    Matches spec event ⟨object, phase⟩ a ⟨object', Function.update phase t (.done r)⟩ :=
  .inr ⟨.effect t r, by simp only [step, h, hspec, Option.map_some], hevent.symm⟩

/-- A return is matched by the object's own return. -/
theorem Matches.ret (hevent : event a = some (.ret t r)) (h : phase t = .done r) :
    Matches spec event ⟨object, phase⟩ a ⟨object, Function.update phase t .idle⟩ :=
  .inr ⟨.ret t r, by simp only [step, h, if_true], hevent.symm⟩

/-- A step inside a call that goes no further with it. -/
theorem Matches.inside (hevent : event a = none) {p : Phase Op Result} (h : phase t = p) :
    Matches spec event ⟨object, phase⟩ a ⟨object, Function.update phase t p⟩ :=
  .inl ⟨hevent, by rw [← h, Function.update_eq_self]⟩

end WinEmulator.Lib.AtomicCalls
