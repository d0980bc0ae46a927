import Mathlib.Algebra.GroupWithZero.Nat
import Mathlib.Data.List.Basic

/-!
# A walk that goes breadth first

The walk takes the first of its queue, visits it and puts its children at the end. Finding the
children may fail, and then the whole walk does. It ends if it never fails and every child has less
below it than its parent.
-/

set_option autoImplicit false

namespace WinEmulator.Lib.BreadthFirst

variable {α : Type} (children : α → Option (List α))

/-- What is visited, in its order. The number bounds how much that is. -/
def walk : Nat → List α → Option (List α)
  | _, [] => some []
  | 0, _ :: _ => none
  | n + 1, a :: rest => (children a).bind fun cs => (walk n (rest ++ cs)).map (a :: ·)

/-- What stands in the queue or below something in it. -/
inductive Reach (queue : List α) : α → Prop
  | queue {a : α} : a ∈ queue → Reach queue a
  | child {a b : α} {cs : List α} : Reach queue a → children a = some cs → b ∈ cs → Reach queue b

variable {children} {a b : α} {cs rest queue visited : List α} {n : Nat}

theorem walk_cons (h : walk children n (a :: rest) = some visited) :
    ∃ m cs tail, n = m + 1 ∧ children a = some cs ∧ walk children m (rest ++ cs) = some tail ∧
      visited = a :: tail := by
  cases n with
  | zero => cases h
  | succ m =>
    obtain ⟨cs, hcs, h⟩ := Option.bind_eq_some_iff.mp h
    obtain ⟨tail, htail, rfl⟩ := Option.map_eq_some_iff.mp h
    exact ⟨m, cs, tail, rfl, hcs, htail, rfl⟩

/-- One turn: the first is visited, and what is below it is still to come. -/
theorem reach_cons_iff (hcs : children a = some cs) :
    Reach children (a :: rest) b ↔ b = a ∨ Reach children (rest ++ cs) b := by
  constructor
  · intro h
    induction h with
    | queue hmem =>
      rcases List.mem_cons.mp hmem with rfl | hmem
      · exact .inl rfl
      · exact .inr (.queue (List.mem_append_left _ hmem))
    | child _ hchildren hmem ih =>
      rcases ih with rfl | ih
      · rw [hcs] at hchildren
        obtain rfl := Option.some.inj hchildren
        exact .inr (.queue (List.mem_append_right _ hmem))
      · exact .inr (.child ih hchildren hmem)
  · rintro (rfl | h)
    · exact .queue List.mem_cons_self
    · induction h with
      | queue hmem =>
        rcases List.mem_append.mp hmem with hmem | hmem
        · exact .queue (List.mem_cons_of_mem _ hmem)
        · exact .child (.queue List.mem_cons_self) hcs hmem
      | child _ hchildren hmem ih => exact .child ih hchildren hmem

theorem not_reach_nil : ¬ Reach children [] b := by
  intro h
  induction h with
  | queue hmem => cases hmem
  | child _ _ _ ih => exact ih

/-- **What is visited is what can be reached.** -/
theorem mem_walk (h : walk children n queue = some visited) :
    b ∈ visited ↔ Reach children queue b := by
  induction n generalizing queue visited with
  | zero =>
    cases queue with
    | nil =>
      obtain rfl := Option.some.inj h
      exact ⟨nofun, fun hreach => (not_reach_nil hreach).elim⟩
    | cons a rest => cases h
  | succ n ih =>
    cases queue with
    | nil =>
      obtain rfl := Option.some.inj h
      exact ⟨nofun, fun hreach => (not_reach_nil hreach).elim⟩
    | cons a rest =>
      obtain ⟨m, cs, tail, hm, hcs, htail, rfl⟩ := walk_cons h
      obtain rfl := Nat.succ.inj hm
      rw [List.mem_cons, ih htail, reach_cons_iff hcs]

/-- A walk that comes to its end has found the children of all it visited. -/
theorem children_of_walk (h : walk children n queue = some visited) :
    ∀ b ∈ visited, children b ≠ none := by
  induction n generalizing queue visited with
  | zero =>
    cases queue with
    | nil =>
      obtain rfl := Option.some.inj h
      exact nofun
    | cons a rest => cases h
  | succ n ih =>
    cases queue with
    | nil =>
      obtain rfl := Option.some.inj h
      exact nofun
    | cons a rest =>
      obtain ⟨m, cs, tail, hm, hcs, htail, rfl⟩ := walk_cons h
      obtain rfl := Nat.succ.inj hm
      intro b hb
      rcases List.mem_cons.mp hb with rfl | hb
      · rw [hcs]
        exact nofun
      · exact ih htail b hb

/-- What is below each shrinks on the way down, so the walk ends. -/
theorem exists_walk (size : α → Nat)
    (hsize : ∀ a cs, Reach children queue a → children a = some cs → (cs.map size).sum < size a)
    (hchildren : ∀ a, Reach children queue a → children a ≠ none) (hn : (queue.map size).sum ≤ n) :
    ∃ visited, walk children n queue = some visited := by
  induction n generalizing queue with
  | zero =>
    cases queue with
    | nil => exact ⟨[], rfl⟩
    | cons a rest =>
      have hreach : Reach children (a :: rest) a := .queue List.mem_cons_self
      obtain ⟨cs, hcs⟩ := Option.ne_none_iff_exists'.mp (hchildren a hreach)
      have hless := hsize a cs hreach hcs
      rw [List.map_cons, List.sum_cons] at hn
      omega
  | succ n ih =>
    cases queue with
    | nil => exact ⟨[], rfl⟩
    | cons a rest =>
      have hreach : Reach children (a :: rest) a := .queue List.mem_cons_self
      obtain ⟨cs, hcs⟩ := Option.ne_none_iff_exists'.mp (hchildren a hreach)
      have hless := hsize a cs hreach hcs
      have hback : ∀ {b}, Reach children (rest ++ cs) b → Reach children (a :: rest) b := fun h =>
        (reach_cons_iff hcs).mpr (.inr h)
      obtain ⟨tail, htail⟩ := ih (fun b cs' h => hsize b cs' (hback h))
        (fun b h => hchildren b (hback h)) (by
          rw [List.map_cons, List.sum_cons] at hn
          rw [List.map_append, List.sum_append]
          omega)
      exact ⟨a :: tail, by rw [walk, hcs, Option.bind_some, htail, Option.map_some]⟩

/-! ## The order of the walk -/

/-- An order in which children come after their parents, in the order of their parents and then in
their own. -/
structure Ordered (children : α → Option (List α)) (Before : α → α → Prop) : Prop where
  trans : ∀ {a b c}, Before a b → Before b c → Before a c
  deeper : ∀ {a b cs}, children a = some cs → b ∈ cs → Before a b
  siblings : ∀ {a cs}, children a = some cs → cs.Pairwise Before
  cousins : ∀ {a a' b b' cs cs'}, Before a a' → children a = some cs → children a' = some cs' →
    b ∈ cs → b' ∈ cs' →
    Before b b'

/-- What stands in the queue is before all that will be put there. -/
def Ahead (children : α → Option (List α)) (Before : α → α → Prop) (queue : List α) : Prop :=
  ∀ r ∈ queue, ∀ a ∈ queue, ∀ cs, children a = some cs → ∀ x ∈ cs, Before r x

variable {Before : α → α → Prop}

/-- One turn keeps the queue in order. -/
theorem Ordered.turn (ho : Ordered children Before) (hpairwise : (a :: rest).Pairwise Before)
    (hahead : Ahead children Before (a :: rest)) (hcs : children a = some cs) :
    (rest ++ cs).Pairwise Before ∧ Ahead children Before (rest ++ cs) := by
  obtain ⟨hfirst, hrest⟩ := List.pairwise_cons.mp hpairwise
  have hnew : ∀ r ∈ rest, ∀ x ∈ cs, Before r x := fun r hr x hx =>
    hahead r (List.mem_cons_of_mem _ hr) a List.mem_cons_self cs hcs x hx
  refine ⟨List.pairwise_append.mpr ⟨hrest, ho.siblings hcs, hnew⟩,
    fun r hr b hb cs' hcs' x hx => ?_⟩
  rcases List.mem_append.mp hr with hr | hr
  · rcases List.mem_append.mp hb with hb | hb
    · exact hahead r (List.mem_cons_of_mem _ hr) b (List.mem_cons_of_mem _ hb) cs' hcs' x hx
    · exact ho.trans (hnew r hr b hb) (ho.deeper hcs' hx)
  · -- a child of the first and one of a later: the parents are in order
    have hparents : Before a b := by
      rcases List.mem_append.mp hb with hb | hb
      · exact hfirst b hb
      · exact ho.deeper hcs hb
    exact ho.cousins hparents hcs hcs' hr hx

/-- What comes before a queue comes before all below it. -/
theorem Ordered.before_reach (ho : Ordered children Before) (h : ∀ b ∈ queue, Before a b)
    (hreach : Reach children queue b) :
    Before a b := by
  induction hreach with
  | queue hmem => exact h _ hmem
  | child _ hchildren hmem ih => exact ho.trans ih (ho.deeper hchildren hmem)

/-- **The walk visits in order.** -/
theorem Ordered.pairwise_walk (ho : Ordered children Before) (hpairwise : queue.Pairwise Before)
    (hahead : Ahead children Before queue) (h : walk children n queue = some visited) :
    visited.Pairwise Before := by
  induction n generalizing queue visited with
  | zero =>
    cases queue with
    | nil =>
      obtain rfl := Option.some.inj h
      exact .nil
    | cons a rest => cases h
  | succ n ih =>
    cases queue with
    | nil =>
      obtain rfl := Option.some.inj h
      exact .nil
    | cons a rest =>
      obtain ⟨m, cs, tail, hm, hcs, htail, rfl⟩ := walk_cons h
      obtain rfl := Nat.succ.inj hm
      obtain ⟨hnext, hahead'⟩ := ho.turn hpairwise hahead hcs
      refine List.pairwise_cons.mpr ⟨fun b hb => ?_, ih hnext hahead' htail⟩
      have hbefore : ∀ b ∈ rest ++ cs, Before a b :=
        List.forall_mem_append.mpr
          ⟨(List.pairwise_cons.mp hpairwise).1, fun b hb => ho.deeper hcs hb⟩
      exact ho.before_reach hbefore ((mem_walk htail).mp hb)

/-! ## A search -/

section Search

variable (kids : α → List α) (goal : α → Bool)

/-- The first goal that the walk would visit, once the search has ended: `none` means that the
number is too small, and `some none` that the queue got empty. -/
def search : Nat → List α → Option (Option α)
  | _, [] => some none
  | 0, _ :: _ => none
  | n + 1, a :: rest => if goal a then some (some a) else search n (rest ++ kids a)

variable {kids goal}

theorem search_nil (m : Nat) : search kids goal m [] = some none := by cases m <;> rfl

theorem search_of_walk (h : walk (fun a => some (kids a)) n queue = some visited) {m : Nat}
    (hm : n ≤ m) :
    search kids goal m queue = some (visited.find? goal) := by
  induction n generalizing queue visited m with
  | zero =>
    cases queue with
    | nil =>
      obtain rfl := Option.some.inj h
      exact search_nil m
    | cons a rest => cases h
  | succ n ih =>
    cases queue with
    | nil =>
      obtain rfl := Option.some.inj h
      exact search_nil m
    | cons a rest =>
      obtain ⟨n, cs, tail, hn, hcs, htail, rfl⟩ := walk_cons h
      obtain rfl := Nat.succ.inj hn
      obtain rfl := Option.some.inj hcs
      obtain ⟨m, rfl⟩ : ∃ k, m = k + 1 := ⟨m - 1, by omega⟩
      rw [search, List.find?_cons, ih htail (Nat.le_of_succ_le_succ hm)]
      cases goal a <;> rfl

/-- **A search that ends finds the first goal there is.** -/
theorem Ordered.search_spec (ho : Ordered (fun a => some (kids a)) Before)
    (h : walk (fun a => some (kids a)) n [a] = some visited) (goal : α → Bool) :
    ∃ result, (∀ m ≥ n, search kids goal m [a] = some result) ∧
      (result = none → ∀ b, Reach (fun a => some (kids a)) [a] b → goal b = false) ∧
      ∀ b, result = some b → Reach (fun a => some (kids a)) [a] b ∧ goal b = true ∧
        ∀ c, Reach (fun a => some (kids a)) [a] c → goal c = true → c = b ∨ Before b c := by
  have hahead : Ahead (fun a => some (kids a)) Before [a] := by
    intro r hr b hb cs hcs x hx
    obtain rfl := List.mem_singleton.mp hr
    obtain rfl := List.mem_singleton.mp hb
    exact ho.deeper hcs hx
  have hpairwise := ho.pairwise_walk (List.pairwise_singleton _ a) hahead h
  refine ⟨visited.find? goal, fun m hm => search_of_walk h hm, fun hnone b hreach => ?_,
    fun b hfound => ?_⟩
  · have hgoal := List.find?_eq_none.mp hnone b ((mem_walk h).mpr hreach)
    exact Bool.not_eq_true _ ▸ hgoal
  · obtain ⟨hgoal, before, after, hvisited, hbefore⟩ := List.find?_eq_some_iff_append.mp hfound
    refine ⟨(mem_walk h).mp (hvisited ▸ List.mem_append_right _ List.mem_cons_self), hgoal,
      fun c hreach hc => ?_⟩
    have hmem := (mem_walk h).mpr hreach
    rw [hvisited] at hmem hpairwise
    rcases List.mem_append.mp hmem with hmem | hmem
    · have := hbefore c hmem
      rw [hc] at this
      cases this
    · rcases List.mem_cons.mp hmem with rfl | hmem
      · exact .inl rfl
      · exact .inr ((List.pairwise_cons.mp (List.pairwise_append.mp hpairwise).2.1).1 c hmem)

end Search

end WinEmulator.Lib.BreadthFirst
