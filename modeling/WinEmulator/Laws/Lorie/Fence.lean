import Mathlib.Data.List.Induction
import WinEmulator.Lorie.Fence

/-!
# Laws of the fences in shared memory

A fence of either kind is a flag: `xshmfence_trigger` sets it, `xshmfence_reset` clears it,
`xshmfence_query` reads it, and `xshmfence_await` returns 0 only when it is set. Each call seems to
happen at one moment between its beginning and its return. And no wakening is lost: whenever the
flag is set, a thread that waits needs no more than its own steps and one step of a call of
`xshmfence_trigger` that has set the flag.
-/

set_option autoImplicit false

namespace WinEmulator.Lorie.Fence

open WinEmulator.Lib
open AtomicCalls (Phase Event Matches)

variable {Thread : Type}

/-- What becomes of the flag when a call has a result, if it may have it. -/
def flag (triggered : Bool) : Call → Int → Option Bool
  | .trigger, result => if result = 0 then some true else none
  | .await, result => if result = 0 ∧ triggered = true ∨ result = -1 then some triggered else none
  | .query, result => if result = (if triggered = true then 1 else 0) then some triggered else none
  | .reset, result => if result = 0 then some false else none

def Action.event : Action Thread → Option (Event Thread Call Int)
  | .call t c => some (.call t c)
  | .go _ | .disturb _ => none
  | .ret t result => some (.ret t result)

/-- The flag, and how far each thread is. -/
abbrev Flag (Thread : Type) : Type := AtomicCalls.State Bool Thread Call Int

/-! ## The word -/

namespace Futex

def At.phase : At → Phase Call Int
  | .outside => .idle
  | .first c => .called c
  | .atomic_store => .called .trigger
  | .futex_wake => .done 0
  | .futex_wait | .asleep => .called .await
  | .returning result => .done result

def State.abs (s : State Thread) : Flag Thread := ⟨decide (s.v = 1), fun t => (s.place t).phase⟩

@[simp] theorem wake_phase (place : At) : (wake place).phase = place.phase := by cases place <;> rfl

/-- The word has one of three values, and a thread sleeps only while it is `-1` or a wakening is to
come. -/
structure Inv (s : State Thread) : Prop where
  word : s.v = 0 ∨ s.v = 1 ∨ s.v = -1
  asleep : ∀ t, s.place t = .asleep → s.v = -1 ∨ ∃ u, s.place u = .futex_wake

theorem inv_start : Inv (start : State Thread) := ⟨.inl rfl, fun _ h => by cases h⟩

variable [DecidableEq Thread]

theorem abs_set (s : State Thread) (t : Thread) (v : Int) (place : At) :
    (s.set t v place).abs =
      ⟨decide (v = 1), Function.update (fun u => (s.place u).phase) t place.phase⟩ :=
  congrArg (AtomicCalls.State.mk _) (Function.comp_update At.phase s.place t place)

/-- A thread that is not to wake others moves on, and leaves the word `-1` if it was. -/
theorem Inv.set {s : State Thread} {t : Thread} {v : Int} {place : At} (hi : Inv s)
    (hword : v = 0 ∨ v = 1 ∨ v = -1)
    (hwake : s.place t ≠ .futex_wake) (hkept : s.v = -1 → v = -1 ∨ place = .futex_wake)
    (hasleep : place = .asleep → v = -1) : Inv (s.set t v place) := by
  refine ⟨hword, fun u hu => ?_⟩
  by_cases hut : u = t
  · subst hut
    exact .inl (hasleep (by simpa [State.set] using hu))
  · obtain hv | ⟨w, hw⟩ := hi.asleep u (by simpa [State.set, Function.update_of_ne hut] using hu)
    · rcases hkept hv with hv' | rfl
      · exact .inl hv'
      · exact .inr ⟨t, by simp [State.set]⟩
    · have hwt : w ≠ t := fun h => hwake (h ▸ hw)
      exact .inr ⟨w, by simpa [State.set, Function.update_of_ne hwt] using hw⟩

/-- A thread's own step keeps the invariant. -/
theorem Inv.go {s s' : State Thread} {t : Thread} (hi : Inv s) (h : go s t = some s') : Inv s' := by
  have hword := hi.word
  unfold Futex.go at h
  split at h
  · next hat =>
    cases h
    refine hi.set ?_ (by simp [hat]) ?_ ?_ <;> simp only [compare_and_swap] <;> grind
  · next hat =>
    cases h
    exact hi.set (.inr (.inl rfl)) (by simp [hat]) (fun _ => .inr rfl) (fun h => by cases h)
  · -- whoever slept is awake
    cases h
    refine ⟨hword, fun u hu => ?_⟩
    by_cases hut : u = t
    · simp [hut] at hu
    · simp only [Function.update_of_ne hut] at hu
      cases hplace : s.place u <;> simp [hplace, wake] at hu
  · next hat =>
    cases h
    refine hi.set ?_ (by simp [hat]) ?_ ?_ <;> simp only [compare_and_swap] <;> grind
  · next hat =>
    cases h
    refine hi.set hword (by simp [hat]) .inl ?_
    grind
  · next hat =>
    cases h
    exact hi.set hword (by simp [hat]) .inl (fun h => by cases h)
  · next hat =>
    cases h
    refine hi.set ?_ (by simp [hat]) ?_ (fun h => by cases h) <;>
      simp only [compare_and_swap] <;> grind
  · cases h
  · cases h
  · cases h

/-- **Step lemma.** Every step keeps the invariant. -/
theorem Inv.step {s s' : State Thread} {a : Action Thread} (hi : Inv s) (h : step s a = some s') :
    Inv s' := by
  cases a with
  | go t => exact hi.go h
  | call t c =>
    simp only [Futex.step, Option.ite_none_right_eq_some] at h
    obtain ⟨hat, hs⟩ := h
    cases hs
    exact hi.set hi.word (by simp [hat]) .inl (fun h => by cases h)
  | disturb t =>
    simp only [Futex.step, Option.ite_none_right_eq_some] at h
    obtain ⟨hat, hs⟩ := h
    cases hs
    exact hi.set hi.word (by simp [hat]) .inl (fun h => by cases h)
  | ret t result =>
    simp only [Futex.step, Option.ite_none_right_eq_some] at h
    obtain ⟨hat, hs⟩ := h
    cases hs
    exact hi.set hi.word (by simp [hat]) .inl (fun h => by cases h)

/-- A thread's own step is a step of the flag or none. -/
theorem matches_go {s s' : State Thread} {t : Thread} (hi : Inv s) (h : go s t = some s') :
    Matches flag Action.event s.abs (.go t) s'.abs := by
  have hword := hi.word
  unfold go at h
  split at h
  · next hat =>
    have hphase := congrArg At.phase hat
    cases h
    rw [abs_set]
    by_cases hv : s.v = -1
    · have hkept : compare_and_swap s.v 0 1 = s.v := by simp [compare_and_swap, hv]
      rw [hkept, if_pos hv]
      exact Matches.inside rfl hphase
    · have hset : compare_and_swap s.v 0 1 = 1 := by
        unfold compare_and_swap
        grind
      rw [hset, if_neg hv]
      exact Matches.effect rfl hphase rfl
  · next hat =>
    have hphase := congrArg At.phase hat
    cases h
    rw [abs_set]
    exact Matches.effect rfl hphase rfl
  · next hat =>
    have hphase := congrArg At.phase hat
    cases h
    have habs :
        (⟨s.v, Function.update (fun u => wake (s.place u)) t (.returning 0)⟩ : State Thread).abs =
        ⟨decide (s.v = 1), Function.update (fun u => (s.place u).phase) t (.done 0)⟩ := by
      refine congrArg (AtomicCalls.State.mk _) ?_
      refine (Function.comp_update At.phase (fun u => wake (s.place u)) t _).trans ?_
      exact congrArg (fun f => Function.update f t _) (funext fun u => wake_phase (s.place u))
    rw [habs]
    exact Matches.inside rfl hphase
  · next hat =>
    have hphase := congrArg At.phase hat
    cases h
    rw [abs_set]
    by_cases hv : s.v = 1
    · have hkept : compare_and_swap s.v 0 (-1) = s.v := by simp [compare_and_swap, hv]
      rw [hkept, if_pos hv]
      exact Matches.effect rfl hphase (by simp [flag, hv])
    · have hset : compare_and_swap s.v 0 (-1) = -1 := by
        unfold compare_and_swap
        grind
      rw [hset, if_neg hv]
      have hsame : decide (s.v = 1) = decide ((-1 : Int) = 1) := by simp [hv]
      unfold State.abs
      rw [hsame]
      exact Matches.inside rfl hphase
  · next hat =>
    have hphase := congrArg At.phase hat
    cases h
    rw [abs_set]
    split
    · exact Matches.inside rfl hphase
    · exact Matches.inside rfl hphase
  · next hat =>
    have hphase := congrArg At.phase hat
    cases h
    rw [abs_set]
    exact Matches.effect rfl hphase (by simp [flag])
  · next hat =>
    have hphase := congrArg At.phase hat
    cases h
    rw [abs_set]
    have hcleared : decide (compare_and_swap s.v 1 0 = 1) = false := by
      unfold compare_and_swap
      grind
    rw [hcleared]
    exact Matches.effect rfl hphase rfl
  · cases h
  · cases h
  · cases h

/-- **Simulation.** Every step is a step of the flag or none. -/
theorem matches_step {s s' : State Thread} {a : Action Thread} (hi : Inv s)
    (h : step s a = some s') :
    Matches flag Action.event s.abs a s'.abs := by
  cases a with
  | go t => exact matches_go hi h
  | call t c =>
    simp only [step, Option.ite_none_right_eq_some] at h
    obtain ⟨hat, hs⟩ := h
    cases hs
    rw [abs_set]
    exact Matches.call rfl (congrArg At.phase hat)
  | disturb t =>
    simp only [step, Option.ite_none_right_eq_some] at h
    obtain ⟨hat, hs⟩ := h
    cases hs
    rw [abs_set]
    exact Matches.effect rfl (congrArg At.phase hat) (by simp [flag])
  | ret t result =>
    simp only [step, Option.ite_none_right_eq_some] at h
    obtain ⟨hat, hs⟩ := h
    cases hs
    rw [abs_set]
    exact Matches.ret rfl (congrArg At.phase hat)

/-- A thread that is not the one to move is where it was. -/
theorem done_set {s : State Thread} {t u : Thread} {v : Int} {place : At}
    (hplace : place.phase ≠ .done (-1))
    (hdone : ((s.set u v place).place t).phase = .done (-1)) :
    t ≠ u ∧ (s.place t).phase = .done (-1) := by
  by_cases htu : t = u
  · subst htu
    have hmoved : place.phase = .done (-1) := by simpa [State.set] using hdone
    exact absurd hmoved hplace
  · exact ⟨htu, by simpa [State.set, Function.update_of_ne htu] using hdone⟩

/-- No step of a thread's own gives `-1`. -/
theorem done_go {s s' : State Thread} {t u : Thread} (h : go s u = some s')
    (hdone : (s'.place t).phase = .done (-1)) :
    (s.place t).phase = .done (-1) := by
  unfold go at h
  split at h
  · cases h
    refine (done_set ?_ hdone).2
    split <;> decide
  · cases h
    exact (done_set (by decide) hdone).2
  · cases h
    by_cases htu : t = u
    · subst htu
      simp [At.phase] at hdone
    · simpa [Function.update_of_ne htu] using hdone
  · cases h
    refine (done_set ?_ hdone).2
    split <;> decide
  · cases h
    refine (done_set ?_ hdone).2
    split <;> decide
  · cases h
    refine (done_set ?_ hdone).2
    split <;> decide
  · cases h
    exact (done_set (by decide) hdone).2
  · cases h
  · cases h
  · cases h

/-- Only a disturbance gives `-1`. -/
theorem done_step {s s' : State Thread} {a : Action Thread} {t : Thread} (h : step s a = some s')
    (hdone : (s'.place t).phase = .done (-1)) :
    a = .disturb t ∨ (s.place t).phase = .done (-1) ∧ ∀ c, a ≠ .call t c := by
  cases a with
  | go u => exact .inr ⟨done_go h hdone, nofun⟩
  | call u c =>
    simp only [step, Option.ite_none_right_eq_some] at h
    obtain ⟨-, hs⟩ := h
    cases hs
    obtain ⟨htu, hold⟩ := done_set (by simp [At.phase]) hdone
    exact .inr ⟨hold, fun c hc => htu (Action.call.inj hc).1.symm⟩
  | disturb u =>
    simp only [step, Option.ite_none_right_eq_some] at h
    obtain ⟨-, hs⟩ := h
    cases hs
    by_cases htu : t = u
    · exact .inl (congrArg Action.disturb htu.symm)
    · exact .inr ⟨by simpa [State.set, Function.update_of_ne htu] using hdone, nofun⟩
  | ret u result =>
    simp only [step, Option.ite_none_right_eq_some] at h
    obtain ⟨-, hs⟩ := h
    cases hs
    exact .inr ⟨(done_set (by simp [At.phase]) hdone).2, nofun⟩

/-- A thread that waits while the word is 1 goes on at once, or when it has been woken. -/
theorem returns_of_triggered {s : State Thread} {t : Thread} (hi : Inv s) (hv : s.v = 1)
    (hat : (s.place t).phase = .called .await) :
    (∃ n ≤ 2, ∃ s', run step s (List.replicate n (.go t)) = some s' ∧
      (s'.place t).phase = .done 0) ∨
      (∃ u, s.place u = .futex_wake) ∧ ∀ u, s.place u = .futex_wake →
        ∃ s', run step s [.go u, .go t] = some s' ∧ (s'.place t).phase = .done 0 := by
  have hfirst : ∀ {s : State Thread}, s.v = 1 → s.place t = .first .await →
      ∃ s', go s t = some s' ∧ (s'.place t).phase = .done 0 := by
    intro s hv hat
    refine ⟨s.set t (compare_and_swap s.v 0 (-1))
      (.returning 0), by simp only [go, hat, hv, if_true], ?_⟩
    simp [State.set, At.phase]
  cases hplace : s.place t with
  | first c =>
    rw [hplace] at hat
    cases hat
    obtain ⟨s', hgo, hdone⟩ := hfirst hv hplace
    exact .inl ⟨1, by decide, s', run_cons.mpr ⟨s', hgo, rfl⟩, hdone⟩
  | futex_wait =>
    obtain ⟨s', hgo, hdone⟩ := hfirst (s := s.set t s.v (.first .await)) hv (by simp [State.set])
    have hwait : go s t = some (s.set t s.v (.first .await)) := by simp [go, hplace, hv]
    exact .inl ⟨2, by decide, s', run_cons.mpr ⟨_, hwait, run_cons.mpr ⟨s', hgo, rfl⟩⟩, hdone⟩
  | asleep =>
    refine .inr ⟨(hi.asleep t hplace).resolve_left fun hminus => ?_, fun u hu => ?_⟩
    · rw [hv] at hminus
      cases hminus
    · have hut : t ≠ u := by
        rintro rfl
        rw [hplace] at hu
        cases hu
      have hwake :
          go s u = some
            { s with place := Function.update (fun w => wake (s.place w)) u (.returning 0) } := by
        simp only [go, hu]
      obtain ⟨s', hgo, hdone⟩ :=
        hfirst (s :=
        { s with place := Function.update (fun w => wake (s.place w)) u (.returning 0) })
        hv (by simp [Function.update_of_ne hut, hplace, wake])
      exact ⟨s', run_cons.mpr ⟨_, hwake, run_cons.mpr ⟨s', hgo, rfl⟩⟩, hdone⟩
  | outside => rw [hplace] at hat; cases hat
  | atomic_store => rw [hplace] at hat; cases hat
  | futex_wake => rw [hplace] at hat; cases hat
  | returning result => rw [hplace] at hat; cases hat

end Futex

/-! ## The value -/

namespace Pthread

def At.phase : At → Phase Call Int
  | .outside => .idle
  | .first c => .called c
  | .asleep => .called .await
  | .returning result => .done result

def State.abs (s : State Thread) : Flag Thread := ⟨decide (s.value = 1), fun t => (s.place t).phase⟩

@[simp] theorem wake_phase (place : At) : (wake place).phase = place.phase := by cases place <;> rfl

/-- The value is that of a flag, and a thread sleeps only while it is 0 and the next to set it knows
of the thread. -/
structure Inv (s : State Thread) : Prop where
  value : s.value = 0 ∨ s.value = 1
  asleep : ∀ t, s.place t = .asleep → s.value = 0 ∧ s.waiting = 1

theorem inv_start : Inv (start : State Thread) := ⟨.inl rfl, fun _ h => by cases h⟩

/-- The flag is set, nobody sleeps, and nobody has moved. -/
theorem trigger_spec {s : State Thread} (hi : Inv s) : (trigger s).value = 1 ∧ Inv (trigger s) ∧
    ∀ u, ((trigger s).place u).phase = (s.place u).phase := by
  unfold trigger
  split
  · next hvalue =>
    split
    · refine ⟨rfl, ⟨.inr rfl, fun u hu => ?_⟩, fun u => wake_phase (s.place u)⟩
      cases hplace : s.place u <;> simp [hplace, wake] at hu
    · next hwaiting =>
      refine ⟨rfl, ⟨.inr rfl, fun u hu => ?_⟩, fun _ => rfl⟩
      have hone := (hi.asleep u hu).2
      exact absurd (hone ▸ by decide) hwaiting
  · next hvalue => exact ⟨hi.value.resolve_left hvalue, hi, fun _ => rfl⟩

variable [DecidableEq Thread]

theorem abs_move (s : State Thread) (t : Thread) (place : At) :
    (s.move t place).abs =
      ⟨decide (s.value = 1), Function.update (fun u => (s.place u).phase) t place.phase⟩ :=
  congrArg (AtomicCalls.State.mk _) (Function.comp_update At.phase s.place t place)

/-- A thread that moves on keeps the invariant. -/
theorem Inv.move {s : State Thread} {t : Thread} {place : At} (hi : Inv s)
    (hasleep : place = .asleep → s.value = 0 ∧ s.waiting = 1) : Inv (s.move t place) := by
  refine ⟨hi.value, fun u hu => ?_⟩
  by_cases hut : u = t
  · subst hut
    exact hasleep (by simpa [State.move] using hu)
  · exact hi.asleep u (by simpa [State.move, Function.update_of_ne hut] using hu)

/-- A thread's own step keeps the invariant. -/
theorem Inv.go {s s' : State Thread} {t : Thread} (hi : Inv s) (h : go s t = some s') : Inv s' := by
  unfold Pthread.go at h
  split at h
  · cases h
    exact (trigger_spec hi).2.1.move (fun h => by cases h)
  · split at h
    · next hvalue =>
      cases h
      have hasks : Inv { s with waiting := 1 } := ⟨hi.value, fun _ _ => ⟨hvalue, rfl⟩⟩
      exact hasks.move fun _ => ⟨hvalue, rfl⟩
    · cases h
      exact hi.move (fun h => by cases h)
  · cases h
    exact hi.move (fun h => by cases h)
  · cases h
    have hcleared : Inv { s with value := 0 } := ⟨.inl rfl, fun u hu => ⟨rfl, (hi.asleep u hu).2⟩⟩
    exact hcleared.move (fun h => by cases h)
  · cases h
  · cases h
  · cases h

/-- **Step lemma.** Every step keeps the invariant. -/
theorem Inv.step {s s' : State Thread} {a : Action Thread} (hi : Inv s) (h : step s a = some s') :
    Inv s' := by
  cases a with
  | go t => exact hi.go h
  | call t c =>
    simp only [Pthread.step, Option.ite_none_right_eq_some] at h
    obtain ⟨_, hs⟩ := h
    cases hs
    exact hi.move (fun h => by cases h)
  | disturb t =>
    simp only [Pthread.step, Option.ite_none_right_eq_some] at h
    obtain ⟨_, hs⟩ := h
    cases hs
    exact hi.move (fun h => by cases h)
  | ret t result =>
    simp only [Pthread.step, Option.ite_none_right_eq_some] at h
    obtain ⟨_, hs⟩ := h
    cases hs
    exact hi.move (fun h => by cases h)

/-- A thread's own step is a step of the flag or none. -/
theorem matches_go {s s' : State Thread} {t : Thread} (hi : Inv s) (h : go s t = some s') :
    Matches flag Action.event s.abs (.go t) s'.abs := by
  unfold go at h
  split at h
  · next hat =>
    have hphase := congrArg At.phase hat
    cases h
    obtain ⟨hvalue, _, hplaces⟩ := trigger_spec hi
    rw [abs_move, hvalue, funext hplaces]
    exact Matches.effect rfl hphase rfl
  · next hat =>
    have hphase := congrArg At.phase hat
    split at h
    · cases h
      rw [abs_move]
      exact Matches.inside rfl hphase
    · next hvalue =>
      cases h
      rw [abs_move]
      exact Matches.effect rfl hphase (by simp [flag, hi.value.resolve_left hvalue])
  · next hat =>
    have hphase := congrArg At.phase hat
    cases h
    rw [abs_move]
    obtain hvalue | hvalue := hi.value
    · exact Matches.effect rfl hphase (by simp [flag, hvalue])
    · exact Matches.effect rfl hphase (by simp [flag, hvalue])
  · next hat =>
    have hphase := congrArg At.phase hat
    cases h
    rw [abs_move]
    exact Matches.effect rfl hphase rfl
  · cases h
  · cases h
  · cases h

/-- **Simulation.** Every step is a step of the flag or none. -/
theorem matches_step {s s' : State Thread} {a : Action Thread} (hi : Inv s)
    (h : step s a = some s') :
    Matches flag Action.event s.abs a s'.abs := by
  cases a with
  | go t => exact matches_go hi h
  | call t c =>
    simp only [step, Option.ite_none_right_eq_some] at h
    obtain ⟨hat, hs⟩ := h
    cases hs
    rw [abs_move]
    exact Matches.call rfl (congrArg At.phase hat)
  | disturb t =>
    simp only [step, Option.ite_none_right_eq_some] at h
    obtain ⟨hat, hs⟩ := h
    have hphase := congrArg At.phase hat
    cases hs
    rw [abs_move]
    exact Matches.inside rfl hphase
  | ret t result =>
    simp only [step, Option.ite_none_right_eq_some] at h
    obtain ⟨hat, hs⟩ := h
    cases hs
    rw [abs_move]
    exact Matches.ret rfl (congrArg At.phase hat)

theorem done_move {s : State Thread} {t u : Thread} {place : At} (hplace : place.phase ≠ .done (-1))
    (hdone : ((s.move u place).place t).phase = .done (-1)) :
    t ≠ u ∧ (s.place t).phase = .done (-1) := by
  by_cases htu : t = u
  · subst htu
    have hmoved : place.phase = .done (-1) := by simpa [State.move] using hdone
    exact absurd hmoved hplace
  · exact ⟨htu, by simpa [State.move, Function.update_of_ne htu] using hdone⟩

theorem done_go {s s' : State Thread} {t u : Thread} (hi : Inv s) (h : go s u = some s')
    (hdone : (s'.place t).phase = .done (-1)) : (s.place t).phase = .done (-1) := by
  unfold go at h
  split at h
  · cases h
    exact (trigger_spec hi).2.2 t ▸ (done_move (by decide) hdone).2
  · split at h
    · cases h
      exact (done_move (by decide) hdone).2
    · cases h
      exact (done_move (by decide) hdone).2
  · cases h
    have hvalue : s.value ≠ -1 := by
      have hflag := hi.value
      omega
    exact (done_move (by simpa [At.phase] using hvalue) hdone).2
  · cases h
    exact (done_move (by decide) hdone).2
  · cases h
  · cases h
  · cases h

/-- No call of this kind gives `-1`. -/
theorem done_step {s s' : State Thread} {a : Action Thread} {t : Thread} (hi : Inv s)
    (h : step s a = some s')
    (hdone : (s'.place t).phase = .done (-1)) :
    (s.place t).phase = .done (-1) ∧ ∀ c, a ≠ .call t c := by
  cases a with
  | go u => exact ⟨done_go hi h hdone, nofun⟩
  | call u c =>
    simp only [step, Option.ite_none_right_eq_some] at h
    obtain ⟨-, hs⟩ := h
    cases hs
    obtain ⟨htu, hold⟩ := done_move (by simp [At.phase]) hdone
    exact ⟨hold, fun c hc => htu (Action.call.inj hc).1.symm⟩
  | disturb u =>
    simp only [step, Option.ite_none_right_eq_some] at h
    obtain ⟨-, hs⟩ := h
    cases hs
    exact ⟨(done_move (by simp [At.phase]) hdone).2, nofun⟩
  | ret u result =>
    simp only [step, Option.ite_none_right_eq_some] at h
    obtain ⟨-, hs⟩ := h
    cases hs
    exact ⟨(done_move (by simp [At.phase]) hdone).2, nofun⟩

/-- A thread that waits while the value is 1 does not sleep. -/
theorem returns_of_triggered {s : State Thread} {t : Thread} (hi : Inv s) (hvalue : s.value = 1)
    (hat : (s.place t).phase = .called .await) :
    ∃ s', go s t = some s' ∧ (s'.place t).phase = .done 0 := by
  have hfirst : s.place t = .first .await := by
    cases hplace : s.place t with
    | outside => rw [hplace] at hat; cases hat
    | first c => rw [hplace] at hat; cases hat; rfl
    | asleep =>
      have hzero := (hi.asleep t hplace).1
      rw [hvalue] at hzero
      cases hzero
    | returning result => rw [hplace] at hat; cases hat
  refine ⟨s.move t (.returning 0), by simp [go, hfirst, hvalue], by simp [State.move, At.phase]⟩

end Pthread

/-! ## Fences of either kind -/

def xshmfence.abs : xshmfence Thread → Flag Thread
  | .futex real => real.abs
  | .pthread real => real.abs

def xshmfence.Inv : xshmfence Thread → Prop
  | .futex real => Futex.Inv real
  | .pthread real => Pthread.Inv real

theorem inv_map_shm (st_size : Nat) : (xshmfence_map_shm st_size : xshmfence Thread).Inv ∧
    (xshmfence_map_shm st_size : xshmfence Thread).abs = AtomicCalls.start false := by
  unfold xshmfence_map_shm
  split
  · exact ⟨Futex.inv_start, rfl⟩
  · exact ⟨Pthread.inv_start, rfl⟩

variable [DecidableEq Thread]

theorem xshmfence.Inv.step {f f' : xshmfence Thread} {a : Action Thread} (hi : f.Inv)
    (h : step f a = some f') : f'.Inv := by
  cases f with
  | futex real =>
    obtain ⟨real', hreal, rfl⟩ := Option.map_eq_some_iff.mp h
    exact Futex.Inv.step hi hreal
  | pthread real =>
    obtain ⟨real', hreal, rfl⟩ := Option.map_eq_some_iff.mp h
    exact Pthread.Inv.step hi hreal

/-- **Simulation.** Fences of both kinds follow the flag. -/
theorem matches_step {f f' : xshmfence Thread} {a : Action Thread} (hi : f.Inv)
    (h : step f a = some f') :
    Matches flag Action.event f.abs a f'.abs := by
  cases f with
  | futex real =>
    obtain ⟨real', hreal, rfl⟩ := Option.map_eq_some_iff.mp h
    exact Futex.matches_step hi hreal
  | pthread real =>
    obtain ⟨real', hreal, rfl⟩ := Option.map_eq_some_iff.mp h
    exact Pthread.matches_step hi hreal

theorem run_futex (real : Futex.State Thread) (actions : List (Action Thread)) :
    run step (.futex real) actions = (run Futex.step real actions).map .futex := by
  induction actions generalizing real with
  | nil => rfl
  | cons a actions ih =>
    simp only [run, step]
    cases Futex.step real a with
    | none => rfl
    | some real' => exact ih real'

/-- The thread was disturbed in its last call. -/
def DisturbedInCall (actions : List (Action Thread)) (t : Thread) : Prop :=
  ∃ before after, actions = before ++ .disturb t :: after ∧ ∀ c, .call t c ∉ after

theorem done_step {f f' : xshmfence Thread} {a : Action Thread} {t : Thread} (hi : f.Inv)
    (h : step f a = some f')
    (hdone : f'.abs.phase t = .done (-1)) :
    a = .disturb t ∨ f.abs.phase t = .done (-1) ∧ ∀ c, a ≠ .call t c := by
  cases f with
  | futex real =>
    obtain ⟨real', hreal, rfl⟩ := Option.map_eq_some_iff.mp h
    exact Futex.done_step hreal hdone
  | pthread real =>
    obtain ⟨real', hreal, rfl⟩ := Option.map_eq_some_iff.mp h
    exact .inr (Pthread.done_step hi hreal hdone)

/-- A call that returned `-1` was disturbed while it ran. -/
theorem disturbed_of_done {f₀ f : xshmfence Thread} {actions : List (Action Thread)} {t : Thread}
    (hi : f₀.Inv)
    (hstart : f₀.abs.phase t = .idle) (h : run step f₀ actions = some f)
    (hdone : f.abs.phase t = .done (-1)) :
    DisturbedInCall actions t := by
  induction actions using List.reverseRecOn generalizing f with
  | nil =>
    cases h
    rw [hstart] at hdone
    cases hdone
  | append_singleton actions a ih =>
    obtain ⟨mid, hmid, hlast⟩ := exists_of_run_append h
    obtain ⟨f', hstep, hnil⟩ := run_cons.mp hlast
    cases hnil
    rcases done_step (run_invariant xshmfence.Inv.step hi hmid) hstep hdone
      with rfl | ⟨hbefore, hcall⟩
    · exact ⟨actions, [], rfl, fun _ => List.not_mem_nil⟩
    · obtain ⟨before, after, rfl, hnone⟩ := ih hmid hbefore
      refine ⟨before, after ++ [a], by simp, fun c hc => ?_⟩
      rcases List.mem_append.mp hc with hold | hnew
      · exact hnone c hold
      · exact hcall c (List.mem_singleton.mp hnew).symm

/-- **A fence in memory of any size, called by any number of threads, is a flag: what is seen of its
calls is what is seen when each of them happens at one moment between its beginning and its
return.** A call that is to return `-1` was disturbed. -/
theorem fence_is_flag (st_size : Nat) :
    AtomicCalls.Linearizable flag false step Action.event
      (xshmfence_map_shm st_size : xshmfence Thread) ∧
      ∀ (actions : List (Action Thread)) (f : xshmfence Thread),
        run step (xshmfence_map_shm st_size) actions = some f →
        ∀ t, f.abs.phase t = .done (-1) → DisturbedInCall actions t := by
  refine ⟨AtomicCalls.linearizable_of_abstraction xshmfence.Inv.step matches_step
    (inv_map_shm st_size).1
    (inv_map_shm st_size).2, fun actions f h t hdone => ?_⟩
  exact disturbed_of_done (inv_map_shm st_size).1
    (congrFun (congrArg _ (inv_map_shm st_size).2) t) h hdone

/-- A call of `xshmfence_trigger` that has set the flag and is about to wake who sleeps. -/
def xshmfence.AboutToWake : xshmfence Thread → Thread → Prop
  | .futex real, u => real.place u = .futex_wake
  | .pthread _, _ => False

/-- **In every state that calls in any order and any stage can lead to, if the flag is set, a thread
that waits for it returns 0 after at most two steps: its own, or, if it sleeps, one of any call that
is about to wake it and one of its own;** there is such a call. -/
theorem await_returns {st_size : Nat} {f : xshmfence Thread} {actions : List (Action Thread)}
    (h : run step (xshmfence_map_shm st_size) actions = some f) (hset : f.abs.object = true)
    {t : Thread}
    (hwaits : f.abs.phase t = .called .await) :
    (∃ n ≤ 2, ∃ f', run step f (List.replicate n (.go t)) = some f' ∧ f'.abs.phase t = .done 0) ∨
      (∃ u, f.AboutToWake u) ∧ ∀ u, f.AboutToWake u →
        ∃ f', run step f [.go u, .go t] = some f' ∧ f'.abs.phase t = .done 0 := by
  have hi : f.Inv := run_invariant xshmfence.Inv.step (inv_map_shm st_size).1 h
  cases f with
  | futex real =>
    rcases Futex.returns_of_triggered hi (of_decide_eq_true hset) hwaits
      with ⟨n, hn, real', hrun, hdone⟩ | ⟨hwoken, hwakes⟩
    · refine .inl ⟨n, hn, .futex real', ?_, hdone⟩
      rw [run_futex, hrun, Option.map_some]
    · refine .inr ⟨hwoken, fun u hu => ?_⟩
      obtain ⟨real', hrun, hdone⟩ := hwakes u hu
      refine ⟨.futex real', ?_, hdone⟩
      rw [run_futex, hrun, Option.map_some]
  | pthread real =>
    obtain ⟨real', hgo, hdone⟩ := Pthread.returns_of_triggered hi (of_decide_eq_true hset) hwaits
    refine .inl ⟨1, by decide, .pthread real', run_cons.mpr ⟨_, ?_, rfl⟩, hdone⟩
    exact Option.map_eq_some_iff.mpr ⟨real', hgo, rfl⟩

/-- A thread sleeps, and another has set the flag and not yet woken it. -/
def slept : List (Action Nat) := [.call 0 .await, .go 0, .go 0, .call 1 .trigger, .go 1, .go 1]

theorem await_returns_slept : ∃ f, run step (xshmfence_map_shm 4) slept = some f ∧ f.AboutToWake 1 ∧
    ((∃ n ≤ 2, ∃ f', run step f (List.replicate n (.go 0)) = some f' ∧ f'.abs.phase 0 = .done 0) ∨
      (∃ u, f.AboutToWake u) ∧ ∀ u, f.AboutToWake u →
        ∃ f', run step f [.go u, .go 0] = some f' ∧ f'.abs.phase 0 = .done 0) := by
  have hruns : (run step (xshmfence_map_shm 4) slept).map
      (fun f => (f.abs.object, f.abs.phase 0,
        match f with | .futex real => real.place 1 | .pthread _ => .outside)) =
      some (true, .called .await, .futex_wake) := by decide
  obtain ⟨f, hf, hends⟩ := Option.map_eq_some_iff.mp hruns
  simp only [Prod.mk.injEq] at hends
  refine ⟨f, hf, ?_, await_returns hf hends.1 hends.2.1⟩
  cases f with
  | futex real => exact hends.2.2
  | pthread real => cases hends.2.2

end WinEmulator.Lorie.Fence
