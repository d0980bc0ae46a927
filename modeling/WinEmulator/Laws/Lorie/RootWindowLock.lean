import WinEmulator.Lorie.SharedLock

/-!
# The lock on the root window is held by one process

A process that waits for the mutex too long takes it that the other one died with it, unless the
connection stands. But a connection can also be lost while both live, and then the mutex is taken
from a process that holds it. Where no process that has waited too long finds its connection lost
while the other one lives, the mutex is taken from the dead alone, and the two are never both
inside.
-/

set_option autoImplicit false

namespace WinEmulator.Lorie.SharedLock

open WinEmulator.Lib

variable {s s' : State} {p : Party}

/-! ## Steps -/

/-- What a living process' step from one place to the next does. -/
theorem goOn_some {place place' : At} (h : goOn p place place' s = some s') :
    (s.process p).living ∧ (s.process p).pc = place ∧
      s' = setProcess p { s.process p with pc := place' } s := by
  unfold goOn at h
  split at h
  case isTrue hgo =>
    cases h
    exact ⟨hgo.1, hgo.2, rfl⟩
  case isFalse => cases h

theorem setProcess_setProcess (proc proc' : Process) :
    setProcess p proc' (setProcess p proc s) = setProcess p proc' s := by
  unfold setProcess
  simp only [Function.update_idem]

/-- The mutex was free or the caller's own. -/
theorem acquire_some (h : acquire p s = some s') :
    (s.process p).living ∧ (s.process p).pc = .waiting ∧
      ∃ n, (s.mutex = none ∧ n = 0 ∨ s.mutex = some (p, n)) ∧
        s' =
          { setProcess p { s.process p with depth := (s.process p).depth + 1, pc := .locked } s with
            mutex := some (p, n + 1) } := by
  unfold acquire at h
  split at h
  case h_1 hfree =>
    obtain ⟨hliving, hpc, rfl⟩ := goOn_some h
    simp only [setProcess, Function.update_self, Function.update_idem] at hliving hpc ⊢
    exact ⟨hliving, hpc, 0, .inl ⟨hfree, rfl⟩, rfl⟩
  case h_2 q n hown =>
    split at h
    case isTrue hq =>
      obtain ⟨hliving, hpc, rfl⟩ := goOn_some h
      simp only [setProcess, Function.update_self, Function.update_idem] at hliving hpc ⊢
      exact ⟨hliving, hpc, n, .inr (hq ▸ hown), rfl⟩
    case isFalse => cases h

/-- A lock times out when the other process holds the mutex. -/
theorem timeOut_some (h : timeOut p s = some s') :
    (∃ n, s.mutex = some (p.other, n)) ∧ goOn p .waiting .timedOut s = some s' := by
  unfold timeOut at h
  split at h
  case h_1 => cases h
  case h_2 q n hother =>
    split at h
    case isTrue => cases h
    case isFalse hq =>
      refine ⟨⟨n, ?_⟩, h⟩
      rw [hother]
      cases q <;> cases p <;> first | rfl | exact absurd rfl hq

/-- Unlocking does not touch the other process' hold. -/
theorem unlock_other {q : Party} {n : Nat} {mutex : Option (Party × Nat)} (hq : q ≠ p) :
    pthread_mutex_unlock p mutex = some (q, n) ↔ mutex = some (q, n) := by
  match mutex with
  | none => rfl
  | some (r, k) =>
    by_cases hr : r = p
    · subst hr
      simp only [pthread_mutex_unlock, if_true]
      split <;> simp [hq.symm]
    · rw [pthread_mutex_unlock, if_neg hr]

/-- Unlocking takes one from one's own hold. -/
theorem unlock_own {n : Nat} {mutex : Option (Party × Nat)} :
    pthread_mutex_unlock p mutex = some (p, n) ↔ 0 < n ∧ mutex = some (p, n + 1) := by
  match mutex with
  | none => simp [pthread_mutex_unlock]
  | some (r, k) =>
    by_cases hr : r = p
    · subst hr
      simp only [pthread_mutex_unlock, if_true]
      split <;> simp only [Option.some.injEq, Prod.mk.injEq, true_and, reduceCtorEq, false_iff] <;>
        omega
    · simp [pthread_mutex_unlock, hr]

theorem other_ne (p : Party) : p.other ≠ p := by
  cases p <;> exact nofun

theorem eq_or_eq_other (p q : Party) : q = p ∨ q = p.other := by
  cases p <;> cases q <;> first | exact .inl rfl | exact .inr rfl

/-! ## The invariant -/

/-- For a process that lives, the mutex says how deep inside it is. -/
structure Held (s : State) : Prop where
  owner : ∀ p, (s.process p).living → ∀ n, s.mutex = some (p, n) ↔ 0 < n ∧ (s.process p).depth = n
  outside : ∀ p, (s.process p).living → (s.process p).pc = .timedOut ∨
    (s.process p).pc = .reinitialising →
    (s.process p).depth = 0
  bereft : ∀ p, (s.process p).living → (s.process p).pc = .reinitialising →
    ¬ (s.process p.other).living

theorem held_start : Held start where
  owner _ _ _ := ⟨nofun, fun ⟨hpos, hdepth⟩ => absurd hdepth (Nat.ne_of_lt hpos)⟩
  outside _ _ h := by rcases h with h | h <;> cases h
  bereft _ _ h := nomatch h

/-- What a step of one process has to keep. -/
theorem Held.change (h : Held s) {proc : Process} {mutex : Option (Party × Nat)}
    {pid : Option Party}
    (living : proc.living → (s.process p).living)
    (owner : proc.living → ∀ n, mutex = some (p, n) ↔ 0 < n ∧ proc.depth = n)
    (others : (s.process p.other).living → ∀ n, mutex = some (p.other, n) ↔
      s.mutex = some (p.other, n))
    (outside : proc.living → proc.pc = .timedOut ∨ proc.pc = .reinitialising → proc.depth = 0)
    (bereft : proc.living → proc.pc = .reinitialising → ¬ (s.process p.other).living) :
    Held ⟨mutex, pid, Function.update s.process p proc⟩ := by
  have hother : ∀ {q}, q = p.other → Function.update s.process p proc q = s.process q := by
    rintro q rfl
    exact Function.update_of_ne (other_ne p) ..
  refine ⟨fun q => ?_, fun q => ?_, fun q => ?_⟩
  all_goals rcases eq_or_eq_other p q with rfl | hq
  · simpa only [Function.update_self] using owner
  · simp only [hother hq]
    subst hq
    exact fun hliving n => (others hliving n).trans (h.owner _ hliving n)
  · simpa only [Function.update_self] using outside
  · simp only [hother hq]
    exact h.outside q
  · have : Function.update s.process q proc q.other = s.process q.other := hother rfl
    simpa only [Function.update_self, this] using bereft
  · simp only [hother hq]
    subst hq
    have hback : p.other.other = p := by cases p <;> rfl
    simp only [hback, Function.update_self]
    intro hliving hpc hp
    have := h.bereft p.other hliving hpc
    rw [hback] at this
    exact this (living hp)

/-- A process that only goes on to a place where it does not matter how deep inside it is. -/
theorem Held.goOn (h : Held s) {place place' : At} (pid : Option Party)
    (hstep : SharedLock.goOn p place place' { s with lockingPid := pid } = some s')
    (hplace : place' ≠ .timedOut ∧ place' ≠ .reinitialising) : Held s' := by
  obtain ⟨hliving, -, rfl⟩ := goOn_some hstep
  refine h.change (fun _ => hliving) (fun hl => h.owner p hl) (fun _ _ => Iff.rfl) (fun _ hpc => ?_)
    fun _ hpc => absurd hpc hplace.2
  exact (hpc.elim hplace.1 hplace.2).elim

/-- Taking the mutex keeps the count of holds. -/
theorem Held.acquire (h : Held s) (hstep : SharedLock.acquire p s = some s') : Held s' := by
  obtain ⟨hliving, -, n, hmutex, rfl⟩ := acquire_some hstep
  have hdepth : (s.process p).depth = n := by
    rcases hmutex with ⟨hfree, rfl⟩ | hown
    · by_contra hne
      have hown := (h.owner p hliving _).mpr ⟨Nat.pos_of_ne_zero hne, rfl⟩
      cases hfree.symm.trans hown
    · exact ((h.owner p hliving n).mp hown).2
  refine h.change (fun _ => hliving) (fun _ k => ?_) (fun _ k => ?_) (fun _ hpc => ?_)
    (fun _ hpc => nomatch hpc)
  · simp only [Option.some.injEq, Prod.mk.injEq, true_and, hdepth]
    constructor
    · rintro rfl
      exact ⟨Nat.succ_pos n, rfl⟩
    · exact And.right
  · refine iff_of_false (fun he => ?_) fun he => ?_
    · exact other_ne p (Prod.mk.inj (Option.some.inj he)).1.symm
    · rcases hmutex with ⟨hfree, -⟩ | hown
      · cases hfree.symm.trans he
      · exact other_ne p (Prod.mk.inj (Option.some.inj (he.symm.trans hown))).1
  · rcases hpc with hpc | hpc <;> cases hpc

/-- A timeout keeps the count of holds. -/
theorem Held.timeOut (h : Held s) (hstep : SharedLock.timeOut p s = some s') : Held s' := by
  obtain ⟨⟨n, hother⟩, hgo⟩ := timeOut_some hstep
  obtain ⟨hliving, -, rfl⟩ := goOn_some hgo
  refine h.change (fun _ => hliving) (fun hl => h.owner p hl) (fun _ _ => Iff.rfl) (fun _ _ => ?_)
    fun _ hpc => nomatch hpc
  by_contra hne
  have hown := (h.owner p hliving _).mpr ⟨Nat.pos_of_ne_zero hne, rfl⟩
  exact other_ne p (Prod.mk.inj (Option.some.inj (hother.symm.trans hown))).1

/-- A process that looks at its connection after it has waited too long finds it standing, or the
other process is dead. -/
def Looked (s : State) (a : Action) : Prop :=
  ∀ p, a = .check p → (s.process p).connectionAlive ∨ ¬ (s.process p.other).living

/-- The check keeps it when it has looked at the state before. -/
theorem Held.check (h : Held s) (hlooked : Looked s (.check p))
    (hstep : SharedLock.check p s = some s') :
    Held s' := by
  unfold SharedLock.check at hstep
  split at hstep
  case isTrue => exact h.goOn s.lockingPid hstep ⟨nofun, nofun⟩
  case isFalse hlost =>
    obtain ⟨hliving, hpc, rfl⟩ := goOn_some hstep
    refine h.change (fun _ => hliving) (fun hl => h.owner p hl) (fun _ _ => Iff.rfl)
      (fun _ _ => h.outside p hliving (.inl hpc)) fun _ _ => ?_
    exact (hlooked p rfl).resolve_left fun halive => hlost (.inr halive)

/-- So does the re-initialisation. -/
theorem Held.reinit (h : Held s) (hstep : step s (.reinit p) = some s') : Held s' := by
  obtain ⟨hliving, hpc, rfl⟩ := goOn_some hstep
  have hdepth : (s.process p).depth = 0 := h.outside p hliving (.inr hpc)
  have hbereft := h.bereft p hliving hpc
  refine h.change (fun _ => hliving) (fun _ n => ?_) (fun hl => absurd hl hbereft) (fun _ hpc => ?_)
    fun _ hpc => nomatch hpc
  · show none = some (p, n) ↔ 0 < n ∧ (s.process p).depth = n
    rw [hdepth]
    exact iff_of_false nofun fun ⟨hpos, he⟩ => Nat.ne_of_lt hpos he
  · rcases hpc with hpc | hpc <;> cases hpc

/-- So does the release. -/
theorem Held.release (h : Held s) (hstep : step s (.release p) = some s') : Held s' := by
  obtain ⟨hliving, -, rfl⟩ := goOn_some hstep
  rw [setProcess_setProcess]
  simp only [setProcess, Function.update_self] at hliving ⊢
  refine h.change (fun _ => hliving) (fun _ n => ?_) (fun _ n => unlock_other (other_ne p))
    (fun _ hpc => ?_)
    fun _ hpc => nomatch hpc
  · show _ ↔ 0 < n ∧ (s.process p).depth - 1 = n
    rw [unlock_own, h.owner p hliving]
    omega
  · rcases hpc with hpc | hpc <;> cases hpc

/-- **Step lemma.** Every step keeps the count of holds. -/
theorem Held.next (h : Held s) {a : Action} (hlooked : Looked s a) (hstep : step s a = some s') :
    Held s' := by
  cases a with
  | lock p => exact h.goOn s.lockingPid hstep ⟨nofun, nofun⟩
  | acquire p => exact h.acquire hstep
  | timeOut p => exact h.timeOut hstep
  | check p => exact h.check hlooked hstep
  | reinit p => exact h.reinit hstep
  | writePid p => exact h.goOn _ hstep ⟨nofun, nofun⟩
  | unlock p =>
    simp only [SharedLock.step] at hstep
    split at hstep
    · exact h.goOn _ hstep ⟨nofun, nofun⟩
    · cases hstep
  | release p => exact h.release hstep
  | disconnect p =>
    cases hstep
    exact h.change id (h.owner p) (fun _ _ => Iff.rfl) (h.outside p) (h.bereft p)
  | connect p =>
    cases hstep
    exact h.change id (h.owner p) (fun _ _ => Iff.rfl) (h.outside p) (h.bereft p)
  | die p =>
    cases hstep
    exact h.change nofun nofun (fun _ _ => Iff.rfl) nofun nofun

/-! ## Runs -/

/-- The mutex is taken from the dead alone, and two processes that live are not both inside. -/
structure Exclusive (s : State) : Prop where
  reinit : ∀ p s', step s (.reinit p) = some s' →
    ¬ (s.process p.other).living ∧ ∀ q n, s.mutex = some (q, n) → ¬ (s.process q).living
  apart : (∀ p, (s.process p).living) → ¬ ∀ p, 0 < (s.process p).depth

/-- The count of holds makes the lock exclusive. -/
theorem Held.exclusive (h : Held s) : Exclusive s where
  reinit p s' hstep := by
    obtain ⟨hliving, hpc, -⟩ := goOn_some hstep
    have hbereft := h.bereft p hliving hpc
    refine ⟨hbereft, fun q n hmutex hq => ?_⟩
    rcases eq_or_eq_other p q with rfl | rfl
    · obtain ⟨hpos, hdepth⟩ := (h.owner q hliving n).mp hmutex
      exact Nat.ne_of_gt hpos (hdepth.symm.trans (h.outside q hliving (.inr hpc)))
    · exact hbereft hq
  apart hliving hinside := by
    have hserver := (h.owner .server (hliving _) _).mpr ⟨hinside _, rfl⟩
    have hactivity := (h.owner .activity (hliving _) _).mpr ⟨hinside _, rfl⟩
    cases hserver.symm.trans hactivity

/-- **The lock is held by one process** in a run where no process that has waited too long finds its
connection lost while the other one lives. -/
theorem lock_exclusive {as : List Action} {s : State} (looked : Meets step Looked start as)
    (h : run step start as = some s) : Exclusive s :=
  Held.exclusive (run_induction (fun hheld hok hstep => hheld.next hok hstep) held_start looked h)

/-- The activity dies while it draws. -/
def drawAndDie : List Action :=
  [.lock .activity, .acquire .activity, .writePid .activity, .lock .server, .die .activity,
    .disconnect .server, .timeOut .server, .check .server, .reinit .server, .acquire .server]

/-- The activity's connection is replaced while it draws. -/
def drawAndReconnect : List Action :=
  [.lock .activity, .acquire .activity, .writePid .activity, .lock .server, .disconnect .server,
    .timeOut .server, .check .server, .reinit .server, .acquire .server, .writePid .server]

instance : ∀ s a, Decidable (Looked s a) := fun s a =>
  match a with
  | .check p =>
    decidable_of_iff ((s.process p).connectionAlive ∨ ¬ (s.process p.other).living)
      ⟨fun h _ he => by cases he; exact h, fun h => h p rfl⟩
  | .lock _ | .acquire _ | .timeOut _ | .reinit _ | .writePid _ | .unlock _ | .release _
  | .disconnect _
  | .connect _ | .die _ => .isTrue fun _ he => nomatch he

theorem lock_exclusive_drawAndDie :
    Meets step Looked start drawAndDie ∧ ∃ s, run step start drawAndDie = some s ∧ Exclusive s := by
  have looked : Meets step Looked start drawAndDie := by decide +kernel
  exact ⟨looked, _, rfl, lock_exclusive looked rfl⟩

theorem not_lock_exclusive :
    ∃ s, run step start drawAndReconnect = some s ∧ (∀ p, (s.process p).living) ∧
      ∀ p, 0 < (s.process p).depth := by
  refine ⟨_, rfl, fun p => ?_, fun p => ?_⟩
  all_goals cases p <;> decide

end WinEmulator.Lorie.SharedLock
