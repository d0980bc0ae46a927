import WinEmulator.App.StartEmu

/-!
# The emulator starts once

Both checks look at a field that is set only after suspending work, so what they saw holds only as
long as no other call is on its way there. `closeResources` in turn forgets a process that it has
told to end and that may still run. The law is about calls at the suspensions: those that look for a
rootfs, of which `emuStarted` allows one, and those that start a process, which are counted together
with the process that is set.
-/

set_option autoImplicit false

namespace WinEmulator.App.StartEmu

open WinEmulator.Lib

/-- The emulator was started at most once, one process at most is alive, and the process that the
fields refer to is that one. A process that is alive is on its way there, or was told to end. -/
structure StartsOnce (s : State) : Prop where
  passed : s.passed ≤ 1
  services : s.services ≤ 1
  emuManagers : s.emuManagers ≤ 1
  alive : s.alive.length ≤ 1
  same : s.process = s.processWriter
  refers : ∀ process, s.process = some process → ∀ other ∈ s.alive, other = process
  owned : ∀ process ∈ s.alive,
    s.process = some process ∨ (∃ emu, .started process emu ∈ s.calls) ∨ process ∈ s.destroyed

namespace Call

/-- Between the check of `emuStarted` and the assignment. -/
def choosing : Call → Bool
  | .getSelectedRootfs | .makeCurrent => true
  | _ => false

/-- After the assignment and before the observer. -/
def passing : Call → Bool
  | .waitForX | .start true | .started _ true | .addObserver => true
  | _ => false

def starting : Call → Bool
  | .start _ => true
  | _ => false

def holding : Call → Bool
  | .started _ _ => true
  | _ => false

end Call

/-- No call is between the check of `process` and the assignment, and no process is alive. -/
def Idle (s : State) : Prop :=
  s.calls.countP Call.starting = 0 ∧ s.calls.countP Call.holding = 0 ∧ s.alive = []

instance (s : State) : Decidable (Idle s) := inferInstanceAs (Decidable (_ ∧ _ ∧ _))

/-- A check lets a call pass only while no other is on its way to what the check looks at. -/
def OneAtATime (s : State) : Action → Prop
  | .startEmu => s.emuStarted = false → s.calls.countP Call.choosing = 0
  | .startTerminal => s.process = none → Idle s
  | .resume i _ => s.calls[i]? = some .waitForX → s.process = none → Idle s
  | _ => True

instance (s : State) : ∀ a, Decidable (OneAtATime s a)
  | .startEmu => inferInstanceAs (Decidable (_ → _))
  | .startTerminal => inferInstanceAs (Decidable (_ → _))
  | .resume _ _ => inferInstanceAs (Decidable (_ → _ → _))
  | .read _ | .runCommand | .stopTerminal | .exit _ => inferInstanceAs (Decidable True)

/-- At most one call is on its way to `emuStarted` or was there. -/
structure Emu (s : State) : Prop where
  once : s.calls.countP Call.choosing + s.passed ≤ 1
  unset : s.emuStarted = false → s.passed = 0
  services : s.services ≤ s.passed
  emuManagers : s.emuManagers + s.calls.countP Call.passing ≤ s.passed

/-- At most one call is on its way to `process`, or it is set; and what is alive is the process in
question. -/
structure Terminal (s : State) : Prop where
  once : s.calls.countP Call.starting + s.calls.countP Call.holding + s.process.isSome.toNat ≤ 1
  starting : 0 < s.calls.countP Call.starting → s.alive = []
  holding : ∀ process emu, .started process emu ∈ s.calls → ∀ other ∈ s.alive, other = process
  alive : s.alive.length ≤ 1
  same : s.process = s.processWriter
  refers : ∀ process, s.process = some process → ∀ other ∈ s.alive, other = process
  owned : ∀ process ∈ s.alive,
    s.process = some process ∨ (∃ emu, .started process emu ∈ s.calls) ∨ process ∈ s.destroyed

variable {s s' : State} {a : Action} {i : Nat} {call call' : Call} {process : Process}

/-! ## Calls -/

/-- A call that goes on is counted where it comes to, and no longer where it was. -/
theorem countP_goTo (p : Call → Bool) (h : s.calls[i]? = some call) (call' : Call) :
    (s.goTo i call').calls.countP p + (p call).toNat = s.calls.countP p + (p call').toNat := by
  obtain ⟨hlt, rfl⟩ := List.getElem?_eq_some_iff.mp h
  have hcount : (s.goTo i call').calls.countP p = _ := List.countP_set hlt
  rw [hcount]
  cases hp : p s.calls[i] with
  | false => cases p call' <;> simp
  | true =>
    have hpos : 0 < s.calls.countP p := List.countP_pos_iff.mpr ⟨_, List.getElem_mem hlt, hp⟩
    cases p call' <;> simp <;> omega

/-- The number of calls in some stage after one more call. -/
theorem countP_append (s : State) (call : Call) (p : Call → Bool) :
    (s.calls ++ [call]).countP p = s.calls.countP p + (p call).toNat := by
  cases hp : p call <;> simp [hp]

theorem mem_of_mem_goTo (h : call ∈ (s.goTo i call').calls) (hne : call ≠ call') : call ∈ s.calls :=
  (List.mem_or_eq_of_mem_set h).resolve_right hne

theorem mem_goTo (hmem : call ∈ s.calls) (h : s.calls[i]? = some call') (hne : call ≠ call')
    (next : Call) :
    call ∈ (s.goTo i next).calls := by
  obtain ⟨j, hj⟩ := List.mem_iff_getElem?.mp hmem
  have hij : i ≠ j := by
    rintro rfl
    exact hne (Option.some.inj (hj.symm.trans h))
  refine List.mem_iff_getElem?.mpr ⟨j, ?_⟩
  rw [State.goTo, List.getElem?_set_ne hij]
  exact hj

theorem countP_pos_of_getElem? {p : Call → Bool} (h : s.calls[i]? = some call)
    (hp : p call = true) :
    0 < s.calls.countP p :=
  List.countP_pos_iff.mpr ⟨call, List.mem_of_getElem? h, hp⟩

/-- A reader changes nothing but itself, or closes the resources. -/
theorem of_read {reader : Reader} (h : s.read i reader = some s') :
    ∃ next, s' = s.setReader i next ∨ s' = s.closeResources.setReader i next := by
  cases reader with
  | opening =>
    obtain ⟨-, heq⟩ | ⟨-, heq⟩ := ite_eq_iff.mp (Option.some.inj h)
    · exact ⟨.reading, Or.inl heq.symm⟩
    · exact ⟨.returned, Or.inr heq.symm⟩
  | reading =>
    cases hprocess : s.process with
    | none =>
      simp only [State.read, hprocess] at h
      exact ⟨.returned, Or.inr (Option.some.inj h).symm⟩
    | some process =>
      simp only [State.read, hprocess] at h
      exact ⟨.waitFor process, Or.inl (Option.some.inj h).symm⟩
  | waitFor process =>
    obtain ⟨-, heq⟩ := Option.ite_none_left_eq_some.mp h
    exact ⟨.returned, Or.inr (Option.some.inj heq).symm⟩
  | returned => cases h

/-! ## `startEmu` -/

theorem choosing_endTerminal (emu : Bool) : (State.endTerminal emu).choosing = false := by
  cases emu <;> rfl

theorem passing_endTerminal (emu : Bool) : (State.endTerminal emu).passing = emu := by
  cases emu <;> rfl

theorem choosing_startTerminal (emu : Bool) : (s.startTerminal emu).choosing = false := by
  unfold State.startTerminal
  split
  · exact choosing_endTerminal emu
  · rfl

theorem passing_startTerminal (emu : Bool) : (s.startTerminal emu).passing = emu := by
  unfold State.startTerminal
  split
  · exact passing_endTerminal emu
  · cases emu <;> rfl

namespace Emu

/-- A call that goes on elsewhere than at `emuStarted` and at the observer. -/
theorem goTo (hemu : Emu s) (h : s.calls[i]? = some call) (call' : Call)
    (hchoosing : call'.choosing = true → call.choosing = true)
    (hpassing : call'.passing = true → call.passing = true) : Emu (s.goTo i call') := by
  have hchoosingCount := countP_goTo Call.choosing h call'
  have hpassingCount := countP_goTo Call.passing h call'
  have hchoosingLe : call'.choosing.toNat ≤ call.choosing.toNat := Bool.toNat_le_toNat hchoosing
  have hpassingLe : call'.passing.toNat ≤ call.passing.toNat := Bool.toNat_le_toNat hpassing
  obtain ⟨honce, hunset, hservices, hmanagers⟩ := hemu
  refine ⟨?_, hunset, hservices, ?_⟩
  · change _ + s.passed ≤ 1
    omega
  · change s.emuManagers + _ ≤ s.passed
    omega

/-- A call that goes on keeps the invariant of the starts. -/
theorem resume {outcome : Bool} (hemu : Emu s) (h : s.calls[i]? = some call)
    (hs : s.resume i outcome call = some s') :
    Emu s' := by
  cases call with
  | getSelectedRootfs =>
    obtain rfl := Option.some.inj hs
    refine hemu.goTo h _ (fun _ => rfl) ?_
    cases outcome <;> exact nofun
  | makeCurrent =>
    obtain rfl := Option.some.inj hs
    have hchoosing := countP_goTo Call.choosing h .waitForX
    have hpassing := countP_goTo Call.passing h .waitForX
    obtain ⟨honce, hunset, hservices, hmanagers⟩ := hemu
    simp only [Call.choosing, Call.passing, Bool.toNat_true, Bool.toNat_false] at hchoosing hpassing
    refine ⟨?_, nofun, ?_, ?_⟩
    · change (s.goTo i .waitForX).calls.countP Call.choosing + (s.passed + 1) ≤ 1
      omega
    · exact Nat.add_le_add hservices (Bool.toNat_le outcome)
    · change s.emuManagers + (s.goTo i .waitForX).calls.countP Call.passing ≤ s.passed + 1
      omega
  | waitForX =>
    obtain rfl := Option.some.inj hs
    refine hemu.goTo h _ ?_ fun _ => rfl
    rw [choosing_startTerminal]
    exact nofun
  | start emu =>
    obtain ⟨-, heq⟩ | ⟨-, heq⟩ := ite_eq_iff.mp hs <;> obtain rfl := Option.some.inj heq
    · have hnext := hemu.goTo h (.started s.processes emu) nofun (by cases emu <;> exact id)
      exact ⟨hnext.once, hnext.unset, hnext.services, hnext.emuManagers⟩
    · exact hemu.goTo h _ nofun nofun
  | started process emu =>
    obtain rfl := Option.some.inj hs
    have hnext := hemu.goTo h (State.endTerminal emu) (by rw [choosing_endTerminal]; exact nofun)
      (by rw [passing_endTerminal]; cases emu <;> exact id)
    exact ⟨hnext.once, hnext.unset, hnext.services, hnext.emuManagers⟩
  | addObserver =>
    obtain rfl := Option.some.inj hs
    have hchoosing := countP_goTo Call.choosing h .returned
    have hpassing := countP_goTo Call.passing h .returned
    obtain ⟨honce, hunset, hservices, hmanagers⟩ := hemu
    simp only [Call.choosing, Call.passing, Bool.toNat_true, Bool.toNat_false] at hchoosing hpassing
    refine ⟨?_, hunset, hservices, ?_⟩
    · change (s.goTo i .returned).calls.countP Call.choosing + s.passed ≤ 1
      omega
    · change s.emuManagers + 1 + (s.goTo i .returned).calls.countP Call.passing ≤ s.passed
      omega
  | returned => cases hs

/-- **Step lemma.** One start at a time keeps the invariant of the starts. -/
theorem step (hemu : Emu s) (hone : OneAtATime s a) (h : StartEmu.step s a = some s') : Emu s' := by
  cases a with
  | startEmu =>
    obtain rfl := Option.some.inj h
    unfold State.startEmu
    split
    · exact hemu
    · rename_i hset
      have hunset : s.emuStarted = false := Bool.eq_false_iff.mpr hset
      have hchoosing := countP_append s .getSelectedRootfs Call.choosing
      have hpassing := countP_append s .getSelectedRootfs Call.passing
      have hnone := hone hunset
      have hpassed := hemu.unset hunset
      have hmanagers := hemu.emuManagers
      simp only [Call.choosing, Call.passing, Bool.toNat_true, Bool.toNat_false]
        at hchoosing hpassing
      refine ⟨?_, hemu.unset, hemu.services, ?_⟩
      · change (s.calls ++ [Call.getSelectedRootfs]).countP Call.choosing + s.passed ≤ 1
        omega
      · change s.emuManagers + (s.calls ++ [Call.getSelectedRootfs]).countP Call.passing ≤ s.passed
        omega
  | startTerminal =>
    obtain rfl := Option.some.inj h
    have hchoosing := countP_append s (s.startTerminal false) Call.choosing
    have hpassing := countP_append s (s.startTerminal false) Call.passing
    have honce := hemu.once
    have hmanagers := hemu.emuManagers
    rw [choosing_startTerminal, Bool.toNat_false] at hchoosing
    rw [passing_startTerminal, Bool.toNat_false] at hpassing
    refine ⟨?_, hemu.unset, hemu.services, ?_⟩
    · change (s.calls ++ [s.startTerminal false]).countP Call.choosing + s.passed ≤ 1
      omega
    · change s.emuManagers + (s.calls ++ [s.startTerminal false]).countP Call.passing ≤ s.passed
      omega
  | resume i outcome =>
    obtain ⟨call, hcall, hs⟩ := Option.bind_eq_some_iff.mp h
    exact hemu.resume hcall hs
  | read i =>
    obtain ⟨reader, -, hs⟩ := Option.bind_eq_some_iff.mp h
    obtain ⟨next, rfl | rfl⟩ :=
      of_read hs <;> exact ⟨hemu.once, hemu.unset, hemu.services, hemu.emuManagers⟩
  | runCommand =>
    obtain rfl := Option.some.inj h
    unfold State.runCommand
    split
    · exact ⟨hemu.once, hemu.unset, hemu.services, hemu.emuManagers⟩
    · exact hemu
  | stopTerminal =>
    obtain rfl := Option.some.inj h
    exact ⟨hemu.once, hemu.unset, hemu.services, hemu.emuManagers⟩
  | exit process =>
    obtain ⟨-, heq⟩ := Option.ite_none_right_eq_some.mp h
    obtain rfl := Option.some.inj heq
    exact ⟨hemu.once, hemu.unset, hemu.services, hemu.emuManagers⟩

end Emu

/-! ## `startTerminal` -/

theorem starting_endTerminal (emu : Bool) : (State.endTerminal emu).starting = false := by
  cases emu <;> rfl

theorem holding_endTerminal (emu : Bool) : (State.endTerminal emu).holding = false := by
  cases emu <;> rfl

theorem startTerminal_of_none (h : s.process = none) (emu : Bool) :
    s.startTerminal emu = .start emu := by
  rw [State.startTerminal, h]
  rfl

theorem startTerminal_of_some (h : s.process ≠ none) (emu : Bool) :
    s.startTerminal emu = State.endTerminal emu := by
  rw [State.startTerminal, if_pos (Option.isSome_iff_ne_none.mpr h)]

namespace Terminal

/-- Closing the resources keeps the terminal's invariant. -/
theorem closeResources (hterminal : Terminal s) : Terminal s.closeResources := by
  obtain ⟨honce, hstarting, hholding, halive, hsame, hrefers, howned⟩ := hterminal
  refine ⟨?_, hstarting, hholding, halive, rfl, nofun, fun process hprocess => ?_⟩
  · change s.calls.countP Call.starting + s.calls.countP Call.holding + 0 ≤ 1
    omega
  · obtain hset | hheld | hdestroyed := howned process hprocess
    · refine Or.inr (Or.inr (List.mem_append_right _ ?_))
      rw [hset]
      exact List.mem_singleton_self process
    · exact Or.inr (Or.inl hheld)
    · exact Or.inr (Or.inr (List.mem_append_left _ hdestroyed))

/-- Calls that hold no process and start none may come and go. -/
theorem of_calls {calls : List Call} (hterminal : Terminal s)
    (hstarting : calls.countP Call.starting = s.calls.countP Call.starting)
    (hmem : ∀ process emu, .started process emu ∈ calls ↔ .started process emu ∈ s.calls)
    (hholding : calls.countP Call.holding = s.calls.countP Call.holding) :
    Terminal { s with calls := calls } := by
  refine ⟨?_, ?_, ?_, hterminal.alive, hterminal.same, hterminal.refers, ?_⟩
  · change calls.countP Call.starting + calls.countP Call.holding + s.process.isSome.toNat ≤ 1
    rw [hstarting, hholding]
    exact hterminal.once
  · intro hpos
    exact hterminal.starting (hstarting ▸ hpos)
  · intro process emu hcall
    exact hterminal.holding process emu ((hmem process emu).mp hcall)
  · intro process hprocess
    obtain hset | ⟨emu, hheld⟩ | hdestroyed := hterminal.owned process hprocess
    · exact Or.inl hset
    · exact Or.inr (Or.inl ⟨emu, (hmem process emu).mpr hheld⟩)
    · exact Or.inr (Or.inr hdestroyed)

theorem not_mem_of_countP {calls : List Call} (h : calls.countP Call.holding = 0)
    (process : Process) (emu : Bool) :
    .started process emu ∉ calls := by
  intro hmem
  have hpos : 0 < calls.countP Call.holding := List.countP_pos_iff.mpr ⟨_, hmem, rfl⟩
  omega

/-- A call goes on that neither starts a process nor holds one, before or after. -/
theorem goTo (hterminal : Terminal s) (h : s.calls[i]? = some call) (call' : Call)
    (hstarting : call.starting = false)
    (hholding : call.holding = false) (hstarting' : call'.starting = false)
    (hholding' : call'.holding = false) :
    Terminal (s.goTo i call') := by
  have hstartingCount := countP_goTo Call.starting h call'
  have hholdingCount := countP_goTo Call.holding h call'
  rw [hstarting, hstarting'] at hstartingCount
  rw [hholding, hholding'] at hholdingCount
  refine hterminal.of_calls (Nat.add_right_cancel hstartingCount) (fun process emu => ?_)
    (Nat.add_right_cancel hholdingCount)
  constructor
  · intro hmem
    refine mem_of_mem_goTo hmem ?_
    rintro rfl
    cases hholding'
  · intro hmem
    refine mem_goTo hmem h ?_ call'
    rintro rfl
    cases hholding

/-- A new call keeps the terminal's invariant. -/
theorem append (hterminal : Terminal s) (hstarting : call.starting = false)
    (hholding : call.holding = false) :
    Terminal { s with calls := s.calls ++ [call] } := by
  have hstartingCount := countP_append s call Call.starting
  have hholdingCount := countP_append s call Call.holding
  rw [hstarting] at hstartingCount
  rw [hholding] at hholdingCount
  refine hterminal.of_calls hstartingCount (fun process emu => ?_) hholdingCount
  rw [List.mem_append, List.mem_singleton]
  refine or_iff_left ?_
  rintro rfl
  cases hholding

/-- A call passes the check of `process` while no other is on its way. -/
theorem of_idle {calls : List Call} (hterminal : Terminal s) (hidle : Idle s)
    (hnone : s.process = none)
    (hstarting : calls.countP Call.starting ≤ 1) (hholding : calls.countP Call.holding = 0) :
    Terminal { s with calls := calls } := by
  obtain ⟨-, -, hdead⟩ := hidle
  refine ⟨?_, fun _ => hdead, ?_, hterminal.alive, hterminal.same, hterminal.refers, ?_⟩
  · change calls.countP Call.starting + calls.countP Call.holding + s.process.isSome.toNat ≤ 1
    rw [hholding, hnone]
    exact hstarting
  · intro process emu hmem
    exact absurd hmem (not_mem_of_countP hholding process emu)
  · change ∀ process ∈ s.alive, _
    rw [hdead]
    exact fun process hprocess => absurd hprocess List.not_mem_nil

/-- The call that starts a process is the only one, and nothing is alive. -/
theorem started {emu : Bool} (hterminal : Terminal s) (h : s.calls[i]? = some (.start emu)) :
    Terminal { s.goTo i (.started s.processes emu) with
      processes := s.processes + 1
      alive := s.alive ++ [s.processes] } := by
  have hdead := hterminal.starting (countP_pos_of_getElem? h rfl)
  have hstartingCount := countP_goTo Call.starting h (.started s.processes emu)
  have hholdingCount := countP_goTo Call.holding h (.started s.processes emu)
  have honce := hterminal.once
  simp only [Call.starting, Call.holding, Bool.toNat_true, Bool.toNat_false]
    at hstartingCount hholdingCount
  have hnone : s.process = none := by
    cases hprocess : s.process with
    | none => rfl
    | some process =>
      rw [hprocess, Option.isSome_some, Bool.toNat_true] at honce
      omega
  rw [hdead]
  refine ⟨?_, ?_, ?_, Nat.le_refl 1, hterminal.same, ?_, ?_⟩
  · change (s.goTo i (.started s.processes emu)).calls.countP Call.starting +
      (s.goTo i (.started s.processes emu)).calls.countP Call.holding + s.process.isSome.toNat ≤ 1
    omega
  · change 0 < (s.goTo i (.started s.processes emu)).calls.countP Call.starting → _
    omega
  · intro process emu' hmem other hother
    rw [List.mem_singleton.mp hother]
    by_cases heq : Call.started process emu' = .started s.processes emu
    · cases heq
      rfl
    · exact absurd (mem_of_mem_goTo hmem heq) (not_mem_of_countP (by omega) process emu')
  · intro process hprocess
    exact absurd (hprocess.symm.trans hnone) (Option.some_ne_none process)
  · intro process hprocess
    rw [List.mem_singleton.mp hprocess]
    exact Or.inr (Or.inl ⟨emu, List.mem_set (List.getElem?_eq_some_iff.mp h).1 _⟩)

/-- A process could not be started. -/
theorem thrown {emu : Bool} (hterminal : Terminal s) (h : s.calls[i]? = some (.start emu)) :
    Terminal (s.goTo i .returned) := by
  have hdead := hterminal.starting (countP_pos_of_getElem? h rfl)
  have hstartingCount := countP_goTo Call.starting h .returned
  have hholdingCount := countP_goTo Call.holding h .returned
  have honce := hterminal.once
  simp only [Call.starting, Call.holding, Bool.toNat_true, Bool.toNat_false]
    at hstartingCount hholdingCount
  refine ⟨?_, fun _ => hdead, ?_, hterminal.alive, hterminal.same, hterminal.refers, ?_⟩
  · change (s.goTo i .returned).calls.countP Call.starting + (s.goTo i .returned).calls.countP
      Call.holding +
      s.process.isSome.toNat ≤ 1
    omega
  · intro process emu' hmem
    exact absurd hmem (not_mem_of_countP (by omega) process emu')
  · change ∀ process ∈ s.alive, _
    rw [hdead]
    exact fun process hprocess => absurd hprocess List.not_mem_nil

/-- The call that holds a process is the only one on its way, and the fields are set to its
process. -/
theorem bound {emu : Bool} (hterminal : Terminal s)
    (h : s.calls[i]? = some (.started process emu)) :
    Terminal { s.goTo i (State.endTerminal emu) with
      process := some process
      processWriter := some process
      readers := s.readers ++ [.opening] } := by
  have hstartingCount := countP_goTo Call.starting h (State.endTerminal emu)
  have hholdingCount := countP_goTo Call.holding h (State.endTerminal emu)
  have hown := hterminal.holding process emu (List.mem_of_getElem? h)
  have honce := hterminal.once
  rw [starting_endTerminal] at hstartingCount
  rw [holding_endTerminal] at hholdingCount
  simp only [Call.starting, Call.holding, Bool.toNat_true, Bool.toNat_false]
    at hstartingCount hholdingCount
  refine ⟨?_, ?_, ?_, hterminal.alive, rfl, ?_, ?_⟩
  · change (s.goTo i (State.endTerminal emu)).calls.countP Call.starting +
      (s.goTo i (State.endTerminal emu)).calls.countP Call.holding + 1 ≤ 1
    omega
  · change 0 < (s.goTo i (State.endTerminal emu)).calls.countP Call.starting → _
    omega
  · intro other emu' hmem
    have hnone : (s.goTo i (State.endTerminal emu)).calls.countP Call.holding = 0 := by omega
    exact absurd hmem (not_mem_of_countP hnone other emu')
  · intro other hother
    obtain rfl := Option.some.inj hother
    exact hown
  · intro other hother
    exact Or.inl (congrArg some (hown other hother).symm)

/-- A call that goes on keeps the terminal's invariant. -/
theorem resume {outcome : Bool} (hterminal : Terminal s) (hone : OneAtATime s (.resume i outcome))
    (h : s.calls[i]? = some call) (hs : s.resume i outcome call = some s') : Terminal s' := by
  cases call with
  | getSelectedRootfs =>
    obtain rfl := Option.some.inj hs
    cases outcome <;> exact hterminal.goTo h _ rfl rfl rfl rfl
  | makeCurrent =>
    obtain rfl := Option.some.inj hs
    have hnext := hterminal.goTo h .waitForX rfl rfl rfl rfl
    exact ⟨hnext.once, hnext.starting, hnext.holding, hnext.alive, hnext.same, hnext.refers,
      hnext.owned⟩
  | waitForX =>
    obtain rfl := Option.some.inj hs
    by_cases hnone : s.process = none
    · have hidle := hone h hnone
      have hstartingCount := countP_goTo Call.starting h (.start true)
      have hholdingCount := countP_goTo Call.holding h (.start true)
      rw [hidle.1] at hstartingCount
      rw [hidle.2.1] at hholdingCount
      rw [startTerminal_of_none hnone]
      exact hterminal.of_idle hidle hnone (Nat.le_of_eq hstartingCount) hholdingCount
    · rw [startTerminal_of_some hnone]
      exact hterminal.goTo h _ rfl rfl rfl rfl
  | start emu =>
    obtain ⟨-, heq⟩ | ⟨-, heq⟩ := ite_eq_iff.mp hs <;> obtain rfl := Option.some.inj heq
    · exact hterminal.started h
    · exact hterminal.thrown h
  | started process emu =>
    obtain rfl := Option.some.inj hs
    exact hterminal.bound h
  | addObserver =>
    obtain rfl := Option.some.inj hs
    have hnext := hterminal.goTo h .returned rfl rfl rfl rfl
    exact ⟨hnext.once, hnext.starting, hnext.holding, hnext.alive, hnext.same, hnext.refers,
      hnext.owned⟩
  | returned => cases hs

theorem setReader (hterminal : Terminal s) (reader : Reader) : Terminal (s.setReader i reader) :=
  ⟨hterminal.once, hterminal.starting, hterminal.holding, hterminal.alive, hterminal.same,
    hterminal.refers,
    hterminal.owned⟩

/-- The end of a process keeps the terminal's invariant. -/
theorem exit (hterminal : Terminal s) (process : Process) :
    Terminal { s with alive := s.alive.erase process } := by
  obtain ⟨honce, hstarting, hholding, halive, hsame, hrefers, howned⟩ := hterminal
  have hmem : ∀ {other}, other ∈ s.alive.erase process → other ∈ s.alive := List.mem_of_mem_erase
  refine ⟨honce, fun hpos => ?_, fun held emu hcall other hother =>
    hholding held emu hcall other (hmem hother), ?_, hsame,
    fun held hheld other hother => hrefers held hheld other (hmem hother), fun other hother =>
      howned other (hmem hother)⟩
  · change s.alive.erase process = []
    rw [hstarting hpos]
    rfl
  · exact Nat.le_trans List.erase_sublist.length_le halive

/-- **Step lemma.** One start at a time keeps the terminal's invariant. -/
theorem step (hterminal : Terminal s) (hone : OneAtATime s a) (h : StartEmu.step s a = some s') :
    Terminal s' := by
  cases a with
  | startEmu =>
    obtain rfl := Option.some.inj h
    unfold State.startEmu
    split
    · exact hterminal
    · exact hterminal.append rfl rfl
  | startTerminal =>
    obtain rfl := Option.some.inj h
    by_cases hnone : s.process = none
    · have hidle := hone hnone
      have hstartingCount := countP_append s (.start false) Call.starting
      have hholdingCount := countP_append s (.start false) Call.holding
      rw [hidle.1] at hstartingCount
      rw [hidle.2.1] at hholdingCount
      rw [startTerminal_of_none hnone]
      exact hterminal.of_idle hidle hnone (Nat.le_of_eq hstartingCount) hholdingCount
    · rw [startTerminal_of_some hnone]
      exact hterminal.append rfl rfl
  | resume i outcome =>
    obtain ⟨call, hcall, hs⟩ := Option.bind_eq_some_iff.mp h
    exact hterminal.resume hone hcall hs
  | read i =>
    obtain ⟨reader, -, hs⟩ := Option.bind_eq_some_iff.mp h
    obtain ⟨next, rfl | rfl⟩ := of_read hs
    · exact hterminal.setReader next
    · exact hterminal.closeResources.setReader next
  | runCommand =>
    obtain rfl := Option.some.inj h
    unfold State.runCommand
    split
    · exact hterminal.closeResources
    · exact hterminal
  | stopTerminal =>
    obtain rfl := Option.some.inj h
    exact hterminal.closeResources
  | exit process =>
    obtain ⟨-, heq⟩ := Option.ite_none_right_eq_some.mp h
    obtain rfl := Option.some.inj heq
    exact hterminal.exit process

end Terminal

/-! ## Runs -/

theorem emu_start : Emu start := ⟨Nat.zero_le 1, fun _ => rfl, Nat.le_refl 0, Nat.le_refl 0⟩

theorem terminal_start : Terminal start :=
  ⟨Nat.zero_le 1, fun _ => rfl, fun _ _ hmem => absurd hmem List.not_mem_nil, Nat.zero_le 1,
    rfl, nofun,
    fun _ hmem => absurd hmem List.not_mem_nil⟩

/-- In the states of both invariants a start runs once. -/
theorem startsOnce (hemu : Emu s) (hterminal : Terminal s) : StartsOnce s := by
  obtain ⟨honce, -, hservices, hmanagers⟩ := hemu
  exact ⟨by omega, by omega, by omega, hterminal.alive, hterminal.same, hterminal.refers,
    hterminal.owned⟩

/-- In a run where each check lets a call pass only while no other is on its way, the emulator
starts once. -/
theorem startsOnce_of_oneAtATime {actions : List Action} (h : run step start actions = some s)
    (hone : Meets step OneAtATime start actions) : StartsOnce s := by
  have hpreserved :
      ∀ {s s' a}, Emu s ∧ Terminal s → OneAtATime s a → step s a = some s' → Emu s' ∧ Terminal s' :=
    fun hinv hok hstep => ⟨hinv.1.step hok hstep, hinv.2.step hok hstep⟩
  obtain ⟨hemu, hterminal⟩ := run_induction hpreserved ⟨emu_start, terminal_start⟩ hone h
  exact startsOnce hemu hterminal

/-- `startEmu` goes on from one suspension to the next until it returns. -/
def goesOn (i : Nat) : List Action := List.replicate 6 (.resume i true)

/-- The emulator is started and closed, the process exits, and the terminal is started again. -/
def startedTwice : List Action :=
  .startEmu :: goesOn 0 ++ [.startEmu, .startTerminal, .stopTerminal, .exit 0, .startTerminal,
    .resume 2 true, .resume 2 true]

theorem startedTwice_startsOnce :
    ∃ s, run step start startedTwice = some s ∧ s.processes = 2 ∧ StartsOnce s := by
  have hrun : ∃ s, run step start startedTwice = some s ∧ s.processes = 2 := ⟨_, rfl, rfl⟩
  obtain ⟨s, hrun, hprocesses⟩ := hrun
  have hone : Meets step OneAtATime start startedTwice := by decide
  exact ⟨s, hrun, hprocesses, startsOnce_of_oneAtATime hrun hone⟩

/-- Two calls see that the emulator is not started. -/
def twoStarts : List Action :=
  .startEmu :: .startEmu :: (List.replicate 6 [Action.resume 0 true, .resume 1 true]).flatten

/-- The X server is started twice, and two processes are alive. -/
theorem twoStarts_not_startsOnce :
    ¬∀ actions s, run step start actions = some s → StartsOnce s := by
  intro h
  have hrun : ∃ s, run step start twoStarts = some s ∧ s.services = 2 ∧ s.alive = [0, 1] :=
    ⟨_, rfl, rfl, rfl⟩
  obtain ⟨s, hrun, hservices, -⟩ := hrun
  have honce := (h twoStarts s hrun).services
  omega

end WinEmulator.App.StartEmu
