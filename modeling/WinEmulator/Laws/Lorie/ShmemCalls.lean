import WinEmulator.Laws.Lorie.ShmemKeys

/-!
# Calls with one key

A call of `shmget` with a key holds the mutex of its process while it asks another process, whose
thread takes that process's own mutex to answer. So a call returns as soon as it has taken a few
steps, and it can always take the next one unless the process it asks is in a call itself. Processes
that wait for each other in a circle stay so.
-/

set_option autoImplicit false

namespace WinEmulator.Lorie.Shmem

open WinEmulator.Lib

variable {Proc Addr : Type}

/-! ## How far a call has come -/

/-- The call that holds the mutex of a process. -/
def State.call (s : State Proc Addr) (p : Proc) : Option Holder := (s.procs p).bind Process.holder

/-- The process whose thread is to answer the call. -/
def State.waitsFor (s : State Proc Addr) (p : Proc) : Option Proc :=
  (s.call p).bind fun
    | .read shmid _ => s.socket (ashv_socket_id_from_shmid shmid)
    | _ => none

/-- The key of a call of `shmget`. -/
def Holder.key : Holder → Option Int
  | .readlink call | .unlink call | .symlink call | .read _ (.shmget call)
  | .received _ (.shmget call) _ => some call.key
  | .read _ .shmat | .received _ .shmat _ => none

/-- How many more steps a call takes at most. -/
def Holder.rank (link : Int → Option Int) : Holder → Nat
  | .readlink call => if (link call.key).isSome = true then 3 else 5
  | .symlink _ | .unlink _ => 4
  | .read _ _ => 2
  | .received _ _ _ => 1

/-- The steps of a call that is under way in a process. -/
def Action.advances [DecidableEq Proc] (p : Proc) : Action Proc Addr → Bool
  | .readlink q | .unlink q | .symlink q _ | .answer q | .fail q | .received q _ => q = p
  | .exec _ | .fork _ _ | .exit _ _ | .bind _ _ | .shmget _ _ _ _ | .shmat _ _ _ | .shmdt _ _
  | .rmid _ _ => false

/-- A call with a key that takes so many more steps at most. -/
def Calling (s : State Proc Addr) (p : Proc) (key : Int) (n : Nat) : Prop :=
  ∃ holder, s.call p = some holder ∧ holder.key = some key ∧ holder.rank s.link ≤ n

/-- The mutex is free, and what was returned last is an id for the key. -/
def Returned (s : State Proc Addr) (p : Proc) (key : Int) : Prop :=
  s.call p = none ∧ ∃ id, s.returned.getLast? = some (key, id)

theorem call_eq_iff {s : State Proc Addr} {p : Proc} {holder : Holder} :
    s.call p = some holder ↔ ∃ process, s.procs p = some process ∧ process.holder = some holder :=
  Option.bind_eq_some_iff

variable [DecidableEq Proc]

theorem call_set_self (s : State Proc Addr) (p : Proc) (process : Process Addr) :
    (s.set p process).call p = process.holder := by
  simp only [State.call, State.set, Function.update_self, Option.bind_some]

theorem call_set (s : State Proc Addr) {p q : Proc} {process : Process Addr}
    (h : q = p → process.holder = s.call p) :
    (s.set q process).call p = s.call p := by
  by_cases hqp : q = p
  · rw [← h hqp, hqp, call_set_self]
  · simp only [State.call, State.set, Function.update_of_ne (Ne.symm hqp)]

theorem returned_found (s : State Proc Addr) (p : Proc) (process : Process Addr) (key shmid : Int) :
    Returned (s.found p process key shmid) p key :=
  ⟨call_set_self s p { process with holder := none }, shmid, List.getLast?_concat⟩

theorem returned_create (s : State Proc Addr) (p : Proc) (process : Process Addr) (shmid key : Int)
    (size : Nat) :
    Returned (s.create p process shmid key size true) p key := by
  rw [State.create, if_pos rfl]
  refine ⟨?_, shmid, List.getLast?_concat⟩
  simp only [State.call, Function.update_self, Option.bind_some]

/-! ## Other processes -/

/-- What the steps of a process leave alone. -/
structure Frame (s s' : State Proc Addr) (q : Proc) : Prop where
  link : ∀ key id, s.link key = some id → s'.link key = some id
  socket : s'.socket = s.socket
  call : ∀ p, q ≠ p → s'.call p = s.call p

/-- Changing one process leaves the other calls alone. -/
theorem frame_set (s : State Proc Addr) (q : Proc) (process : Process Addr) :
    Frame s (s.set q process) q :=
  ⟨fun _ _ hlink => hlink, rfl, fun _ hqp => call_set s fun heq => absurd heq hqp⟩

theorem frame_found (s : State Proc Addr) (q : Proc) (process : Process Addr) (key shmid : Int) :
    Frame s (s.found q process key shmid) q :=
  ⟨fun _ _ hlink => hlink, rfl, fun _ hqp => call_set s fun heq => absurd heq hqp⟩

/-- So does a creation. -/
theorem frame_create (s : State Proc Addr) (q : Proc) (process : Process Addr) (shmid key : Int)
    (size : Nat) (made : Bool) :
    Frame s (s.create q process shmid key size made) q := by
  unfold State.create
  split
  · exact ⟨fun _ _ hlink => hlink, rfl,
      fun _ hqp => by simp only [State.call, Function.update_of_ne hqp.symm]⟩
  · exact frame_set s q _

/-- So does following a link. -/
theorem frame_readlink (s : State Proc Addr) (q : Proc) (process : Process Addr) (call : Keyed) :
    Frame s (readlink s q process call) q := by
  unfold readlink
  split
  · exact frame_set s q _
  · split
    · exact frame_set s q _
    · split
      · exact frame_found s q process _ _
      · exact frame_set s q _

/-- So does making one. -/
theorem frame_symlink (getpagesize : Nat) (s : State Proc Addr) (q : Proc) (process : Process Addr)
    (call : Keyed)
    (made : Bool) : Frame s (symlink getpagesize s q process call made) q := by
  unfold symlink
  dsimp only
  split
  · next hnone =>
    generalize (call.shmid.elim (mint process) fun shmid => (process, shmid)) = minted
    have hcreate :=
      frame_create { s with link := Function.update s.link call.key (some minted.2) } q minted.1
      minted.2
      call.key (ROUND_UP call.size getpagesize) made
    refine ⟨fun key id hlink => hcreate.link key id ?_, hcreate.socket, hcreate.call⟩
    have hne : key ≠ call.key := fun heq => by rw [heq, hnone] at hlink; cases hlink
    exact (Function.update_of_ne hne _ _).trans hlink
  · exact frame_set s q _

variable [DecidableEq Addr]

/-- So does taking an answer. -/
theorem frame_received (s : State Proc Addr) (q : Proc) (process : Process Addr) (shmid : Int)
    (caller : Caller)
    (answer : Option (Int × Region)) (mmap : Option Addr) :
    Frame s (received s q process shmid caller answer mmap) q := by
  unfold received
  split
  · exact frame_found s q _ _ _
  · exact frame_set s q _
  · exact frame_set s q _
  · exact frame_set s q _

variable {getpagesize : Nat} {s s' : State Proc Addr} {a : Action Proc Addr} {p : Proc} {key : Int}

/-- A link stays. -/
theorem link_step (h : Sound getpagesize s) (hreliable : Reliable getpagesize s a)
    (hstep : step getpagesize s a = some s') {id : Int} (hlink : s.link key = some id) :
    s'.link key = some id := by
  cases step_cases hstep with
  | @unlink q process _ hprocess hholder =>
    exact ((h.keys.procs q process hprocess).holder _ hholder).elim
  | readlink _ _ => exact (frame_readlink s _ _ _).link key id hlink
  | symlink _ _ _ => exact (frame_symlink getpagesize s _ _ _ _).link key id hlink
  | received _ _ _ => exact (frame_received s _ _ _ _ _ _).link key id hlink
  | privateSegment _ _ _ _ _ => exact (frame_create s _ _ _ _ _ _).link key id hlink
  | exit _ _ => exact hreliable.elim
  | _ => exact hlink

/-- A socket keeps its listener. -/
theorem socket_step (hreliable : Reliable getpagesize s a) (hstep : step getpagesize s a = some s')
    {id : Int} {q : Proc}
    (hsocket : s.socket id = some q) : s'.socket id = some q := by
  cases step_cases hstep with
  | @bound p process pid new _ _ hfound =>
    have hunbound : s.socket new = none := by simpa using List.find?_some hfound
    have hne : id ≠ new := fun heq => by rw [heq, hunbound] at hsocket; cases hsocket
    exact (Function.update_of_ne hne _ _).trans hsocket
  | readlink _ _ => exact (frame_readlink s _ _ _).socket ▸ hsocket
  | symlink _ _ _ => exact (frame_symlink getpagesize s _ _ _ _).socket ▸ hsocket
  | received _ _ _ => exact (frame_received s _ _ _ _ _ _).socket ▸ hsocket
  | privateSegment _ _ _ _ _ => exact (frame_create s _ _ _ _ _ _).socket ▸ hsocket
  | exit _ _ => exact hreliable.elim
  | _ => exact hsocket

/-- A call goes on only with its own steps. -/
theorem call_step (hreliable : Reliable getpagesize s a) (hstep : step getpagesize s a = some s')
    (hother : a.advances p = false) {holder : Holder} (hcall : s.call p = some holder) :
    s'.call p = some holder := by
  rw [← hcall]
  have hbusy : ∀ q process, s.procs q = some process → process.holder = none → q ≠ p := by
    rintro q process hprocess hfree rfl
    rw [State.call, hprocess, Option.bind_some, hfree] at hcall
    cases hcall
  have hthere : ∀ q, s.procs q = none → q ≠ p := by
    rintro q hnew rfl
    rw [State.call, hnew] at hcall
    cases hcall
  cases step_cases hstep with
  | @exec q hnew => exact (frame_set s q _).call p (hthere q hnew)
  | @fork q child _ _ hnew => exact (frame_set s child _).call p (hthere child hnew)
  | exit _ _ => exact hreliable.elim
  | rmid _ _ _ => exact hreliable.elim
  | @bound q process pid id hprocess _ _ =>
    have hset :
        (s.set q { process with ashv_local_socket_id := id, listening := true }).call p =
          s.call p :=
      call_set s fun heq => by rw [← heq, State.call, hprocess, Option.bind_some]
    exact hset
  | @unbound q process pid hprocess _ =>
    refine call_set s fun heq => ?_
    rw [← heq, State.call, hprocess, Option.bind_some]
  | @privateSegment q process _ _ hprocess hfree _ =>
    exact (frame_create s q _ _ _ _ _).call p (hbusy q process hprocess hfree)
  | @keyed q process _ _ _ hprocess hfree _ _ =>
    exact (frame_set s q _).call p (hbusy q process hprocess hfree)
  | readlink _ _ => exact (frame_readlink s _ _ _).call p (of_decide_eq_false hother)
  | @unlink q process call _ _ =>
    exact (frame_set s q { process with holder := some (.symlink call) }).call p
      (of_decide_eq_false hother)
  | symlink _ _ _ => exact (frame_symlink getpagesize s _ _ _ _).call p (of_decide_eq_false hother)
  | answer _ _ _ _ _ => exact (frame_set s _ _).call p (of_decide_eq_false hother)
  | fail _ _ => exact (frame_set s _ _).call p (of_decide_eq_false hother)
  | received _ _ _ => exact (frame_received s _ _ _ _ _ _).call p (of_decide_eq_false hother)
  | @attached q process _ _ hprocess hfree _ =>
    exact (frame_set s q _).call p (hbusy q process hprocess hfree)
  | @asks q process _ _ hprocess hfree _ =>
    exact (frame_set s q _).call p (hbusy q process hprocess hfree)
  | nothing _ _ _ => rfl
  | @shmdt q process _ hprocess hfree =>
    exact (frame_set s q _).call p (hbusy q process hprocess hfree)

/-! ## The steps of a call -/

/-- A call has a step left. -/
theorem rank_pos (link : Int → Option Int) (holder : Holder) : 0 < holder.rank link := by
  cases holder with
  | readlink call =>
    simp only [Holder.rank]
    split <;> omega
  | _ => exact Nat.succ_pos _

/-- A call has at most five steps to go. -/
theorem rank_le (link : Int → Option Int) (holder : Holder) : holder.rank link ≤ 5 := by
  cases holder with
  | readlink call =>
    simp only [Holder.rank]
    split <;> omega
  | symlink call => exact Nat.le_succ 4
  | unlink call => exact Nat.le_succ 4
  | read shmid caller => exact Nat.le_add_right 2 3
  | received shmid caller answer => exact Nat.le_add_right 1 4

/-- A step takes a call on, or is its last. -/
def GoesOn (s s' : State Proc Addr) (p : Proc) (key : Int) (holder : Holder) : Prop :=
  Returned s' p key ∨ ∃ next, s'.call p = some next ∧ next.key = some key ∧
    next.rank s'.link < holder.rank s.link

omit [DecidableEq Addr] in
/-- A call that follows the link comes closer to its return. -/
theorem goesOn_readlink (h : Sound getpagesize s) {process : Process Addr} {call : Keyed} :
    GoesOn s (readlink s p process call) p call.key (.readlink call) := by
  unfold readlink
  split
  next hnone =>
    refine .inr ⟨_, call_set_self _ _ _, rfl, ?_⟩
    simp only [Holder.rank, hnone, Option.isSome_none, Bool.false_eq_true, if_false]
    omega
  next shmid hlink =>
    obtain ⟨_, _, _, _, _, hnonzero, _⟩ := h.keys.owner h.owner hlink
    rw [if_neg hnonzero]
    split
    · exact .inl (returned_found s p process call.key shmid)
    · refine .inr ⟨_, call_set_self _ _ _, rfl, ?_⟩
      simp only [Holder.rank, hlink, Option.isSome_some, if_true]
      omega

omit [DecidableEq Addr] in
/-- A call that makes the link comes closer to its return. -/
theorem goesOn_symlink {process : Process Addr} {call : Keyed} :
    GoesOn s (symlink getpagesize s p process call true) p call.key (.symlink call) := by
  unfold symlink
  dsimp only
  split
  · exact .inl (returned_create _ _ _ _ _ _)
  next id hlink =>
    refine .inr ⟨_, call_set_self _ _ _, rfl, ?_⟩
    simp only [Holder.rank, State.set, hlink, Option.isSome_some, if_true]
    omega

/-- A call that gets the segment returns. -/
theorem returned_received {process : Process Addr} {shmid : Int} {call : Keyed}
    {answer : Option (Int × Region)}
    (hread : (ashv_read_remote_segment s.regions shmid answer : Option (shmem_t Addr)) ≠ none)
    (mmap : Option Addr) :
    Returned (received s p process shmid (.shmget call) answer mmap) p call.key := by
  obtain ⟨segment, hsegment⟩ := Option.ne_none_iff_exists'.mp hread
  unfold received
  rw [hsegment]
  exact returned_found s p { process with shmem := process.shmem ++ [segment] } call.key shmid

omit [DecidableEq Proc] [DecidableEq Addr] in
/-- The region that the owner has given has a size. -/
theorem read_remote_of_follows (hi : Inv s) {shmid : Int} {call : Keyed}
    {answer : Option (Int × Region)}
    (hfollows : (Holder.received shmid (.shmget call) answer).Follows getpagesize s) :
    (ashv_read_remote_segment s.regions shmid answer : Option (shmem_t Addr)) ≠ none := by
  obtain ⟨_, c, hc, rfl, hsize⟩ := hfollows
  exact read_remote_of_tellable ((hi.getD_regions hc).symm ▸ hsize)

/-- **Step lemma.** A call that may go on comes closer to its return. -/
theorem goesOn_of_advances (h : Sound getpagesize s) (hreliable : Reliable getpagesize s a)
    (hstep : step getpagesize s a = some s') (hadvances : a.advances p = true) {holder : Holder}
    (hcall : s.call p = some holder) (hkey : holder.key = some key) : GoesOn s s' p key holder := by
  obtain ⟨process, hprocess, hholder⟩ := call_eq_iff.mp hcall
  have hfollows := (h.keys.procs p process hprocess).holder holder hholder
  have hsame :
      ∀ {q : Proc} {found : Process Addr} {next : Holder}, s.procs q = some found →
        found.holder = some next →
      decide (q = p) = true → q = p ∧ next = holder := by
    intro q found next hfound hnext hqp
    obtain rfl := of_decide_eq_true hqp
    obtain rfl := Option.some.inj (hfound.symm.trans hprocess)
    exact ⟨rfl, Option.some.inj (hnext.symm.trans hholder)⟩
  cases step_cases hstep with
  | readlink hq hcalls =>
    obtain ⟨rfl, rfl⟩ := hsame hq hcalls hadvances
    obtain rfl := Option.some.inj hkey
    exact goesOn_readlink h
  | unlink hq hcalls =>
    obtain ⟨rfl, rfl⟩ := hsame hq hcalls hadvances
    exact hfollows.elim
  | @symlink q found call made hq hcalls =>
    obtain ⟨rfl, rfl⟩ := hsame hq hcalls hadvances
    obtain rfl := Option.some.inj hkey
    obtain rfl : made = true := hreliable
    exact goesOn_symlink
  | @answer q owner found asked shmid caller hq hcalls _ _ _ =>
    obtain ⟨rfl, rfl⟩ := hsame hq hcalls hadvances
    refine .inr ⟨_, call_set_self _ _ _, ?_, Nat.lt_succ_self 1⟩
    cases caller with
    | shmget call => exact hkey
    | shmat => cases hkey
  | @fail q found shmid caller hq hcalls =>
    obtain ⟨rfl, rfl⟩ := hsame hq hcalls hadvances
    have hunbound := hreliable.unbound hq hcalls
    cases caller with
    | shmat => cases hkey
    | shmget call =>
      obtain ⟨c, _, _, _, _, _, hsocket, _⟩ := h.keys.owner h.owner hfollows.2
      rw [hsocket] at hunbound
      cases hunbound
  | @received q found shmid caller answer mmap hq hcalls _ =>
    obtain ⟨rfl, rfl⟩ := hsame hq hcalls hadvances
    cases caller with
    | shmat => cases hkey
    | shmget call =>
      obtain rfl := Option.some.inj hkey
      exact .inl (returned_received (read_remote_of_follows h.inv hfollows) mmap)
  | exec _ => cases hadvances
  | fork _ _ => cases hadvances
  | exit _ _ => cases hadvances
  | bound _ _ _ => cases hadvances
  | unbound _ _ => cases hadvances
  | privateSegment _ _ _ _ _ => cases hadvances
  | keyed _ _ _ _ _ _ => cases hadvances
  | attached _ _ _ _ => cases hadvances
  | asks _ _ _ _ => cases hadvances
  | nothing _ _ _ => cases hadvances
  | shmdt _ _ _ => cases hadvances
  | rmid _ _ _ => cases hadvances

/-- After a step of its own the call has returned or has one step fewer to go. -/
theorem calling_advance (h : Sound getpagesize s) (hreliable : Reliable getpagesize s a)
    (hstep : step getpagesize s a = some s') (hadvances : a.advances p = true) {n : Nat}
    (hcalling : Calling s p key (n + 1)) :
    Returned s' p key ∨ Calling s' p key n := by
  obtain ⟨holder, hcall, hkey, hrank⟩ := hcalling
  refine (goesOn_of_advances h hreliable hstep hadvances hcall hkey).imp_right ?_
  rintro ⟨next, hnext, hnextKey, hless⟩
  exact ⟨next, hnext, hnextKey, Nat.le_of_lt_succ (Nat.lt_of_lt_of_le hless hrank)⟩

/-- The steps of others do not take it back. -/
theorem calling_other (h : Sound getpagesize s) (hreliable : Reliable getpagesize s a)
    (hstep : step getpagesize s a = some s') (hother : a.advances p = false) {n : Nat}
    (hcalling : Calling s p key n) :
    Calling s' p key n := by
  obtain ⟨holder, hcall, hkey, hrank⟩ := hcalling
  refine ⟨holder, call_step hreliable hstep hother hcall, hkey, Nat.le_trans ?_ hrank⟩
  cases holder with
  | readlink call =>
    simp only [Holder.rank]
    cases hlink : s.link call.key with
    | none =>
      rw [Option.isSome_none, if_neg Bool.false_ne_true]
      split <;> omega
    | some id => simp only [link_step h hreliable hstep hlink, Nat.le_refl]
  | _ => exact Nat.le_refl _

/-- A call that has taken all its steps has returned. -/
theorem returned_of_steps (h : Sound getpagesize s) {as : List (Action Proc Addr)} {n : Nat}
    (hcalling : Calling s p key n) (hrun : run (step getpagesize) s as = some s')
    (hmeets : Meets (step getpagesize) (fun s a => FreshId s a ∧ Reliable getpagesize s a) s as)
    (hsteps : n ≤ as.countP (Action.advances p)) :
    ∃ before after t, as = before ++ after ∧ run (step getpagesize) s before = some t ∧
      Returned t p key := by
  induction as generalizing s n with
  | nil =>
    obtain ⟨holder, _, _, hrank⟩ := hcalling
    exact absurd (Nat.lt_of_lt_of_le (rank_pos s.link holder) (Nat.le_trans hrank hsteps))
      (Nat.lt_irrefl 0)
  | cons a as ih =>
    obtain ⟨mid, hstep, hrest⟩ := run_cons.mp hrun
    obtain ⟨hok, hmeets⟩ := hmeets
    have hsound := h.step hok hstep
    have hprepend :
        (∃ before after t, as = before ++ after ∧ run (step getpagesize) mid before = some t ∧
          Returned t p key) →
        ∃ before after t, a :: as = before ++ after ∧ run (step getpagesize) s before = some t ∧
            Returned t p key := by
      rintro ⟨before, after, t, rfl, hbefore, hreturned⟩
      exact ⟨a :: before, after, t, rfl, run_cons.mpr ⟨mid, hstep, hbefore⟩, hreturned⟩
    cases hadvances : a.advances p with
    | false =>
      rw [List.countP_cons_of_neg (by simp [hadvances])] at hsteps
      exact hprepend
        (ih hsound (calling_other h hok.2 hstep hadvances hcalling) hrest (hmeets mid hstep) hsteps)
    | true =>
      rw [List.countP_cons_of_pos hadvances] at hsteps
      have hpos : 0 < n := by
        obtain ⟨holder, _, _, hrank⟩ := hcalling
        exact Nat.lt_of_lt_of_le (rank_pos s.link holder) hrank
      obtain ⟨n, rfl⟩ := Nat.exists_eq_succ_of_ne_zero (Nat.pos_iff_ne_zero.mp hpos)
      rcases calling_advance h hok.2 hstep hadvances hcalling with hreturned | hcalling
      · exact ⟨[a], as, mid, rfl, run_cons.mpr ⟨mid, hstep, rfl⟩, hreturned⟩
      · exact hprepend (ih hsound hcalling hrest (hmeets mid hstep) (Nat.le_of_succ_le_succ hsteps))

/-- A call can take its next step, unless it waits for a process that is in a call. -/
theorem waits_or_advances (h : Sound getpagesize s) {n : Nat} (hcalling : Calling s p key n) :
    (∃ q, s.waitsFor p = some q ∧ (s.call q).isSome = true) ∨
      ∃ a, a.advances p = true ∧ (step getpagesize s a).isSome = true ∧
        Reliable getpagesize s a := by
  obtain ⟨holder, hcall, hkey, _⟩ := hcalling
  obtain ⟨process, hprocess, hholder⟩ := call_eq_iff.mp hcall
  have hheld : s.holder p = some (process, holder) := by
    simp only [State.holder, hprocess, Option.bind_some, hholder, Option.map_some]
  have hfollows := (h.keys.procs p process hprocess).holder holder hholder
  cases holder with
  | readlink call =>
    exact .inr ⟨.readlink p, decide_eq_true rfl, by simp [Shmem.step, hheld], trivial⟩
  | unlink call => exact hfollows.elim
  | symlink call =>
    exact .inr ⟨.symlink p true, decide_eq_true rfl, by simp [Shmem.step, hheld], rfl⟩
  | received shmid caller answer =>
    refine .inr ⟨.received p none, decide_eq_true rfl, ?_, trivial⟩
    simp [Shmem.step, hheld, Unmapped]
  | read shmid caller =>
    cases caller with
    | shmat => cases hkey
    | shmget call =>
      obtain ⟨c, hc, hid, _, _, _, hsocket, asked, hasked, hlistening, hlocal, e, he, heid, _⟩ :=
        h.keys.owner h.owner hfollows.2
      cases hbusy : asked.holder with
      | some next =>
        refine .inl ⟨c.creator, ?_, ?_⟩
        · rw [State.waitsFor, hcall, Option.bind_some]
          exact hsocket
        · rw [State.call, hasked, Option.bind_some, hbusy]
          rfl
      | none =>
        have hfree : s.free c.creator = some asked := by
          simp only [State.free, hasked, Option.filter_some, hbusy, Option.isNone_none, if_true]
        have hfound : ashv_find_local_index shmid asked.shmem = some e := by
          rw [← hid, ← heid]
          exact find_of_mem (h.inv.procs _ asked hasked).apart he
        refine .inr ⟨.answer p, decide_eq_true rfl, ?_, trivial⟩
        rw [step_answer hheld hsocket hfree hlistening (hid ▸ hlocal) hfound]
        rfl

/-! ## Circles -/

/-- Processes that wait for each other. -/
def Circle (s : State Proc Addr) (D : Proc → Prop) : Prop :=
  ∀ p, D p → ∃ q, s.waitsFor p = some q ∧ D q

/-- A process that waits goes on when the other one is in no call, or nobody listens. -/
theorem read_advances (hstep : step getpagesize s a = some s') (hadvances : a.advances p = true)
    {shmid : Int}
    {caller : Caller} (hcall : s.call p = some (.read shmid caller)) :
    (∃ q, s.socket (ashv_socket_id_from_shmid shmid) = some q ∧ s.call q = none) ∨ a = .fail p := by
  obtain ⟨process, hprocess, hholder⟩ := call_eq_iff.mp hcall
  have hsame :
      ∀ {q : Proc} {found : Process Addr} {next : Holder}, s.procs q = some found →
        found.holder = some next →
      decide (q = p) = true → q = p ∧ next = .read shmid caller := by
    intro q found next hfound hnext hqp
    obtain rfl := of_decide_eq_true hqp
    obtain rfl := Option.some.inj (hfound.symm.trans hprocess)
    exact ⟨rfl, Option.some.inj (hnext.symm.trans hholder)⟩
  cases step_cases hstep with
  | readlink hq hcalls => cases (hsame hq hcalls hadvances).2
  | unlink hq hcalls => cases (hsame hq hcalls hadvances).2
  | symlink _ hq hcalls => cases (hsame hq hcalls hadvances).2
  | received hq hcalls _ => cases (hsame hq hcalls hadvances).2
  | @answer q owner found asked _ _ hq hcalls hbound hasked hfree =>
    obtain ⟨rfl, heq⟩ := hsame hq hcalls hadvances
    cases heq
    refine .inl ⟨owner, hbound, ?_⟩
    rw [State.call, hasked, Option.bind_some, hfree]
  | fail hq hcalls =>
    obtain ⟨rfl, -⟩ := hsame hq hcalls hadvances
    exact .inr rfl
  | exec _ => cases hadvances
  | fork _ _ => cases hadvances
  | exit _ _ => cases hadvances
  | bound _ _ _ => cases hadvances
  | unbound _ _ => cases hadvances
  | privateSegment _ _ _ _ _ => cases hadvances
  | keyed _ _ _ _ _ _ => cases hadvances
  | attached _ _ _ _ => cases hadvances
  | asks _ _ _ _ => cases hadvances
  | nothing _ _ _ => cases hadvances
  | shmdt _ _ _ => cases hadvances
  | rmid _ _ _ => cases hadvances

/-- No step opens a circle. -/
theorem circle_step {D : Proc → Prop} (h : Circle s D) (hreliable : Reliable getpagesize s a)
    (hstep : step getpagesize s a = some s') : Circle s' D ∧ ∀ p, D p → s'.call p = s.call p := by
  have hkept : ∀ p, D p → s'.call p = s.call p := by
    intro p hp
    obtain ⟨q, hwaits, hq⟩ := h p hp
    obtain ⟨holder, hcall, hsocket⟩ := Option.bind_eq_some_iff.mp hwaits
    cases hadvances : a.advances p with
    | false => exact (call_step hreliable hstep hadvances hcall).trans hcall.symm
    | true =>
      cases holder with
      | read shmid caller =>
        obtain ⟨_, hwaits', _⟩ := h q hq
        obtain ⟨_, hcall', _⟩ := Option.bind_eq_some_iff.mp hwaits'
        obtain ⟨q', hsocket', hfree⟩ | rfl := read_advances hstep hadvances hcall
        · obtain rfl : q = q' := Option.some.inj (hsocket.symm.trans hsocket')
          rw [hfree] at hcall'
          cases hcall'
        · obtain ⟨process, hprocess, hholder⟩ := call_eq_iff.mp hcall
          have hunbound := hreliable.unbound hprocess hholder
          rw [Option.isNone_iff_eq_none] at hunbound
          cases hsocket.symm.trans hunbound
      | _ => cases hsocket
  refine ⟨fun p hp => ?_, hkept⟩
  obtain ⟨q, hwaits, hq⟩ := h p hp
  obtain ⟨holder, hcall, hsocket⟩ := Option.bind_eq_some_iff.mp hwaits
  refine ⟨q, Option.bind_eq_some_iff.mpr ⟨holder, (hkept p hp).trans hcall, ?_⟩, hq⟩
  cases holder with
  | read shmid caller => exact socket_step hreliable hstep hsocket
  | _ => cases hsocket

/-- In a circle of calls that wait for one another none goes on. -/
theorem circle_run {D : Proc → Prop} {as : List (Action Proc Addr)} (h : Circle s D)
    (hrun : run (step getpagesize) s as = some s')
    (hmeets : Meets (step getpagesize) (fun s a => FreshId s a ∧ Reliable getpagesize s a) s as) :
    ∀ p, D p → s'.call p = s.call p := by
  have hstays : ∀ {t t' : State Proc Addr} {a}, Circle t D ∧ (∀ p, D p → t.call p = s.call p) →
      FreshId t a ∧ Reliable getpagesize t a → step getpagesize t a = some t' →
      Circle t' D ∧ ∀ p, D p → t'.call p = s.call p := by
    rintro t t' a ⟨hcircle, hcall⟩ hok hstep
    obtain ⟨hcircle', hcall'⟩ := circle_step hcircle hok.2 hstep
    exact ⟨hcircle', fun p hp => (hcall' p hp).trans (hcall p hp)⟩
  exact (run_induction hstays ⟨h, fun _ _ => rfl⟩ hmeets hrun).2

/-! ## Runs -/

/-- **Whatever processes call `shmget` with a key, at the same time or not, and however their steps
follow each other: as long as nothing goes wrong, all that return are given the id of one segment,
the only one that is made with the key.** A call has returned after five steps at most, and it can
take the next one unless the process it asks is in a call itself; processes that wait for each other
in a circle never return. -/
theorem one_segment_for_key {s : State Proc Addr} {actions : List (Action Proc Addr)}
    (h : run (step getpagesize) start actions = some s)
    (hmeets : Meets (step getpagesize) (fun s a => FreshId s a ∧ Reliable getpagesize s a) start
      actions) :
    (∀ key id, key ≠ 0 → (key, id) ∈ s.returned →
      ∃ c ∈ s.created, c.key = key ∧ c.id = id ∧ ∀ d ∈ s.created, d.key = key → d = c) ∧
    (∀ p key, (s.call p).bind Holder.key = some key →
      (∀ as s', run (step getpagesize) s as = some s' →
        Meets (step getpagesize) (fun s a => FreshId s a ∧ Reliable getpagesize s a) s as →
        5 ≤ as.countP (Action.advances p) →
        ∃ before after t, as = before ++ after ∧ run (step getpagesize) s before = some t ∧
          Returned t p key) ∧
      ((∃ q, s.waitsFor p = some q ∧ (s.call q).isSome = true) ∨
        ∃ a, a.advances p = true ∧ (step getpagesize s a).isSome = true ∧
          Reliable getpagesize s a)) ∧
    ∀ D, Circle s D → ∀ as s', run (step getpagesize) s as = some s' →
      Meets (step getpagesize) (fun s a => FreshId s a ∧ Reliable getpagesize s a) s as → ∀ p, D p →
        s'.call p = s.call p := by
  have hsound : Sound getpagesize s :=
    run_induction (fun hs hok hstep => Sound.step hs hok hstep) ⟨inv_start, owner_start, keys_start⟩
      hmeets h
  refine ⟨fun key id hkey hreturned => ?_, fun p key hkey => ?_,
    fun D hcircle as s' hrun hmeets => ?_⟩
  · exact hsound.keys.unique hsound.inv hkey (hsound.keys.returned key id hreturned hkey)
  · obtain ⟨holder, hcall, hkey⟩ := Option.bind_eq_some_iff.mp hkey
    have hcalling : Calling s p key 5 := ⟨holder, hcall, hkey, rank_le s.link holder⟩
    exact ⟨fun as s' hrun hmeets => returned_of_steps hsound hcalling hrun hmeets,
      waits_or_advances hsound hcalling⟩
  · exact circle_run hcircle hrun hmeets

/-- Two processes find no link, and one is the first to make it. -/
def raced : List (Action Nat Nat) :=
  [.exec 0, .bind 0 100, .exec 1, .bind 1 101, .shmget 0 7 100 true, .shmget 1 7 100 true,
    .readlink 0, .readlink 1,
    .symlink 1 true, .symlink 0 true, .readlink 0, .answer 0, .received 0 none]

/-- Two processes each ask for the key of the other. -/
def crossed : List (Action Nat Nat) :=
  [.exec 0, .bind 0 100, .exec 1, .bind 1 101, .shmget 0 7 100 true, .readlink 0, .symlink 0 true,
    .shmget 1 8 100 true,
    .readlink 1, .symlink 1 true, .shmget 0 8 100 true, .shmget 1 7 100 true, .readlink 0,
      .readlink 1]

theorem one_segment_for_key_raced :
    (∃ s, run (step 4096) start raced = some s ∧ s.returned = [(7, 6619137), (7, 6619137)] ∧
      ∃ c ∈ s.created, c.id = 6619137 ∧ ∀ d ∈ s.created, d.key = 7 → d = c) ∧
    ∃ s, run (step 4096) start crossed = some s ∧ ∀ as s', run (step 4096) s as = some s' →
      Meets (step 4096) (fun s a => FreshId s a ∧ Reliable 4096 s a) s as →
      ∀ p < 2, (s'.call p).isSome = true := by
  constructor
  · have hends :
        (run (step 4096) start raced).map (fun s => s.returned) =
          some [(7, 6619137), (7, 6619137)] := by
      decide +kernel
    have hmeets : Meets (step 4096) (fun s a => FreshId s a ∧ Reliable 4096 s a) start raced := by
      decide +kernel
    obtain ⟨s, hs, hreturned⟩ := Option.map_eq_some_iff.mp hends
    obtain ⟨c, hc, _, hid, hall⟩ := (one_segment_for_key hs hmeets).1 7 6619137 (by decide)
      (hreturned ▸ List.mem_cons_self)
    exact ⟨s, hs, hreturned, c, hc, hid, hall⟩
  · have hends :
        (run (step 4096) start crossed).map (fun s => (s.waitsFor 0, s.waitsFor 1)) =
          some (some 1, some 0) := by
      decide +kernel
    have hmeets : Meets (step 4096) (fun s a => FreshId s a ∧ Reliable 4096 s a) start crossed := by
      decide +kernel
    obtain ⟨s, hs, hwaits⟩ := Option.map_eq_some_iff.mp hends
    rw [Prod.mk.injEq] at hwaits
    have hcircle : Circle s fun p => p = 0 ∨ p = 1 := by
      rintro p (rfl | rfl)
      · exact ⟨1, hwaits.1, .inr rfl⟩
      · exact ⟨0, hwaits.2, .inl rfl⟩
    refine ⟨s, hs, fun as s' hrun hmeets' p hp => ?_⟩
    have hp' : p = 0 ∨ p = 1 := by omega
    rw [(one_segment_for_key hs hmeets).2.2 _ hcircle as s' hrun hmeets' p hp']
    obtain ⟨q, hwaits', _⟩ := hcircle p hp'
    obtain ⟨holder, hcall, _⟩ := Option.bind_eq_some_iff.mp hwaits'
    rw [hcall]
    rfl

end WinEmulator.Lorie.Shmem
