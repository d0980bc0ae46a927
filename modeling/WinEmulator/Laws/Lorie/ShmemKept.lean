import WinEmulator.Laws.Lorie.Shmem

/-!
# A segment is there until it is removed

The process that has made a segment keeps it, attached or not, until it is told to remove it or
exits, and answers every process that asks for its id. This holds for processes whose socket id is
below 0x8000: from there on an id is negative as an `int`, and `ashv_socket_id_from_shmid` gives
another socket id than the id was made from.
-/

set_option autoImplicit false

namespace WinEmulator.Lorie.Shmem

open WinEmulator.Lib

variable {Proc Addr : Type}

/-! ## Socket ids -/

/-- When the socket id can be read off an id. -/
theorem socket_id_from_shmid_iff {ashv_local_socket_id counter : Nat}
    (hsocket : ashv_local_socket_id < 0x10000)
    (hcounter : counter < 0x8000) :
    ashv_socket_id_from_shmid (ashv_shmid_from_counter ashv_local_socket_id counter) =
      ashv_local_socket_id ↔
      ashv_local_socket_id < 0x8000 := by
  unfold ashv_socket_id_from_shmid ashv_shmid_from_counter
  by_cases hpositive : ashv_local_socket_id < 0x8000
  · rw [Int.bmod_eq_of_le (by omega) (by omega), Int.tdiv_eq_ediv_of_nonneg (by omega)]
    omega
  · have hnegative : ((ashv_local_socket_id * 0x10000 + counter : Nat) : Int).bmod 0x100000000 =
        -(0x100000000 - (ashv_local_socket_id * 0x10000 + counter : Nat)) := by
      rw [← Int.sub_bmod_right, Int.bmod_eq_of_le (by omega) (by omega)]
      omega
    rw [hnegative, Int.neg_tdiv, Int.tdiv_eq_ediv_of_nonneg (by omega)]
    omega

/-! ## One process -/

/-- The id that a call has made up is one of its process. -/
def Holder.Minted (ashv_local_socket_id : Nat) : Holder → Prop
  | .readlink call | .unlink call | .symlink call | .read _ (.shmget call)
  | .received _ (.shmget call) _ =>
    ∀ shmid, call.shmid = some shmid → ashv_socket_id_from_shmid shmid = ashv_local_socket_id
  | .read _ .shmat | .received _ .shmat _ => True

/-- Whether a call is one of `shmget`. -/
def Holder.Gets : Holder → Prop
  | .readlink _ | .unlink _ | .symlink _ | .read _ (.shmget _) | .received _ (.shmget _) _ => True
  | .read _ .shmat | .received _ .shmat _ => False

structure Process.Own (process : Process Addr) : Prop where
  socket : process.listening = true → process.ashv_local_socket_id < 0x8000
  gets : ∀ holder, process.holder = some holder → holder.Gets → process.listening = true
  minted : ∀ holder, process.holder = some holder → holder.Minted process.ashv_local_socket_id

/-- A segment that is in the table of the process that has made it, and is not to be deleted. -/
def Process.Keeps (process : Process Addr) (c : Creation Proc) : Prop :=
  process.listening = true ∧ ashv_socket_id_from_shmid c.id = process.ashv_local_socket_id ∧
    ∃ e ∈ process.shmem, e.id = c.id ∧ e.descriptor = c.descriptor ∧ e.key = c.key ∧
      e.markedForDeletion = false

/-- What a step of a process may do to it, seen from the segments with an id. -/
structure Turn (Proc : Type) (id : Int) (before after : Process Addr) : Prop where
  listening : after.listening = before.listening
  socket : before.listening = true → after.ashv_local_socket_id = before.ashv_local_socket_id
  own : before.Own → after.Own
  keeps : ∀ c : Creation Proc, c.id = id → before.Keeps c → after.Keeps c

section

variable {id : Int} {process : Process Addr}

/-- The table keeps its segments, and the call goes on. -/
theorem turn_of_mem {after : Process Addr} (hlistening : after.listening = process.listening)
    (hsocket : after.ashv_local_socket_id = process.ashv_local_socket_id)
    (hgets : process.Own → ∀ holder, after.holder = some holder → holder.Gets →
      process.listening = true)
    (hminted : process.Own → ∀ holder, after.holder = some holder →
      holder.Minted process.ashv_local_socket_id)
    (hkept : ∀ e ∈ process.shmem, e.id = id → e.markedForDeletion = false →
      ashv_socket_id_from_shmid id = process.ashv_local_socket_id →
      ∃ f ∈ after.shmem, f.id = e.id ∧ f.descriptor = e.descriptor ∧ f.key = e.key ∧
        f.markedForDeletion = false) :
    Turn Proc id process after where
  listening := hlistening
  socket := fun _ => hsocket
  own := fun hown => ⟨fun h => hsocket ▸ hown.socket (hlistening ▸ h),
    fun holder hholder hg => hlistening ▸ hgets hown holder hholder hg,
    fun holder hholder => hsocket ▸ hminted hown holder hholder⟩
  keeps := by
    rintro c hcid ⟨hthere, hown, e, he, heid, hdescriptor, hkey, hmarked⟩
    obtain ⟨f, hf, hfid, hfdescriptor, hfkey, hfmarked⟩ :=
      hkept e he (heid.trans hcid) hmarked (hcid ▸ hown)
    exact ⟨hlistening ▸ hthere, hsocket ▸ hown, f, hf, hfid.trans heid,
      hfdescriptor.trans hdescriptor,
      hfkey.trans hkey, hfmarked⟩

theorem Turn.trans {before mid after : Process Addr} (h : Turn Proc id before mid)
    (h' : Turn Proc id mid after) :
    Turn Proc id before after where
  listening := h'.listening.trans h.listening
  socket := fun hlistening => (h'.socket (h.listening ▸ hlistening)).trans (h.socket hlistening)
  own := fun hown => h'.own (h.own hown)
  keeps := fun c hid hkeeps => h'.keeps c hid (h.keeps c hid hkeeps)

/-- A call goes on with what it has made up. -/
theorem turn_holder (holder : Option Holder)
    (hgets : ∀ next, holder = some next → next.Gets → process.listening = true)
    (hminted : ∀ next, holder = some next → next.Minted process.ashv_local_socket_id) :
    Turn Proc id process { process with holder } :=
  turn_of_mem rfl rfl (fun _ => hgets) (fun _ => hminted) fun e he _ hmarked _ =>
    ⟨e, he, rfl, rfl, rfl, hmarked⟩

theorem turn_free : Turn Proc id process { process with holder := none } :=
  turn_holder none (fun _ h => by cases h) (fun _ h => by cases h)

theorem Holder.minted_of_not_gets {holder : Holder} (h : ¬holder.Gets) (socket : Nat) :
    holder.Minted socket := by
  cases holder with
  | readlink call => exact (h trivial).elim
  | unlink call => exact (h trivial).elim
  | symlink call => exact (h trivial).elim
  | read shmid caller =>
    cases caller with
    | shmget call => exact (h trivial).elim
    | shmat => trivial
  | received shmid caller answer =>
    cases caller with
    | shmget call => exact (h trivial).elim
    | shmat => trivial

/-- Without a socket no call of `shmget` comes to hold the mutex. -/
theorem Process.Own.not_gets (h : process.Own) (hnot : process.listening = false) {holder : Holder}
    (hholder : process.holder = some holder) : ¬holder.Gets := by
  intro hgets
  have hthere := h.gets holder hholder hgets
  rw [hnot] at hthere
  cases hthere

theorem turn_unbound (hnot : process.listening = false) :
    Turn Proc id process { process with ashv_local_socket_id := 0 } where
  listening := rfl
  socket := fun h => by rw [hnot] at h; cases h
  own := by
    intro hown
    refine ⟨fun h => ?_, hown.gets,
      fun _ hholder => Holder.minted_of_not_gets (hown.not_gets hnot hholder) 0⟩
    rw [hnot] at h
    cases h
  keeps := fun _ _ hkeeps => by
    have hthere := hkeeps.1
    rw [hnot] at hthere
    cases hthere

theorem turn_mint : Turn Proc id process (mint process).1 :=
  turn_of_mem rfl rfl (fun hown => hown.gets) (fun hown => hown.minted) fun e he _ hmarked _ =>
    ⟨e, he, rfl, rfl, rfl, hmarked⟩

theorem turn_add (segment : shmem_t Addr) :
    Turn Proc id process { process with shmem := process.shmem ++ [segment], holder := none } :=
  turn_of_mem rfl rfl (fun _ _ h => by cases h) (fun _ _ h => by cases h)
    fun e he _ hmarked _ => ⟨e, List.mem_append_left _ he, rfl, rfl, rfl, hmarked⟩

/-- The answer has come, or there is none. -/
theorem turn_received {shmid : Int} {caller : Caller} (hown : process.Own)
    (hholder : process.holder = some (.read shmid caller)) (answer : Option (Int × Region)) :
    Turn Proc id process { process with holder := some (.received shmid caller answer) } := by
  have hgets := hown.gets _ hholder
  have hminted := hown.minted _ hholder
  refine turn_holder _ (fun next hnext hg => ?_) fun next hnext => ?_
  · cases hnext
    cases caller with
    | shmget call => exact hgets trivial
    | shmat => exact hg.elim
  · cases hnext
    cases caller with
    | shmget call => exact hminted
    | shmat => trivial

theorem exists_mem_remove {shmid : Int} {shmem : List (shmem_t Addr)} {e : shmem_t Addr}
    (he : e ∈ shmem) (hne : e.id ≠ shmid) :
    e ∈ remove shmid shmem := by
  induction shmem with
  | nil => cases he
  | cons f shmem ih =>
    unfold remove
    obtain rfl | he := List.mem_cons.mp he
    · rw [if_neg hne]
      exact List.mem_cons_self
    · split
      · split
        · exact List.mem_cons_of_mem _ he
        · exact he
      · exact List.mem_cons_of_mem _ (ih he)

/-- A removal loses no segment but its own. -/
theorem turn_remove {shmid : Int} (hne : shmid ≠ id) :
    Turn Proc id process { process with shmem := remove shmid process.shmem } :=
  turn_of_mem rfl rfl (fun hown => hown.gets) (fun hown => hown.minted)
    fun e he hid hmarked _ => ⟨e, exists_mem_remove he (hid ▸ hne.symm), rfl, rfl, rfl, hmarked⟩

/-- Attaching leaves every segment on the list. -/
theorem exists_mem_attach {shmid : Int} {mmap : Option Addr} {shmem : List (shmem_t Addr)}
    {e : shmem_t Addr}
    (he : e ∈ shmem) :
    ∃ f ∈ attach shmid mmap shmem, f.id = e.id ∧ f.descriptor = e.descriptor ∧ f.key = e.key ∧
      f.markedForDeletion = e.markedForDeletion := by
  induction shmem with
  | nil => cases he
  | cons f shmem ih =>
    unfold attach
    obtain rfl | he := List.mem_cons.mp he
    · split
      · split
        · exact ⟨_, List.mem_cons_self, rfl, rfl, rfl, rfl⟩
        · exact ⟨_, List.mem_cons_self, rfl, rfl, rfl, rfl⟩
      · exact ⟨_, List.mem_cons_self, rfl, rfl, rfl, rfl⟩
    · split
      · exact ⟨e, List.mem_cons_of_mem _ he, rfl, rfl, rfl, rfl⟩
      · obtain ⟨g, hg, hsame⟩ := ih he
        exact ⟨g, List.mem_cons_of_mem _ hg, hsame⟩

variable [DecidableEq Addr]

/-- Mapping loses no segment. -/
theorem turn_map (shmid : Int) (mmap : Option Addr) :
    Turn Proc id process (process.map shmid mmap) := by
  unfold Process.map
  split
  · exact turn_of_mem rfl rfl (fun hown => hown.gets) (fun hown => hown.minted)
      fun e he _ hmarked _ => ⟨e, he, rfl, rfl, rfl, hmarked⟩
  · split
    · refine turn_of_mem rfl rfl (fun hown => hown.gets)
        (fun hown => hown.minted) fun e he _ hmarked _ => ?_
      obtain ⟨f, hf, hid, hdescriptor, hkey, hsame⟩ := exists_mem_attach he
      exact ⟨f, hf, hid, hdescriptor, hkey, hsame.trans hmarked⟩
    · exact turn_of_mem rfl rfl (fun hown => hown.gets) (fun hown => hown.minted)
        fun e he _ hmarked _ => ⟨e, he, rfl, rfl, rfl, hmarked⟩

/-- `shmdt` deletes only what is to be deleted, and what other processes have made. -/
theorem exists_mem_detach {socket : Nat} {shmaddr : Option Addr} {shmem : List (shmem_t Addr)}
    {e : shmem_t Addr}
    (he : e ∈ shmem) (hmarked : e.markedForDeletion = false)
    (hown : ashv_socket_id_from_shmid e.id = socket) :
    ∃ f ∈ detach socket shmaddr shmem, f.id = e.id ∧ f.descriptor = e.descriptor ∧ f.key = e.key ∧
      f.markedForDeletion = false := by
  induction shmem with
  | nil => cases he
  | cons f shmem ih =>
    unfold detach
    obtain rfl | he := List.mem_cons.mp he
    · split
      · rw [if_neg (by simp [hmarked, hown])]
        exact ⟨_, List.mem_cons_self, rfl, rfl, rfl, hmarked⟩
      · exact ⟨e, List.mem_cons_self, rfl, rfl, rfl, hmarked⟩
    · split
      · split
        · exact ⟨e, he, rfl, rfl, rfl, hmarked⟩
        · exact ⟨e, List.mem_cons_of_mem _ he, rfl, rfl, rfl, hmarked⟩
      · obtain ⟨g, hg, hsame⟩ := ih he
        exact ⟨g, List.mem_cons_of_mem _ hg, hsame⟩

/-- `shmdt` loses no segment. -/
theorem turn_shmdt (shmaddr : Option Addr) : Turn Proc id process (process.shmdt shmaddr) :=
  turn_of_mem rfl rfl (fun hown => hown.gets) (fun hown => hown.minted)
    fun _ he hid hmarked hown => exists_mem_detach he hmarked (hid ▸ hown)

end

/-! ## All processes -/

/-- A process answers for its segments with an id. -/
structure Owner (p : Proc) (id : Int) (s : State Proc Addr) : Prop where
  own : ∀ process, s.procs p = some process → process.Own
  socket : ∀ process, s.procs p = some process → process.listening = true →
    s.socket process.ashv_local_socket_id = some p
  kept : ∀ c ∈ s.created, c.creator = p → c.id = id → ∃ process, s.procs p = some process ∧
    process.Keeps c

/-- At the start nobody owns anything. -/
theorem owner_start (p : Proc) (id : Int) : Owner p id (start : State Proc Addr) where
  own := fun _ h => by cases h
  socket := fun _ h => by cases h
  kept := fun _ h => by cases h

theorem mint_snd (process : Process Addr) : (mint process).2 =
    ashv_shmid_from_counter process.ashv_local_socket_id
      ((process.shmem_counter + 1) % 0x8000) := by
  simp only [mint]

/-- A new id names the process' own socket. -/
theorem mint_own {process : Process Addr} (hown : process.Own)
    (hlistening : process.listening = true) :
    ashv_socket_id_from_shmid (mint process).2 = process.ashv_local_socket_id := by
  have hsocket := hown.socket hlistening
  have hcounter : (process.shmem_counter + 1) % 0x8000 < 0x8000 := Nat.mod_lt _ (by decide)
  rw [mint_snd]
  exact (socket_id_from_shmid_iff (Nat.lt_trans hsocket (by decide)) hcounter).mpr hsocket

variable [DecidableEq Proc] {p : Proc} {id : Int} {s : State Proc Addr}

/-- What another process does leaves the owner's segment. -/
theorem Owner.set_other (h : Owner p id s) {q : Proc} (hqp : q ≠ p) (process : Process Addr) :
    Owner p id (s.set q process) := by
  have hsame : (s.set q process).procs p = s.procs p := Function.update_of_ne hqp.symm _ _
  refine ⟨fun found hfound => h.own found (hsame ▸ hfound),
    fun found hfound => h.socket found (hsame ▸ hfound),
    fun c hc hcreator hcid => ?_⟩
  rw [hsame]
  exact h.kept c hc hcreator hcid

/-- A turn of the owner that keeps its segment keeps the invariant. -/
theorem Owner.set (h : Owner p id s) {q : Proc} {before after : Process Addr}
    (hq : s.procs q = some before)
    (hturn : before.Own → Turn Proc id before after) : Owner p id (s.set q after) := by
  by_cases hqp : q = p
  · subst hqp
    have hset : (s.set q after).procs q = some after := by simp [State.set]
    have hturn := hturn (h.own before hq)
    refine ⟨fun process hprocess => ?_, fun process hprocess hlistening => ?_,
      fun c hc hcreator hcid => ?_⟩
    · obtain rfl := Option.some.inj (hset.symm.trans hprocess)
      exact hturn.own (h.own before hq)
    · obtain rfl := Option.some.inj (hset.symm.trans hprocess)
      have hthere : before.listening = true := hturn.listening ▸ hlistening
      rw [hturn.socket hthere]
      exact h.socket before hq hthere
    · obtain ⟨process, hprocess, hkeeps⟩ := h.kept c hc hcreator hcid
      obtain rfl := Option.some.inj (hq.symm.trans hprocess)
      exact ⟨after, hset, hturn.keeps c hcid hkeeps⟩
  · exact h.set_other hqp after

/-- A segment that a process makes with an id of its own is in its table. -/
theorem Owner.create (h : Owner p id s) {q : Proc} {before after : Process Addr}
    (hq : s.procs q = some before)
    (hturn : before.Own → Turn Proc id before after)
    (hlistening : before.Own → before.listening = true)
    {shmid key : Int} {size : Nat} {made : Bool}
    (hown : before.Own → ashv_socket_id_from_shmid shmid = before.ashv_local_socket_id) :
    Owner p id (s.create q after shmid key size made) := by
  unfold State.create
  split
  · have hset := h.set hq fun hthere =>
      (hturn hthere).trans (turn_add ⟨shmid, none, s.regions.length, size, false, key⟩)
    refine ⟨hset.own, hset.socket, fun c hc hcreator hcid => ?_⟩
    obtain hc | hc := List.mem_append.mp hc
    · exact hset.kept c hc hcreator hcid
    · obtain rfl := List.mem_singleton.mp hc
      obtain rfl : q = p := hcreator
      have hthere := h.own before hq
      refine ⟨_, Function.update_self _ _ _, (hturn hthere).listening.trans (hlistening hthere),
        (hown hthere).trans ?_, _,
        List.mem_append_right _ List.mem_cons_self, rfl, rfl, rfl, rfl⟩
      exact congrArg Nat.cast ((hturn hthere).socket (hlistening hthere)).symm
  · exact h.set hq fun hthere => (hturn hthere).trans turn_free

/-- A process that was not there, with nothing in its table. -/
theorem Owner.new (h : Owner p id s) {q : Proc} (hnone : s.procs q = none) {process : Process Addr}
    (hlistening : process.listening = false) (hholder : process.holder = none) :
    Owner p id (s.set q process) := by
  by_cases hqp : q = p
  · subst hqp
    have hset : (s.set q process).procs q = some process := by simp [State.set]
    refine ⟨fun found hfound => ?_, fun found hfound hlistening' => ?_,
      fun c hc hcreator hcid => ?_⟩
    · obtain rfl := Option.some.inj (hset.symm.trans hfound)
      refine ⟨fun h => ?_, fun holder h => ?_, fun holder h => ?_⟩
      · rw [hlistening] at h; cases h
      · rw [hholder] at h; cases h
      · rw [hholder] at h; cases h
    · obtain rfl := Option.some.inj (hset.symm.trans hfound)
      rw [hlistening] at hlistening'
      cases hlistening'
    · obtain ⟨found, hfound, _⟩ := h.kept c hc hcreator hcid
      rw [hnone] at hfound
      cases hfound
  · exact h.set_other hqp process

/-- The socket ids that can be read off ids. -/
def SmallSocket (s : State Proc Addr) (pid : Nat) : Prop :=
  ((sockets pid).find? fun id : Nat => (s.socket id).isNone).all
    (fun id => decide (id < 0x8000)) = true

instance (s : State Proc Addr) (pid : Nat) : Decidable (SmallSocket s pid) :=
  inferInstanceAs (Decidable (_ = true))

/-- A process is not told to remove segments with an id, does not exit, and gets a small socket
id. -/
def Spares (p : Proc) (id : Int) (s : State Proc Addr) : Action Proc Addr → Prop
  | .exit q _ => q ≠ p
  | .rmid q shmid => q ≠ p ∨ shmid ≠ id
  | .bind q pid => q ≠ p ∨ SmallSocket s pid
  | _ => True

instance (p : Proc) (id : Int) (s : State Proc Addr) : ∀ a, Decidable (Spares p id s a)
  | .exit q _ => inferInstanceAs (Decidable (q ≠ p))
  | .rmid q shmid => inferInstanceAs (Decidable (q ≠ p ∨ shmid ≠ id))
  | .bind q pid => inferInstanceAs (Decidable (q ≠ p ∨ SmallSocket s pid))
  | .exec _ | .fork _ _ | .shmget _ _ _ _ | .readlink _ | .unlink _ | .symlink _ _ | .answer _
  | .fail _ | .received _ _
  | .shmat _ _ _ | .shmdt _ _ => inferInstanceAs (Decidable True)

/-- Binding a socket keeps the invariant. -/
theorem owner_bind (h : Owner p id s) {q : Proc} {process : Process Addr}
    (hq : s.procs q = some process)
    (hnot : process.listening = false) {socket : Nat} (hunbound : s.socket socket = none)
    (hsmall : q ≠ p ∨ socket < 0x8000) :
    Owner p id { s.set q { process with ashv_local_socket_id := socket, listening := true } with
      socket := Function.update s.socket (socket : Int) (some q) } := by
  by_cases hqp : q = p
  · subst hqp
    have hset :
        (s.set q { process with ashv_local_socket_id := socket, listening := true }).procs q =
      some { process with ashv_local_socket_id := socket, listening := true } := by simp [State.set]
    have hown := h.own process hq
    refine ⟨fun found hfound => ?_, fun found hfound _ => ?_, fun c hc hcreator hcid => ?_⟩
    · obtain rfl := Option.some.inj (hset.symm.trans hfound)
      exact ⟨fun _ => hsmall.resolve_left (fun hne => hne rfl), fun _ _ _ => rfl,
        fun _ hholder => Holder.minted_of_not_gets (hown.not_gets hnot hholder) socket⟩
    · obtain rfl := Option.some.inj (hset.symm.trans hfound)
      exact Function.update_self _ _ _
    · obtain ⟨found, hfound, hthere, _⟩ := h.kept c hc hcreator hcid
      obtain rfl := Option.some.inj (hq.symm.trans hfound)
      rw [hnot] at hthere
      cases hthere
  · have hsame :
        (s.set q { process with ashv_local_socket_id := socket, listening := true }).procs p =
          s.procs p :=
      Function.update_of_ne (Ne.symm hqp) _ _
    refine ⟨fun found hfound => h.own found (hsame ▸ hfound), fun found hfound hlistening => ?_,
      fun c hc hcreator hcid => ?_⟩
    · have hbound := h.socket found (hsame ▸ hfound) hlistening
      have hne : (found.ashv_local_socket_id : Int) ≠ socket := fun hids => by
        rw [hids, hunbound] at hbound
        cases hbound
      exact (Function.update_of_ne hne _ _).trans hbound
    · simp only [hsame]
      exact h.kept c hc hcreator hcid

/-- Following the link of a key keeps the invariant. -/
theorem owner_readlink (h : Owner p id s) {q : Proc} {process : Process Addr}
    (hq : s.procs q = some process) {call : Keyed}
    (hholder : process.holder = some (.readlink call)) :
    Owner p id (readlink s q process call) := by
  have hnext :
      ∀ next : Holder, (∀ socket, (Holder.readlink call).Minted socket → next.Minted socket) →
      Owner p id (s.set q { process with holder := some next }) := fun next hnext =>
    h.set hq fun hown => turn_holder (some next) (fun _ _ _ => hown.gets _ hholder trivial)
      fun _ hsame => Option.some.inj hsame ▸ hnext _ (hown.minted _ hholder)
  unfold readlink
  split
  · exact hnext (.symlink call) fun _ hminted => hminted
  · split
    · exact hnext (.unlink call) fun _ hminted => hminted
    · split
      · have hfree : Turn Proc id process { process with holder := none } := turn_free
        exact { h.set hq fun _ => hfree with }
      · exact hnext (.read _ (.shmget call)) fun _ hminted => hminted

/-- Making the link of a key keeps the invariant. -/
theorem owner_symlink {getpagesize : Nat} (h : Owner p id s) {q : Proc} {process : Process Addr}
    (hq : s.procs q = some process) {call : Keyed} {made : Bool}
    (hholder : process.holder = some (.symlink call)) :
    Owner p id (symlink getpagesize s q process call made) := by
  have hlistening : process.Own → process.listening = true :=
    fun hown => hown.gets _ hholder trivial
  obtain ⟨after, shmid, hsame, hturn, hid⟩ : ∃ after shmid,
      (call.shmid.elim (mint process) fun shmid => (process, shmid)) = (after, shmid) ∧
      (process.Own → Turn Proc id process after) ∧
      (process.Own → ashv_socket_id_from_shmid shmid = process.ashv_local_socket_id) := by
    cases hshmid : call.shmid with
    | none =>
      exact ⟨(mint process).1, (mint process).2, by rw [Option.elim_none], fun _ => turn_mint,
        fun hown => mint_own hown (hlistening hown)⟩
    | some shmid =>
      exact ⟨process, shmid, rfl, fun hown => turn_holder _ hown.gets hown.minted,
        fun hown => hown.minted _ hholder shmid hshmid⟩
  unfold symlink
  rw [hsame]
  dsimp only
  split
  · have hlink : Owner p id { s with link := Function.update s.link call.key (some shmid) } :=
      { h with }
    exact hlink.create hq hturn hlistening hid
  · refine h.set hq fun hown => (hturn hown).trans ?_
    have hthere := (hturn hown).listening.trans (hlistening hown)
    refine turn_holder _ (fun _ _ _ => hthere) fun next hnext => ?_
    cases hnext
    intro made hmade
    cases hmade
    exact (hid hown).trans (congrArg Nat.cast ((hturn hown).socket (hlistening hown)).symm)

variable [DecidableEq Addr]

/-- Taking an answer keeps the invariant. -/
theorem owner_received (h : Owner p id s) {q : Proc} {process : Process Addr}
    (hq : s.procs q = some process)
    {shmid : Int} {caller : Caller} {answer : Option (Int × Region)} {mmap : Option Addr}
    (hholder : process.holder = some (.received shmid caller answer)) :
    Owner p id (received s q process shmid caller answer mmap) := by
  unfold received
  split
  · next segment call _ =>
    have hadded :
        Turn Proc id process { process with shmem := process.shmem ++ [segment], holder := none } :=
      turn_add segment
    exact { h.set hq fun _ => hadded with }
  · next segment _ =>
    exact h.set hq fun _ => (turn_add segment).trans (turn_map shmid mmap)
  · next call _ =>
    refine h.set hq fun hown => ?_
    have hminted := hown.minted _ hholder
    refine turn_holder _ (fun _ _ _ => hown.gets _ hholder trivial) fun next hnext => ?_
    cases hnext
    exact hminted
  · exact h.set hq fun _ => turn_free

/-- **Step lemma.** Every step that spares the segment leaves it with its owner. -/
theorem Owner.step {getpagesize : Nat} {s' : State Proc Addr} {a : Action Proc Addr}
    (h : Owner p id s)
    (hspares : Spares p id s a) (hstep : step getpagesize s a = some s') : Owner p id s' := by
  cases step_cases hstep with
  | exec hnew => exact h.new hnew rfl rfl
  | fork _ hnew => exact h.new hnew rfl rfl
  | @exit q _ inherited _ =>
    have hqp : q ≠ p := hspares
    have hsame : Function.update s.procs q none p = s.procs p := Function.update_of_ne hqp.symm _ _
    refine ⟨fun found hfound => h.own found (hsame ▸ hfound), fun found hfound hlistening => ?_,
      fun c hc hcreator hcid => ?_⟩
    · have hbound := h.socket found (hsame ▸ hfound) hlistening
      have hnot : ¬(some p = some q ∧ inherited = false) :=
        fun hgone => hqp (Option.some.inj hgone.1).symm
      simp only [hbound, if_neg hnot]
    · simp only [hsame]
      exact h.kept c hc hcreator hcid
  | bound hq hnot hfound =>
    refine owner_bind h hq hnot (by simpa using List.find?_some hfound) ?_
    exact hspares.imp (fun hne => hne) fun hsmall => by simpa [SmallSocket, hfound] using hsmall
  | unbound hq hnot => exact h.set hq fun _ => turn_unbound hnot
  | privateSegment _ _ hq _ hlistening =>
    exact h.create hq (fun _ => turn_mint) (fun _ => hlistening) fun hown =>
      mint_own hown hlistening
  | keyed _ _ hq _ hlistening _ =>
    exact h.set hq fun _ =>
      turn_holder _ (fun _ _ _ => hlistening) fun _ hnext => by cases hnext; intro _ h; cases h
  | readlink hq hholder => exact owner_readlink h hq hholder
  | @unlink q process call hq hholder =>
    have hset : Owner p id (s.set q { process with holder := some (.symlink call) }) := by
      refine h.set hq fun hown => ?_
      have hminted := hown.minted _ hholder
      refine turn_holder _ (fun _ _ _ => hown.gets _ hholder trivial) fun next hnext => ?_
      cases hnext
      exact hminted
    exact { hset with }
  | symlink _ hq hholder => exact owner_symlink h hq hholder
  | answer hq hholder _ _ _ => exact h.set hq fun hown => turn_received hown hholder _
  | fail hq hholder => exact h.set hq fun hown => turn_received hown hholder _
  | received hq hholder _ => exact owner_received h hq hholder
  | @attached _ _ mmap shmid hq _ _ => exact h.set hq fun _ => turn_map shmid mmap
  | asks _ hq _ _ =>
    exact h.set hq fun _ => turn_holder _ (fun _ hnext hg => by cases hnext; exact hg.elim)
      fun _ hnext => by cases hnext; trivial
  | nothing _ _ _ => exact h
  | shmdt shmaddr hq _ => exact h.set hq fun _ => turn_shmdt shmaddr
  | rmid _ hq _ =>
    obtain hqp | hne := hspares
    · exact h.set_other hqp _
    · exact h.set hq fun _ => turn_remove hne

/-- A listening owner answers. -/
theorem step_answer {getpagesize : Nat} {q owner : Proc} {asking asked : Process Addr} {shmid : Int}
    {caller : Caller}
    (hholder : s.holder q = some (asking, .read shmid caller))
    (hbound : s.socket (ashv_socket_id_from_shmid shmid) = some owner)
    (hasked : s.free owner = some asked)
    (hlistening : asked.listening = true)
    (hsocket : ashv_socket_id_from_shmid shmid = asked.ashv_local_socket_id)
    {e : shmem_t Addr} (hfound : ashv_find_local_index shmid asked.shmem = some e) :
    step getpagesize s (.answer q) =
      some (s.set q
        { asking with holder := some (.received shmid caller (some (e.key, e.descriptor))) }) := by
  refine Option.bind_eq_some_iff.mpr ⟨_, hholder, Option.bind_eq_some_iff.mpr ⟨owner, hbound, ?_⟩⟩
  refine Option.bind_eq_some_iff.mpr ⟨asked, hasked, ?_⟩
  rw [if_pos ⟨hlistening, hsocket.symm⟩, hfound, Option.map_some]

/-- **As long as a process with a small socket id is not told to remove a segment that it has made
and does not exit, the segment is in its table, whatever it and all others attach, detach, remove
and make, and whoever asks it for the segment's id when it is in no call of its own is given the
segment's key and region.** -/
theorem answered_until_removed {getpagesize : Nat} {actions : List (Action Proc Addr)}
    (h : run (step getpagesize) start actions = some s)
    (hmeets : Meets (step getpagesize) (fun s a => FreshId s a ∧ Spares p id s a) start actions)
    {c : Creation Proc} (hc : c ∈ s.created) (hcreator : c.creator = p) (hid : c.id = id) :
    ∃ process, s.procs p = some process ∧
      (∃ e ∈ process.shmem, e.id = id ∧ e.descriptor = c.descriptor ∧ e.markedForDeletion = false) ∧
      ∀ {q : Proc} {asking : Process Addr} {caller : Caller}, s.procs q = some asking →
        asking.holder = some (.read id caller) → process.holder = none →
        step getpagesize s (.answer q) =
          some (s.set q
            { asking with holder := some (.received id caller (some (c.key, c.descriptor))) }) := by
  have hkeeps :
      ∀ {s s' : State Proc Addr} {a}, Inv s ∧ Owner p id s → FreshId s a ∧ Spares p id s a →
      step getpagesize s a = some s' → Inv s' ∧ Owner p id s' :=
    fun hs hok hstep => ⟨hs.1.step hok.1 hstep, hs.2.step hok.2 hstep⟩
  obtain ⟨hi, howner⟩ := run_induction hkeeps ⟨inv_start, owner_start p id⟩ hmeets h
  obtain ⟨process, hprocess, hlistening, hown, e, he, heid, hdescriptor, hkey, hmarked⟩ :=
    howner.kept c hc hcreator hid
  refine ⟨process, hprocess, ⟨e, he, heid.trans hid, hdescriptor, hmarked⟩,
    fun {q asking caller} hq hasks hfree => ?_⟩
  have hholder : s.holder q = some (asking, .read id caller) := by
    simp only [State.holder, hq, Option.bind_some, hasks, Option.map_some]
  have hasked : s.free p = some process := by
    simp only [State.free, hprocess, Option.filter_some, hfree, Option.isNone_none, if_true]
  have hbound : s.socket (ashv_socket_id_from_shmid id) = some p := by
    rw [← hid, hown]
    exact howner.socket process hprocess hlistening
  have hfound : ashv_find_local_index id process.shmem = some e := by
    rw [← hid, ← heid]
    exact find_of_mem (hi.procs p process hprocess).apart he
  have hsocket : ashv_socket_id_from_shmid id = process.ashv_local_socket_id := hid ▸ hown
  rw [step_answer hholder hbound hasked hlistening hsocket hfound, hkey, hdescriptor]

/-- Both processes let go of the segment, and the other asks for it once more. -/
def askedAgain : List (Action Nat Nat) :=
  shared ++ [.shmdt 0 (some 3), .shmdt 1 (some 7), .shmat 1 6553601 none]

theorem answered_until_removed_askedAgain :
    ∃ s s' process, run (step 4096) start askedAgain = some s ∧
    step 4096 s (.answer 1) = some s' ∧ s'.procs 1 = some process ∧
    process.holder = some (.received 6553601 .shmat (some (0, 0))) := by
  have hends :
      ((run (step 4096) start askedAgain).bind fun s => (s.procs 0).bind fun P =>
        (s.procs 1).bind fun Q =>
      s.created.head?.map fun c => ((c.creator, c.id, c.key, c.descriptor), P.holder, Q.holder)) =
      some ((0, 6553601, 0, 0), none, some (.read 6553601 .shmat)) := by decide +kernel
  have hmeets :
      Meets (step 4096) (fun s a => FreshId s a ∧ Spares 0 6553601 s a) start
        askedAgain := by decide +kernel
  obtain ⟨s, hs, hends⟩ := Option.bind_eq_some_iff.mp hends
  obtain ⟨P, hP, hends⟩ := Option.bind_eq_some_iff.mp hends
  obtain ⟨Q, hQ, hends⟩ := Option.bind_eq_some_iff.mp hends
  obtain ⟨c, hc, hends⟩ := Option.map_eq_some_iff.mp hends
  simp only [Prod.mk.injEq] at hends
  obtain ⟨⟨hcreator, hid, hkey, hdescriptor⟩, hfree, hasks⟩ := hends
  obtain ⟨process, hprocess, _, hanswers⟩ :=
    answered_until_removed hs hmeets (List.mem_of_mem_head? hc) hcreator hid
  obtain rfl := Option.some.inj (hP.symm.trans hprocess)
  refine ⟨s, _, { Q with holder := some (.received 6553601 .shmat (some (c.key, c.descriptor))) },
    hs,
    hanswers hQ hasks hfree, by simp [State.set], ?_⟩
  rw [hkey, hdescriptor]

end WinEmulator.Lorie.Shmem
