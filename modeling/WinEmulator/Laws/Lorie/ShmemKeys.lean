import WinEmulator.Laws.Lorie.ShmemKept

/-!
# One segment for a key

Any number of processes may call `shmget` with one key at the same time: they look for the symbolic
link, make it, and ask its owner, in any order. While nothing goes wrong, the link of a key stays as
it was made and leads to the one segment with the key. A process that fails to reach the owner takes
the link away, and makes another segment.
-/

set_option autoImplicit false

namespace WinEmulator.Lorie.Shmem

open WinEmulator.Lib

variable {Proc Addr : Type}

/-- `ashv_read_remote_segment` takes a region of the size. -/
def Tellable (size : Nat) : Prop :=
  ashmem_get_size_region size ≠ 0 ∧ ashmem_get_size_region size ≠ -1

instance (size : Nat) : Decidable (Tellable size) := inferInstanceAs (Decidable (_ ∧ _))

/-- Nothing goes wrong: no process exits or removes a segment, regions can be made and have a size,
sockets can be read off ids, and a process that can be asked answers. -/
def Reliable (getpagesize : Nat) (s : State Proc Addr) : Action Proc Addr → Prop
  | .exit _ _ | .rmid _ _ => False
  | .bind _ pid =>
    SmallSocket s pid ∧ ((sockets pid).find? fun id : Nat => (s.socket id).isNone) ≠ some 0
  | .shmget _ _ size made => made = true ∧ Tellable (ROUND_UP size getpagesize)
  | .symlink _ made => made = true
  | .fail p =>
    match s.holder p with
    | some (_, .read shmid _) => (s.socket (ashv_socket_id_from_shmid shmid)).isNone = true
    | _ => True
  | _ => True

instance (getpagesize : Nat) (s : State Proc Addr) : ∀ a, Decidable (Reliable getpagesize s a)
  | .exit _ _ | .rmid _ _ => inferInstanceAs (Decidable False)
  | .bind _ _ => inferInstanceAs (Decidable (_ ∧ _))
  | .shmget _ _ _ _ => inferInstanceAs (Decidable (_ ∧ _))
  | .symlink _ made => inferInstanceAs (Decidable (made = true))
  | .fail p =>
    match h : s.holder p with
    | some (_, .read shmid _) =>
      decidable_of_iff ((s.socket (ashv_socket_id_from_shmid shmid)).isNone = true)
        (by simp only [Reliable, h])
    | some (_, .readlink _) | some (_, .unlink _) | some (_, .symlink _)
    | some (_, .received _ _ _) | none =>
      .isTrue (by simp only [Reliable, h])
  | .exec _ | .fork _ _ | .readlink _ | .unlink _ | .answer _ | .received _ _ | .shmat _ _ _
  | .shmdt _ _ =>
    inferInstanceAs (Decidable True)

/-- A reliable step spares every segment. -/
theorem Reliable.spares {getpagesize : Nat} {s : State Proc Addr} {a : Action Proc Addr}
    (h : Reliable getpagesize s a)
    (p : Proc) (id : Int) :
    Spares p id s a := by
  cases a with
  | exit q inherited => exact h.elim
  | rmid q shmid => exact h.elim
  | bind q pid => exact .inr h.1
  | _ => trivial

theorem Reliable.unbound {getpagesize : Nat} {s : State Proc Addr} {p : Proc}
    {process : Process Addr} {shmid : Int}
    {caller : Caller} (h : Reliable getpagesize s (.fail p)) (hprocess : s.procs p = some process)
    (hholder : process.holder = some (.read shmid caller)) :
    (s.socket (ashv_socket_id_from_shmid shmid)).isNone = true := by
  have hcall : s.holder p = some (process, .read shmid caller) := by
    simp only [State.holder, hprocess, Option.bind_some, hholder, Option.map_some]
  simpa only [Reliable, hcall] using h

/-! ## What holds -/

/-- A call of `shmget` with a key, as far as it has come. -/
def Holder.Follows (getpagesize : Nat) (s : State Proc Addr) : Holder → Prop
  | .readlink call | .symlink call => call.key ≠ 0 ∧ Tellable (ROUND_UP call.size getpagesize)
  | .unlink _ => False
  | .read shmid (.shmget call) =>
    (call.key ≠ 0 ∧ Tellable (ROUND_UP call.size getpagesize)) ∧ s.link call.key = some shmid
  | .received shmid (.shmget call) answer => s.link call.key = some shmid ∧
    ∃ c ∈ s.created, answer = some (c.key, c.descriptor) ∧ Tellable c.size
  | .read _ .shmat | .received _ .shmat _ => True

structure Process.Follows (getpagesize : Nat) (s : State Proc Addr) (process : Process Addr) :
    Prop where
  socket : process.listening = true → process.ashv_local_socket_id ≠ 0
  holder : ∀ holder, process.holder = some holder → holder.Follows getpagesize s

structure Keys (getpagesize : Nat) (s : State Proc Addr) : Prop where
  link : ∀ key id, s.link key = some id → ∃ c ∈ s.created, c.id = id ∧ c.key = key ∧ Tellable c.size
  made : ∀ c ∈ s.created, c.key ≠ 0 → s.link c.key = some c.id
  returned : ∀ key id, (key, id) ∈ s.returned → key ≠ 0 → s.link key = some id
  procs : ∀ p process, s.procs p = some process → process.Follows getpagesize s

variable {getpagesize : Nat}

theorem keys_start : Keys getpagesize (start : State Proc Addr) where
  link := fun _ _ h => by cases h
  made := fun _ h => by cases h
  returned := fun _ _ h => by cases h
  procs := fun _ _ h => by cases h

/-- A process that follows the links follows them when more are made. -/
theorem Process.Follows.mono {s s' : State Proc Addr} {process : Process Addr}
    (h : process.Follows getpagesize s)
    (hlink : ∀ key id, s.link key = some id → s'.link key = some id)
    (hcreated : ∀ c ∈ s.created, c ∈ s'.created) :
    process.Follows getpagesize s' := by
  refine ⟨h.socket, fun holder hholder => ?_⟩
  have hfollows := h.holder holder hholder
  cases holder with
  | readlink call => exact hfollows
  | unlink call => exact hfollows
  | symlink call => exact hfollows
  | read shmid caller =>
    cases caller with
    | shmget call => exact ⟨hfollows.1, hlink _ _ hfollows.2⟩
    | shmat => trivial
  | received shmid caller answer =>
    cases caller with
    | shmget call =>
      obtain ⟨hkey, c, hc, hanswer⟩ := hfollows
      exact ⟨hlink _ _ hkey, c, hcreated c hc, hanswer⟩
    | shmat => trivial

theorem Process.Follows.setHolder {s : State Proc Addr} {process : Process Addr}
    (h : process.Follows getpagesize s)
    {holder : Option Holder} (hfollows : ∀ next, holder = some next → next.Follows getpagesize s) :
    ({ process with holder } : Process Addr).Follows getpagesize s := ⟨h.socket, hfollows⟩

theorem Process.Follows.same {s : State Proc Addr} {before after : Process Addr}
    (h : before.Follows getpagesize s)
    (hlistening : after.listening = before.listening)
    (hsocket : after.ashv_local_socket_id = before.ashv_local_socket_id)
    (hholder : after.holder = before.holder ∨ after.holder = none) :
    after.Follows getpagesize s := by
  refine ⟨fun hthere => hsocket ▸ h.socket (hlistening ▸ hthere), fun holder hnext => ?_⟩
  obtain hsame | hfree := hholder
  · exact h.holder holder (hsame ▸ hnext)
  · rw [hfree] at hnext
    cases hnext

/-- A process without a socket, and in no call. -/
theorem Process.Follows.unheard {s : State Proc Addr} {process : Process Addr}
    (hlistening : process.listening = false)
    (hfree : process.holder = none) : process.Follows getpagesize s := by
  refine ⟨fun hthere => ?_, fun holder hnext => ?_⟩
  · rw [hlistening] at hthere
    cases hthere
  · rw [hfree] at hnext
    cases hnext

/-- A region of such a size is taken. -/
theorem read_remote_of_tellable {regions : List Nat} {shmid key : Int} {descriptor : Region}
    (h : Tellable (regions.getD descriptor 0)) :
    (ashv_read_remote_segment regions shmid (some (key, descriptor)) : Option (shmem_t Addr)) ≠
      none := by
  have hnot : ¬(ashmem_get_size_region (regions.getD descriptor 0) = 0 ∨
      ashmem_get_size_region (regions.getD descriptor 0) = -1) :=
    fun hbad => hbad.elim h.1 h.2
  simp only [ashv_read_remote_segment, if_neg hnot]
  exact Option.some_ne_none _

variable [DecidableEq Proc]

/-- A process that follows the links may be put in another's place. -/
theorem Keys.set {s : State Proc Addr} (h : Keys getpagesize s) (p : Proc) {process : Process Addr}
    (hfollows : process.Follows getpagesize s) : Keys getpagesize (s.set p process) := by
  refine ⟨h.link, h.made, h.returned, fun q found hfound => ?_⟩
  have hthere : found.Follows getpagesize s := by
    by_cases hqp : q = p
    · subst hqp
      simp only [State.set, Function.update_self, Option.some_inj] at hfound
      exact hfound ▸ hfollows
    · exact h.procs q found (by simpa only [State.set, Function.update_of_ne hqp] using hfound)
  exact hthere.mono (fun _ _ hlink => hlink) fun _ hc => hc

/-- `shmget` returns the id that the link has. -/
theorem Keys.found {s : State Proc Addr} (h : Keys getpagesize s) (p : Proc)
    {process : Process Addr}
    (hfollows : process.Follows getpagesize s) {key id : Int} (hlink : s.link key = some id) :
    Keys getpagesize (s.found p process key id) := by
  have hfree : ({ process with holder := none } : Process Addr).Follows getpagesize s :=
    hfollows.same rfl rfl (.inr rfl)
  have hset := h.set p hfree
  refine ⟨hset.link, hset.made, fun key' id' hreturned hkey => ?_, fun q found hfound => ?_⟩
  · obtain hreturned | hreturned := List.mem_append.mp hreturned
    · exact hset.returned key' id' hreturned hkey
    · cases List.mem_singleton.mp hreturned
      exact hlink
  · exact (hset.procs q found hfound).mono (fun _ _ hlink => hlink) fun _ hc => hc

/-- A segment is made, and if it has a key, there was no link for it and now there is. -/
theorem Keys.create {s : State Proc Addr} (h : Keys getpagesize s) (p : Proc)
    {process : Process Addr}
    (hfollows : process.Follows getpagesize s) {id key : Int} {size : Nat} (hsize : Tellable size)
    {link : Int → Option Int}
    (hnew : key ≠ 0 → s.link key = none ∧ link = Function.update s.link key (some id))
    (hsame : key = 0 → link = s.link) :
    Keys getpagesize ({ s with link }.create p process id key size true) := by
  have hkept : ∀ key' id', s.link key' = some id' → link key' = some id' := by
    intro key' id' hlink
    by_cases hkey : key = 0
    · rw [hsame hkey]
      exact hlink
    · obtain ⟨hnone, hupdate⟩ := hnew hkey
      have hne : key' ≠ key := fun he => by rw [he, hnone] at hlink; cases hlink
      rw [hupdate, Function.update_of_ne hne]
      exact hlink
  rw [State.create, if_pos rfl]
  refine ⟨fun key' id' hlink => ?_, fun c hc hkey => ?_, fun key' id' hreturned hkey => ?_,
    fun q found hfound => ?_⟩
  · have hold :
        s.link key' = some id' → ∃ c ∈ s.created ++ [⟨p, id, s.regions.length, size, key⟩],
          c.id = id' ∧
        c.key = key' ∧ Tellable c.size := fun hlink => by
      obtain ⟨c, hc, hcid⟩ := h.link key' id' hlink
      exact ⟨c, List.mem_append_left _ hc, hcid⟩
    by_cases hkey : key = 0
    · exact hold (by rw [← hsame hkey]; exact hlink)
    · obtain ⟨_, hupdate⟩ := hnew hkey
      by_cases hhere : key' = key
      · subst hhere
        have hid : link key' = some id := by rw [hupdate, Function.update_self]
        obtain rfl := Option.some.inj (hid.symm.trans hlink)
        exact ⟨_, List.mem_append_right _ List.mem_cons_self, rfl, rfl, hsize⟩
      · refine hold ?_
        rw [← Function.update_of_ne hhere (some id) s.link, ← hupdate]
        exact hlink
  · obtain hc | hc := List.mem_append.mp hc
    · exact hkept _ _ (h.made c hc hkey)
    · obtain rfl := List.mem_singleton.mp hc
      obtain ⟨_, hupdate⟩ := hnew hkey
      exact hupdate ▸ Function.update_self _ _ _
  · obtain hreturned | hreturned := List.mem_append.mp hreturned
    · exact hkept _ _ (h.returned key' id' hreturned hkey)
    · cases List.mem_singleton.mp hreturned
      obtain ⟨_, hupdate⟩ := hnew hkey
      exact hupdate ▸ Function.update_self _ _ _
  · have hthere : found.Follows getpagesize s := by
      by_cases hqp : q = p
      · subst hqp
        simp only [Function.update_self, Option.some_inj] at hfound
        subst hfound
        exact ⟨hfollows.socket, fun _ hnext => by cases hnext⟩
      · exact h.procs q found (by simpa only [Function.update_of_ne hqp] using hfound)
    exact hthere.mono hkept fun _ hc => List.mem_append_left _ hc

/-! ## Steps -/

omit [DecidableEq Proc] in
/-- The process that the segment of a link belongs to, and what it answers. -/
theorem Keys.owner {s : State Proc Addr} (h : Keys getpagesize s) (howner : ∀ p id, Owner p id s)
    {key id : Int}
    (hlink : s.link key = some id) :
    ∃ c ∈ s.created, c.id = id ∧ c.key = key ∧ Tellable c.size ∧ id ≠ 0 ∧
      s.socket (ashv_socket_id_from_shmid id) = some c.creator ∧
      ∃ process, s.procs c.creator = some process ∧ process.Keeps c := by
  obtain ⟨c, hc, hid, hkey, hsize⟩ := h.link key id hlink
  obtain ⟨process, hprocess, hkeeps⟩ := (howner c.creator id).kept c hc rfl hid
  obtain ⟨hlistening, hsocket, hsegment⟩ := hkeeps
  refine ⟨c, hc, hid, hkey, hsize, fun hzero => ?_, ?_, process, hprocess, hlistening, hsocket,
    hsegment⟩
  · have hnot := (h.procs _ process hprocess).socket hlistening
    rw [hid, hzero] at hsocket
    exact hnot (Int.ofNat.inj hsocket).symm
  · rw [← hid, hsocket]
    exact (howner c.creator id).socket process hprocess hlistening

/-- Following the link of a key keeps the invariant. -/
theorem keys_readlink {s : State Proc Addr} (h : Keys getpagesize s) (howner : ∀ p id, Owner p id s)
    (p : Proc)
    {process : Process Addr} (hfollows : process.Follows getpagesize s) {call : Keyed}
    (hholder : process.holder = some (.readlink call)) :
    Keys getpagesize (readlink s p process call) := by
  have hcall := hfollows.holder _ hholder
  unfold readlink
  split
  · exact h.set p (hfollows.setHolder fun _ hnext => by cases hnext; exact hcall)
  · next shmid hlink =>
    obtain ⟨_, _, _, _, _, hnonzero, _⟩ := h.owner howner hlink
    rw [if_neg hnonzero]
    split
    · exact h.found p hfollows hlink
    · exact h.set p (hfollows.setHolder fun _ hnext => by cases hnext; exact ⟨hcall, hlink⟩)

/-- Making the link of a key keeps the invariant. -/
theorem keys_symlink {s : State Proc Addr} (h : Keys getpagesize s) (p : Proc)
    {process : Process Addr}
    (hfollows : process.Follows getpagesize s) {call : Keyed}
    (hholder : process.holder = some (.symlink call)) :
    Keys getpagesize (symlink getpagesize s p process call true) := by
  have hcall : call.key ≠ 0 ∧ Tellable (ROUND_UP call.size getpagesize) := hfollows.holder _ hholder
  have hminted :
      (call.shmid.elim (mint process) fun shmid => (process, shmid)).1.Follows getpagesize s := by
    cases call.shmid with
    | none =>
      rw [Option.elim_none]
      exact ⟨hfollows.socket, hfollows.holder⟩
    | some shmid => exact hfollows
  unfold symlink
  dsimp only
  split
  · next hnone => exact h.create p hminted hcall.2 (fun _ => ⟨hnone, rfl⟩) fun hzero =>
      (hcall.1 hzero).elim
  · exact h.set p (hminted.setHolder fun _ hnext => by cases hnext; exact hcall)

variable [DecidableEq Addr]

theorem map_same (shmid : Int) (mmap : Option Addr) (process : Process Addr) :
    (process.map shmid mmap).listening = process.listening ∧
      (process.map shmid mmap).ashv_local_socket_id = process.ashv_local_socket_id ∧
      (process.map shmid mmap).holder = process.holder := by
  unfold Process.map
  split
  · exact ⟨rfl, rfl, rfl⟩
  · split
    · exact ⟨rfl, rfl, rfl⟩
    · exact ⟨rfl, rfl, rfl⟩

/-- Taking an answer keeps the invariant. -/
theorem keys_received {s : State Proc Addr} (h : Keys getpagesize s) (hi : Inv s) (p : Proc)
    {process : Process Addr}
    (hfollows : process.Follows getpagesize s) {shmid : Int} {caller : Caller}
    {answer : Option (Int × Region)}
    (hholder : process.holder = some (.received shmid caller answer)) (mmap : Option Addr) :
    Keys getpagesize (received s p process shmid caller answer mmap) := by
  have hcall := hfollows.holder _ hholder
  unfold received
  split
  · next segment call _ =>
    have hadded :
        ({ process with shmem := process.shmem ++ [segment] } : Process Addr).Follows
          getpagesize s :=
      hfollows.same rfl rfl (.inl rfl)
    exact h.found p hadded hcall.1
  · next segment _ =>
    obtain ⟨hlistening, hsocket, hfree⟩ := map_same shmid mmap
      { process with shmem := process.shmem ++ [segment], holder := none }
    exact h.set p (hfollows.same hlistening hsocket (.inr hfree))
  · next call hnone =>
    -- the region that the owner has given has a size
    obtain ⟨_, c, hc, rfl, hsize⟩ := hcall
    rw [← hi.getD_regions hc] at hsize
    exact (read_remote_of_tellable hsize hnone).elim
  · exact h.set p (hfollows.same rfl rfl (.inr rfl))

/-- **Step lemma.** Every reliable step keeps the links. -/
theorem Keys.step {s s' : State Proc Addr} {a : Action Proc Addr} (h : Keys getpagesize s)
    (hi : Inv s)
    (howner : ∀ p id, Owner p id s) (hreliable : Reliable getpagesize s a)
    (hstep : step getpagesize s a = some s') :
    Keys getpagesize s' := by
  cases step_cases hstep with
  | @exec p _ => exact h.set p (.unheard rfl rfl)
  | @fork p child _ _ _ => exact h.set child (.unheard rfl rfl)
  | exit _ _ => exact hreliable.elim
  | rmid _ _ _ => exact hreliable.elim
  | @bound p process pid socket hprocess _ hfound =>
    have hfollows := h.procs p process hprocess
    have hnonzero : socket ≠ 0 := fun hzero => hreliable.2 (hzero ▸ hfound)
    have hset :
        Keys getpagesize
          (s.set p { process with ashv_local_socket_id := socket, listening := true }) :=
      h.set p ⟨fun _ => hnonzero, hfollows.holder⟩
    refine ⟨hset.link, hset.made, hset.returned, fun q found hq => ?_⟩
    exact (hset.procs q found hq).mono (fun _ _ hlink => hlink) fun _ hc => hc
  | @unbound p process pid hprocess hnot =>
    refine h.set p ⟨fun hthere => ?_, (h.procs p process hprocess).holder⟩
    exact absurd (hnot.symm.trans hthere) Bool.false_ne_true
  | @privateSegment p process size made hprocess _ _ =>
    obtain ⟨rfl, hsize⟩ := hreliable
    have hminted : (mint process).1.Follows getpagesize s :=
      (h.procs p process hprocess).same rfl rfl (.inl rfl)
    exact h.create p hminted hsize (fun hnonzero => (hnonzero rfl).elim) fun _ => rfl
  | @keyed p process key size made hprocess _ _ hkey =>
    obtain ⟨_, hsize⟩ := hreliable
    exact h.set p
      ((h.procs p process hprocess).setHolder fun _ hnext => by cases hnext; exact ⟨hkey, hsize⟩)
  | @readlink p process _ hprocess hholder =>
    exact keys_readlink h howner p (h.procs p process hprocess) hholder
  | @unlink p process _ hprocess hholder =>
    exact ((h.procs p process hprocess).holder _ hholder).elim
  | @symlink p process _ made hprocess hholder =>
    obtain rfl : made = true := hreliable
    exact keys_symlink h p (h.procs p process hprocess) hholder
  | @answer p owner process asked shmid caller hprocess hholder hbound hasked _ =>
    have hfollows := h.procs p process hprocess
    refine h.set p (hfollows.setHolder fun next hnext => ?_)
    cases hnext
    cases caller with
    | shmat => trivial
    | shmget call =>
      obtain ⟨_, hlink⟩ := hfollows.holder _ hholder
      obtain ⟨c, hc, hid, _, hsize, _, hsocket, found, hfound, _, _, e, he, heid, hdescriptor,
          hkey, _⟩ :=
        h.owner howner hlink
      -- the owner is the process asked
      obtain rfl : c.creator = owner := Option.some.inj (hsocket.symm.trans hbound)
      obtain rfl : found = asked := Option.some.inj (hfound.symm.trans hasked)
      refine ⟨hlink, c, hc, ?_, hsize⟩
      rw [← hid, ← heid, find_of_mem (hi.procs _ found hfound).apart he, Option.map_some, hkey,
        hdescriptor]
  | @fail p process shmid caller hprocess hholder =>
    have hfollows := h.procs p process hprocess
    have hunbound := hreliable.unbound hprocess hholder
    refine h.set p (hfollows.setHolder fun next hnext => ?_)
    cases hnext
    cases caller with
    | shmat => trivial
    | shmget call =>
      obtain ⟨_, hlink⟩ := hfollows.holder _ hholder
      obtain ⟨c, _, _, _, _, _, hsocket, _⟩ := h.owner howner hlink
      rw [hsocket] at hunbound
      cases hunbound
  | @received p process _ _ _ mmap hprocess hholder _ =>
    exact keys_received h hi p (h.procs p process hprocess) hholder mmap
  | @attached p process mmap shmid hprocess _ _ =>
    obtain ⟨hlistening, hsocket, hholder⟩ := map_same shmid mmap process
    exact h.set p ((h.procs p process hprocess).same hlistening hsocket (.inl hholder))
  | @asks p process _ _ hprocess _ _ =>
    exact h.set p ((h.procs p process hprocess).setHolder fun _ hnext => by cases hnext; trivial)
  | nothing _ _ _ => exact h
  | @shmdt p process _ hprocess _ =>
    exact h.set p ((h.procs p process hprocess).same rfl rfl (.inl rfl))

/-- What holds while nothing goes wrong. -/
structure Sound (getpagesize : Nat) (s : State Proc Addr) : Prop where
  inv : Inv s
  owner : ∀ p id, Owner p id s
  keys : Keys getpagesize s

/-- **Step lemma.** The three invariants together are kept by every reliable step. -/
theorem Sound.step {s s' : State Proc Addr} {a : Action Proc Addr} (h : Sound getpagesize s)
    (hok : FreshId s a ∧ Reliable getpagesize s a) (hstep : step getpagesize s a = some s') :
    Sound getpagesize s' :=
  ⟨h.inv.step hok.1 hstep, fun p id => (h.owner p id).step (hok.2.spares p id) hstep,
    h.keys.step h.inv h.owner hok.2 hstep⟩

omit [DecidableEq Proc] [DecidableEq Addr] in
/-- A key leads to one segment. -/
theorem Keys.unique {s : State Proc Addr} (h : Keys getpagesize s) (hi : Inv s) {key id : Int}
    (hkey : key ≠ 0)
    (hlink : s.link key = some id) :
    ∃ c ∈ s.created, c.key = key ∧ c.id = id ∧ ∀ d ∈ s.created, d.key = key → d = c := by
  obtain ⟨c, hc, hid, hckey, _⟩ := h.link key id hlink
  refine ⟨c, hc, hckey, hid, fun d hd hdkey => ?_⟩
  have hdlink := h.made d hd (hdkey ▸ hkey)
  rw [hdkey, hlink] at hdlink
  have hnodup : (s.created.map Creation.id).Nodup := List.pairwise_map.mpr hi.ids
  exact List.inj_on_of_nodup_map hnodup hd hc ((Option.some.inj hdlink).symm.trans hid.symm)

end WinEmulator.Lorie.Shmem
