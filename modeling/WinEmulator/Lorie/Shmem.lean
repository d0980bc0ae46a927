import WinEmulator.Lib.Machine
import Mathlib.Logic.Function.Basic

/-!
# `shmem.c`: System V shared memory

Each process keeps a table of the segments it knows. The process that has made a segment gives the
descriptor of its region to any other that asks for the segment's id at the socket that the id
names. Segments with a key are found through a symbolic link that has their id as its text.

The table is locked by a mutex. What a call does from locking it until it gives it up is one step,
unless it uses the file system or asks another process; then it holds the mutex over several steps,
and the thread of the process that answers others waits. A process may start, fork and exit at any
time. The system calls' answers that nothing decides here are in the actions: the address that
`mmap` gives, and whether a region can be made.
-/

set_option autoImplicit false

namespace WinEmulator.Lorie.Shmem

open WinEmulator.Lib

/-- A region of `ashmem`, by the order in which they are made. -/
abbrev Region := Nat

variable {Proc Addr : Type} [DecidableEq Proc] [DecidableEq Addr]

structure shmem_t (Addr : Type) where
  id : Int
  addr : Option Addr
  /-- The region that the descriptor is of. -/
  descriptor : Region
  size : Nat
  markedForDeletion : Bool
  key : Int

/-- A call of `shmget` with a key, and the id it has made up. -/
structure Keyed where
  key : Int
  size : Nat
  shmid : Option Int
deriving DecidableEq

/-- What calls `ashv_read_remote_segment`. -/
inductive Caller
  | shmget (call : Keyed)
  | shmat
deriving DecidableEq

/-- A call that holds the mutex between two steps, by what it does next. -/
inductive Holder
  | readlink (call : Keyed)
  | unlink (call : Keyed)
  | symlink (call : Keyed)
  /-- It has connected to the socket, and waits for a key and a descriptor. -/
  | read (shmid : Int) (caller : Caller)
  | received (shmid : Int) (caller : Caller) (answer : Option (Int × Region))
deriving DecidableEq

structure Process (Addr : Type) where
  ashv_local_socket_id : Nat
  /-- `ashv_listening_thread_id` is not 0. -/
  listening : Bool
  shmem_counter : Nat
  shmem : List (shmem_t Addr)
  holder : Option Holder
  /-- The regions that are mapped. -/
  memory : Addr → Option Region

/-- A segment that has been made. -/
structure Creation (Proc : Type) where
  creator : Proc
  id : Int
  descriptor : Region
  size : Nat
  key : Int

structure State (Proc Addr : Type) where
  procs : Proc → Option (Process Addr)
  /-- Who listens at the socket with an id in its name. -/
  socket : Int → Option Proc
  /-- The links, by key. -/
  link : Int → Option Int
  /-- The sizes of the regions. -/
  regions : List Nat
  created : List (Creation Proc)
  /-- The keys that `shmget` was called with, and what it returned, unless `-1`. -/
  returned : List (Int × Int)

/-- No process has started. -/
def start : State Proc Addr := ⟨fun _ => none, fun _ => none, fun _ => none, [], [], []⟩

/-! ## Ids -/

/-- A C `int`. -/
def ashv_shmid_from_counter (ashv_local_socket_id counter : Nat) : Int :=
  ((ashv_local_socket_id * 0x10000 + counter : Nat) : Int).bmod 0x100000000

def ashv_socket_id_from_shmid (shmid : Int) : Int := shmid.tdiv 0x10000

def ashv_find_local_index (shmid : Int) (shmem : List (shmem_t Addr)) : Option (shmem_t Addr) :=
  shmem.find? fun segment => segment.id = shmid

/-- `shmem_counter` goes on, and the id of a new segment is made. -/
def mint (process : Process Addr) : Process Addr × Int :=
  let shmem_counter := (process.shmem_counter + 1) % 0x8000
  ({ process with shmem_counter },
    ashv_shmid_from_counter process.ashv_local_socket_id shmem_counter)

/-! ## The table of one process -/

/-- `mmap` in `shmat`, and its answer. -/
def attach (shmid : Int) (mmap : Option Addr) : List (shmem_t Addr) → List (shmem_t Addr)
  | [] => []
  | segment :: shmem =>
    if segment.id = shmid then
      (if segment.addr = none then { segment with addr := mmap } else segment) :: shmem
    else segment :: attach shmid mmap shmem

/-- The loop of `shmdt`. -/
def detach (ashv_local_socket_id : Nat) (shmaddr : Option Addr) :
    List (shmem_t Addr) → List (shmem_t Addr)
  | [] => []
  | segment :: shmem =>
    if segment.addr = shmaddr then
      if segment.markedForDeletion = true ∨
        ashv_socket_id_from_shmid segment.id ≠ ashv_local_socket_id then shmem
      else { segment with addr := none } :: shmem
    else segment :: detach ashv_local_socket_id shmaddr shmem

/-- `IPC_RMID`. -/
def remove (shmid : Int) : List (shmem_t Addr) → List (shmem_t Addr)
  | [] => []
  | segment :: shmem =>
    if segment.id = shmid then
      if segment.addr.isSome = true then { segment with markedForDeletion := true } :: shmem
      else shmem
    else segment :: remove shmid shmem

/-- After `shmat` has found its segment. -/
def Process.map (shmid : Int) (mmap : Option Addr) (process : Process Addr) : Process Addr :=
  match ashv_find_local_index shmid process.shmem with
  | none => process
  | some segment =>
    match segment.addr, mmap with
    | none, some addr =>
      { process with
        shmem := attach shmid mmap process.shmem
        memory := Function.update process.memory addr (some segment.descriptor) }
    | _, _ => process

def Process.shmdt (shmaddr : Option Addr) (process : Process Addr) : Process Addr :=
  { process with
    shmem := detach process.ashv_local_socket_id shmaddr process.shmem
    memory :=
      match shmaddr with
      | none => process.memory
      | some addr =>
        if process.shmem.any (fun segment => segment.addr = some addr) then
          Function.update process.memory addr none
        else process.memory }

/-! ## `ashmem` -/

def ROUND_UP (N S : Nat) : Nat := (N + S - 1) % 0x10000000000000000 / S * S

/-- The result of `ioctl` is an `int`. -/
def ashmem_get_size_region (size : Nat) : Int := (size : Int).bmod 0x100000000

/-- An `int` as a `size_t`. -/
def size_t (size : Int) : Nat := (size % 0x10000000000000000).toNat

/-- The new segment of `ashv_read_remote_segment`, if there is an answer and the region has a
size. -/
def ashv_read_remote_segment (regions : List Nat) (shmid : Int) (answer : Option (Int × Region)) :
    Option (shmem_t Addr) :=
  match answer with
  | none => none
  | some (key, descriptor) =>
    let size := ashmem_get_size_region (regions.getD descriptor 0)
    if size = 0 ∨ size = -1 then none
    else some ⟨shmid, none, descriptor, size_t size, false, key⟩

/-! ## Steps -/

def State.set (s : State Proc Addr) (p : Proc) (process : Process Addr) : State Proc Addr :=
  { s with procs := Function.update s.procs p (some process) }

/-- A process whose mutex is free. -/
def State.free (s : State Proc Addr) (p : Proc) : Option (Process Addr) :=
  (s.procs p).filter fun process => process.holder.isNone

/-- A process with a call that holds its mutex. -/
def State.holder (s : State Proc Addr) (p : Proc) : Option (Process Addr × Holder) :=
  (s.procs p).bind fun process => process.holder.map fun holder => (process, holder)

/-- The end of `shmget`, if there is no segment. -/
def State.create (s : State Proc Addr) (p : Proc) (process : Process Addr) (shmid key : Int)
    (size : Nat) (made : Bool) :
    State Proc Addr :=
  if made = true then
    { s with
      procs := Function.update s.procs p (some { process with
        shmem := process.shmem ++ [⟨shmid, none, s.regions.length, size, false, key⟩]
        holder := none })
      regions := s.regions ++ [size]
      created := s.created ++ [⟨p, shmid, s.regions.length, size, key⟩]
      returned := s.returned ++ [(key, shmid)] }
  else s.set p { process with holder := none }

/-- `return shmem[idx].id`. -/
def State.found (s : State Proc Addr) (p : Proc) (process : Process Addr) (key shmid : Int) :
    State Proc Addr :=
  { s.set p { process with holder := none } with returned := s.returned ++ [(key, shmid)] }

/-- The ids that `shmget` tries to bind its socket to. -/
def sockets (pid : Nat) : List Nat := (List.range 4096).map fun i => (pid + i) % 0x10000

inductive Action (Proc Addr : Type)
  | exec (p : Proc)
  /-- With what `ashv_check_pid` does in the child. -/
  | fork (p child : Proc)
  /-- A forked process may still have the socket. -/
  | exit (p : Proc) (inherited : Bool)
  /-- `if (!ashv_listening_thread_id)`. -/
  | bind (p : Proc) (pid : Nat)
  | shmget (p : Proc) (key : Int) (size : Nat) (made : Bool)
  | readlink (p : Proc)
  | unlink (p : Proc)
  | symlink (p : Proc) (made : Bool)
  /-- The thread of the process that is asked answers. -/
  | answer (p : Proc)
  /-- There is no answer. -/
  | fail (p : Proc)
  | received (p : Proc) (mmap : Option Addr)
  | shmat (p : Proc) (shmid : Int) (mmap : Option Addr)
  | shmdt (p : Proc) (shmaddr : Option Addr)
  | rmid (p : Proc) (shmid : Int)

variable (getpagesize : Nat)

/-- `mmap` gives an address where nothing is. -/
def Unmapped (process : Process Addr) (mmap : Option Addr) : Prop :=
  mmap.all (fun addr => (process.memory addr).isNone) = true

instance (process : Process Addr) (mmap : Option Addr) : Decidable (Unmapped process mmap) :=
  inferInstanceAs (Decidable (_ = true))

/-- `readlink`, and what follows it. -/
def readlink (s : State Proc Addr) (p : Proc) (process : Process Addr) (call : Keyed) :
    State Proc Addr :=
  match s.link call.key with
  | none => s.set p { process with holder := some (.symlink call) }
  | some shmid =>
    if shmid = 0 then s.set p { process with holder := some (.unlink call) }
    else if (ashv_find_local_index shmid process.shmem).isSome = true then
      s.found p process call.key shmid
    else s.set p { process with holder := some (.read shmid (.shmget call)) }

/-- From taking ownership to `symlink`, and what follows it. -/
def symlink (s : State Proc Addr) (p : Proc) (process : Process Addr) (call : Keyed) (made : Bool) :
    State Proc Addr :=
  let minted := call.shmid.elim (mint process) fun shmid => (process, shmid)
  match s.link call.key with
  | none =>
    { s with link := Function.update s.link call.key (some minted.2) }.create p minted.1 minted.2
      call.key
      (ROUND_UP call.size getpagesize) made
  | some _ =>
    s.set p { minted.1 with holder := some (.readlink { call with shmid := some minted.2 }) }

/-- The end of `ashv_read_remote_segment`, and what follows it. -/
def received (s : State Proc Addr) (p : Proc) (process : Process Addr) (shmid : Int)
    (caller : Caller)
    (answer : Option (Int × Region)) (mmap : Option Addr) : State Proc Addr :=
  match ashv_read_remote_segment s.regions shmid answer, caller with
  | some segment, .shmget call =>
    s.found p { process with shmem := process.shmem ++ [segment] } call.key shmid
  | some segment, .shmat =>
    s.set p ({ process with shmem := process.shmem ++ [segment], holder := none }.map shmid mmap)
  | none, .shmget call => s.set p { process with holder := some (.unlink call) }
  | none, .shmat => s.set p { process with holder := none }

def step (s : State Proc Addr) : Action Proc Addr → Option (State Proc Addr)
  | .exec p =>
    if (s.procs p).isNone = true then some (s.set p ⟨0, false, 0, [], none, fun _ => none⟩)
    else none
  | .fork p child =>
    (s.procs p).bind fun process =>
      if (s.procs child).isNone = true then
        some (s.set child
          { process with
          ashv_local_socket_id := 0, listening := false, shmem := [], holder := none })
      else none
  | .exit p inherited =>
    (s.procs p).map fun _ =>
      { s with
        procs := Function.update s.procs p none
        socket := fun id => if s.socket id = some p ∧ inherited = false then none else s.socket id }
  | .bind p pid =>
    (s.procs p).bind fun process =>
      if process.listening = true then none
      else
        match (sockets pid).find? fun id : Nat => (s.socket id).isNone with
        | some id =>
          some { s.set p { process with ashv_local_socket_id := id, listening := true } with
            socket := Function.update s.socket (id : Int) (some p) }
        | none => some (s.set p { process with ashv_local_socket_id := 0 })
  | .shmget p key size made =>
    (s.free p).bind fun process =>
      if process.listening = false then none
      else if key = 0 then
        let minted := mint process
        some (s.create p minted.1 minted.2 key (ROUND_UP size getpagesize) made)
      else some (s.set p { process with holder := some (.readlink ⟨key, size, none⟩) })
  | .readlink p =>
    (s.holder p).bind fun
      | (process, .readlink call) => some (readlink s p process call)
      | _ => none
  | .unlink p =>
    (s.holder p).bind fun
      | (process, .unlink call) =>
        some { s.set p { process with holder := some (.symlink call) } with
          link := Function.update s.link call.key none }
      | _ => none
  | .symlink p made =>
    (s.holder p).bind fun
      | (process, .symlink call) => some (symlink getpagesize s p process call made)
      | _ => none
  | .answer p =>
    (s.holder p).bind fun
      | (process, .read shmid caller) =>
        (s.socket (ashv_socket_id_from_shmid shmid)).bind fun owner =>
          (s.free owner).bind fun asked =>
            if asked.listening = true ∧
              asked.ashv_local_socket_id = ashv_socket_id_from_shmid shmid then
              some (s.set p { process with holder := some (.received shmid caller
                ((ashv_find_local_index shmid asked.shmem).map fun segment =>
                  (segment.key, segment.descriptor))) })
            else none
      | _ => none
  | .fail p =>
    (s.holder p).bind fun
      | (process, .read shmid caller) =>
        some (s.set p { process with holder := some (.received shmid caller none) })
      | _ => none
  | .received p mmap =>
    (s.holder p).bind fun
      | (process, .received shmid caller answer) =>
        if Unmapped process mmap then some (received s p process shmid caller answer mmap) else none
      | _ => none
  | .shmat p shmid mmap =>
    (s.free p).bind fun process =>
      if Unmapped process mmap then
        if (ashv_find_local_index shmid process.shmem).isSome = true then
          some (s.set p (process.map shmid mmap))
        else if ashv_socket_id_from_shmid shmid ≠ process.ashv_local_socket_id then
          some (s.set p { process with holder := some (.read shmid .shmat) })
        else some s
      else none
  | .shmdt p shmaddr => (s.free p).map fun process => s.set p (process.shmdt shmaddr)
  | .rmid p shmid =>
    (s.free p).map fun process => s.set p { process with shmem := remove shmid process.shmem }

end WinEmulator.Lorie.Shmem
