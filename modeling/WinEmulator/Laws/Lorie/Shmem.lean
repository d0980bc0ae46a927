import WinEmulator.Lorie.Shmem
import Mathlib.Data.List.Forall2
import Mathlib.Data.List.Nodup
import Mathlib.Data.List.Pairwise

/-!
# Laws of System V shared memory

An id names one region in all processes: two segments in any tables have the same id exactly when
they are of the same region, and what a process has mapped at a segment's address is that region.
This needs that no id is made up again that has been given to a segment before, which the 15 bits of
the counter and the 16 bits of the socket can bring about.
-/

set_option autoImplicit false

namespace WinEmulator.Lorie.Shmem

open WinEmulator.Lib

variable {Proc Addr : Type}

/-! ## Segments -/

/-- Two segments of one table. -/
def Apart (e f : shmem_t Addr) : Prop :=
  e.id ≠ f.id ∧ ∀ addr, e.addr = some addr → f.addr ≠ some addr

/-- A segment that is another one, perhaps no longer attached or to be deleted. -/
def Below (e f : shmem_t Addr) : Prop :=
  e.id = f.id ∧ e.descriptor = f.descriptor ∧ e.size = f.size ∧ e.key = f.key ∧ ∀ addr,
    e.addr = some addr → f.addr = some addr

theorem Below.refl (e : shmem_t Addr) : Below e e := ⟨rfl, rfl, rfl, rfl, fun _ h => h⟩

instance : Std.Symm (@Apart Addr) where
  symm := fun _ _ h => ⟨h.1.symm, fun addr hf he => h.2 addr he hf⟩

theorem Apart.below {e e' f f' : shmem_t Addr} (h : Apart e f) (he : Below e' e) (hf : Below f' f) :
    Apart e' f' := by
  refine ⟨?_, fun addr haddr haddr' => h.2 addr (he.2.2.2.2 addr haddr) (hf.2.2.2.2 addr haddr')⟩
  rw [he.1, hf.1]
  exact h.1

/-- A segment on the list is the one that its id finds. -/
theorem find_of_mem {shmem : List (shmem_t Addr)} (hapart : shmem.Pairwise Apart) {e : shmem_t Addr}
    (he : e ∈ shmem) :
    ashv_find_local_index e.id shmem = some e := by
  obtain ⟨f, hf⟩ :=
    Option.isSome_iff_exists.mp (List.find?_isSome (p := fun f => f.id = e.id).mpr ⟨e, he, by simp⟩)
  have hid : f.id = e.id := by simpa using List.find?_some hf
  by_cases hsame : f = e
  · exact hsame ▸ hf
  · exact ((hapart.forall (List.mem_of_find?_eq_some hf) he hsame).1 hid).elim

/-- The segments of a table are those of another, or some of them. -/
abbrev Kept : List (shmem_t Addr) → List (shmem_t Addr) → Prop := List.SublistForall₂ Below

theorem Kept.refl (shmem : List (shmem_t Addr)) : Kept shmem shmem := by
  induction shmem with
  | nil => exact .nil
  | cons e shmem ih => exact .cons (.refl e) ih

theorem Kept.exists {shmem shmem' : List (shmem_t Addr)} (h : Kept shmem' shmem) {e : shmem_t Addr}
    (he : e ∈ shmem') :
    ∃ f ∈ shmem, Below e f := by
  induction h with
  | nil => cases he
  | @cons e' f shmem' shmem hbelow hkept ih =>
    obtain rfl | he := List.mem_cons.mp he
    · exact ⟨f, List.mem_cons_self, hbelow⟩
    · obtain ⟨g, hg, hbelow'⟩ := ih he
      exact ⟨g, List.mem_cons_of_mem _ hg, hbelow'⟩
  | cons_right hkept ih =>
    obtain ⟨g, hg, hbelow⟩ := ih he
    exact ⟨g, List.mem_cons_of_mem _ hg, hbelow⟩

/-- What is kept of a list of separate segments is separate. -/
theorem Kept.apart {shmem shmem' : List (shmem_t Addr)} (h : Kept shmem' shmem)
    (hapart : shmem.Pairwise Apart) :
    shmem'.Pairwise Apart := by
  induction h with
  | nil => exact .nil
  | cons hbelow hkept ih =>
    obtain ⟨hhead, htail⟩ := List.pairwise_cons.mp hapart
    refine List.pairwise_cons.mpr ⟨fun e he => ?_, ih htail⟩
    obtain ⟨f, hf, hbelow'⟩ := Kept.exists hkept he
    exact (hhead f hf).below hbelow hbelow'
  | cons_right hkept ih => exact ih (List.pairwise_cons.mp hapart).2

/-- A removal keeps the rest. -/
theorem kept_remove (shmid : Int) (shmem : List (shmem_t Addr)) :
    Kept (remove shmid shmem) shmem := by
  induction shmem with
  | nil => exact .nil
  | cons e shmem ih =>
    unfold remove
    split
    · split
      · exact .cons ⟨rfl, rfl, rfl, rfl, fun _ h => h⟩ (Kept.refl shmem)
      · exact .cons_right (Kept.refl shmem)
    · exact .cons (.refl e) ih

/-- What `mmap` has made of the segment that was found. -/
theorem mem_attach {shmid : Int} {addr : Addr} {shmem : List (shmem_t Addr)}
    {segment : shmem_t Addr}
    (hfound : ashv_find_local_index shmid shmem = some segment) (hfree : segment.addr = none)
    {e : shmem_t Addr}
    (he : e ∈ attach shmid (some addr) shmem) :
    e ∈ shmem ∨ e = { segment with addr := some addr } := by
  induction shmem with
  | nil => cases he
  | cons f shmem ih =>
    unfold attach at he
    unfold ashv_find_local_index at hfound
    split at he
    · next hf =>
      rw [List.find?_cons_of_pos (by simpa using hf)] at hfound
      cases hfound
      rw [if_pos hfree] at he
      obtain rfl | he := List.mem_cons.mp he
      · exact .inr rfl
      · exact .inl (List.mem_cons_of_mem _ he)
    · next hf =>
      rw [List.find?_cons_of_neg (by simpa using hf)] at hfound
      obtain rfl | he := List.mem_cons.mp he
      · exact .inl List.mem_cons_self
      · exact (ih hfound he).imp (List.mem_cons_of_mem _) id

/-- Attaching a segment at a new address keeps the segments separate. -/
theorem apart_attach {shmid : Int} {addr : Addr} {shmem : List (shmem_t Addr)}
    {segment : shmem_t Addr}
    (hfound : ashv_find_local_index shmid shmem = some segment) (hfree : segment.addr = none)
    (hapart : shmem.Pairwise Apart) (hnew : ∀ e ∈ shmem, e.addr ≠ some addr) :
    (attach shmid (some addr) shmem).Pairwise Apart := by
  induction shmem with
  | nil => exact .nil
  | cons f shmem ih =>
    obtain ⟨hhead, htail⟩ := List.pairwise_cons.mp hapart
    unfold ashv_find_local_index at hfound
    unfold attach
    split
    · next hf =>
      rw [List.find?_cons_of_pos (by simpa using hf)] at hfound
      cases hfound
      rw [if_pos hfree]
      refine List.pairwise_cons.mpr ⟨fun e he => ⟨(hhead e he).1, fun a ha => ?_⟩, htail⟩
      cases ha
      exact hnew e (List.mem_cons_of_mem _ he)
    · next hf =>
      rw [List.find?_cons_of_neg (by simpa using hf)] at hfound
      refine List.pairwise_cons.mpr
        ⟨fun e he => ?_, ih hfound htail fun e he => hnew e (List.mem_cons_of_mem _ he)⟩
      obtain he | rfl := mem_attach hfound hfree he
      · exact hhead e he
      · have hsegment : segment ∈ shmem := List.mem_of_find?_eq_some hfound
        refine ⟨(hhead segment hsegment).1, fun a ha ha' => ?_⟩
        cases ha'
        exact hnew f List.mem_cons_self ha

/-! ## What a process knows -/

/-- A segment of a table is one that has been made. -/
def Describes (created : List (Creation Proc)) (e : shmem_t Addr) : Prop :=
  ∃ c ∈ created, c.id = e.id ∧ c.descriptor = e.descriptor ∧ c.key = e.key ∧
    (c.size < 0x80000000 → e.size = c.size)

def Holder.Fits (created : List (Creation Proc)) (shmem : List (shmem_t Addr)) : Holder → Prop
  | .read shmid _ => ∀ e ∈ shmem, e.id ≠ shmid
  | .received shmid _ answer => (∀ e ∈ shmem, e.id ≠ shmid) ∧
    ∀ key descriptor, answer = some (key, descriptor) → ∃ c ∈ created, c.id = shmid ∧
      c.descriptor = descriptor ∧ c.key = key
  | _ => True

structure Process.Ok (created : List (Creation Proc)) (process : Process Addr) : Prop where
  apart : process.shmem.Pairwise Apart
  mapped : ∀ e ∈ process.shmem, ∀ addr, e.addr = some addr → process.memory addr = some e.descriptor
  known : ∀ e ∈ process.shmem, Describes created e
  holder : ∀ holder, process.holder = some holder → holder.Fits created process.shmem

/-- What a segment is described by is not taken back. -/
theorem Describes.snoc {created : List (Creation Proc)} {e : shmem_t Addr} (h : Describes created e)
    (c : Creation Proc) :
    Describes (created ++ [c]) e := by
  obtain ⟨d, hd, hsame⟩ := h
  exact ⟨d, List.mem_append_left _ hd, hsame⟩

theorem Describes.below {created : List (Creation Proc)} {e f : shmem_t Addr}
    (h : Describes created f) (hbelow : Below e f) :
    Describes created e := by
  obtain ⟨c, hc, hid, hdescriptor, hkey, hsize⟩ := h
  obtain ⟨hid', hdescriptor', hsize', hkey', _⟩ := hbelow
  exact ⟨c, hc, hid.trans hid'.symm, hdescriptor.trans hdescriptor'.symm, hkey.trans hkey'.symm,
    fun hsmall => hsize'.trans (hsize hsmall)⟩

namespace Process.Ok

variable {created : List (Creation Proc)} {process : Process Addr}

/-- A process is in order when more regions have been created. -/
theorem snoc (h : process.Ok created) (c : Creation Proc) : process.Ok (created ++ [c]) where
  apart := h.apart
  mapped := h.mapped
  known := fun e he => (h.known e he).snoc c
  holder := by
    intro holder hholder
    have hfits := h.holder holder hholder
    cases holder with
    | read shmid caller => exact hfits
    | received shmid caller answer =>
      refine ⟨hfits.1, fun key descriptor hanswer => ?_⟩
      obtain ⟨d, hd, hsame⟩ := hfits.2 key descriptor hanswer
      exact ⟨d, List.mem_append_left _ hd, hsame⟩
    | readlink call => trivial
    | unlink call => trivial
    | symlink call => trivial

/-- A call goes on. -/
theorem setHolder (h : process.Ok created) {holder : Option Holder}
    (hfits : ∀ next, holder = some next → next.Fits created process.shmem) :
    ({ process with holder } : Process Addr).Ok created :=
  { h with holder := hfits }

theorem free (h : process.Ok created) :
    ({ process with holder := none } : Process Addr).Ok created :=
  h.setHolder fun _ hnext => by cases hnext

theorem of_nil (hshmem : process.shmem = []) (hholder : process.holder = none) :
    process.Ok created where
  apart := by rw [hshmem]; exact .nil
  mapped := fun e he => by rw [hshmem] at he; cases he
  known := fun e he => by rw [hshmem] at he; cases he
  holder := fun holder h => by rw [hholder] at h; cases h

/-- A segment that no table entry has the id of, not yet attached. -/
theorem add (h : process.Ok created) {segment : shmem_t Addr}
    (hnew : ∀ e ∈ process.shmem, e.id ≠ segment.id)
    (haddr : segment.addr = none) (hknown : Describes created segment) :
    ({ process with shmem := process.shmem ++ [segment], holder := none } : Process Addr).Ok
      created where
  apart := by
    refine List.pairwise_append.mpr ⟨h.apart, List.pairwise_singleton _ _, fun e he f hf => ?_⟩
    obtain rfl := List.mem_singleton.mp hf
    exact ⟨hnew e he, fun addr _ haddr' => by rw [haddr] at haddr'; cases haddr'⟩
  mapped := by
    intro e he addr ha
    obtain he | he := List.mem_append.mp he
    · exact h.mapped e he addr ha
    · rw [List.mem_singleton.mp he, haddr] at ha
      cases ha
  known := by
    intro e he
    obtain he | he := List.mem_append.mp he
    · exact h.known e he
    · exact List.mem_singleton.mp he ▸ hknown
  holder := fun _ hholder => by cases hholder

/-- A removal leaves the process in order. -/
theorem remove (h : process.Ok created) (hfree : process.holder = none) (shmid : Int) :
    ({ process with shmem := Shmem.remove shmid process.shmem } : Process Addr).Ok created where
  apart := (kept_remove _ _).apart h.apart
  mapped := by
    intro e he addr haddr
    obtain ⟨f, hf, hbelow⟩ := (kept_remove _ _).exists he
    rw [hbelow.2.1]
    exact h.mapped f hf addr (hbelow.2.2.2.2 addr haddr)
  known := by
    intro e he
    obtain ⟨f, hf, hbelow⟩ := (kept_remove _ _).exists he
    exact (h.known f hf).below hbelow
  holder := fun holder hholder => by
    have hnone : process.holder = some holder := hholder
    rw [hfree] at hnone
    cases hnone

end Process.Ok

/-! ## All processes -/

theorem free_eq {s : State Proc Addr} {p : Proc} {process : Process Addr}
    (h : s.free p = some process) :
    s.procs p = some process ∧ process.holder = none := by
  obtain ⟨hprocess, hnone⟩ := Option.filter_eq_some_iff.mp h
  exact ⟨hprocess, Option.isNone_iff_eq_none.mp hnone⟩

theorem holder_eq {s : State Proc Addr} {p : Proc} {process : Process Addr} {holder : Holder}
    (h : s.holder p = some (process, holder)) :
    s.procs p = some process ∧ process.holder = some holder := by
  obtain ⟨found, hfound, hmap⟩ := Option.bind_eq_some_iff.mp h
  obtain ⟨next, hnext, hpair⟩ := Option.map_eq_some_iff.mp hmap
  cases hpair
  exact ⟨hfound, hnext⟩

structure Inv (s : State Proc Addr) : Prop where
  ids : s.created.Pairwise fun c d => c.id ≠ d.id
  descriptors : s.created.map Creation.descriptor = List.range s.regions.length
  sizes : s.created.map Creation.size = s.regions
  procs : ∀ p process, s.procs p = some process → process.Ok s.created

theorem inv_start : Inv (start : State Proc Addr) :=
  ⟨.nil, rfl, rfl, fun _ _ h => by cases h⟩

/-- The size of a region is that of the segment made with it. -/
theorem Inv.getD_regions {s : State Proc Addr} (hi : Inv s) {c : Creation Proc}
    (hc : c ∈ s.created) :
    s.regions.getD c.descriptor 0 = c.size := by
  obtain ⟨i, hi', rfl⟩ := List.mem_iff_getElem.mp hc
  have hdescriptor : (s.created.map Creation.descriptor)[i]? = some (s.created[i]).descriptor := by
    simp [hi']
  have hsize : (s.created.map Creation.size)[i]? = some (s.created[i]).size := by simp [hi']
  rw [hi.descriptors] at hdescriptor
  rw [hi.sizes] at hsize
  obtain ⟨_, hdescriptor⟩ := List.getElem?_eq_some_iff.mp hdescriptor
  rw [← hdescriptor, List.getElem_range, List.getD_eq_getElem?_getD, hsize]
  rfl

/-- Sizes below 2 GiB come through the `ioctl` unchanged. -/
theorem size_t_ashmem {size : Nat} (hsmall : size < 0x80000000) :
    size_t (ashmem_get_size_region size) = size := by
  have hint : (size : Int).bmod 0x100000000 = size := Int.bmod_eq_of_le (by omega) (by omega)
  have hunsigned : ((size : Int) % 0x10000000000000000).toNat = size := by omega
  unfold size_t ashmem_get_size_region
  rw [hint, hunsigned]

/-- What is read from another process is a segment that has been made. -/
theorem Inv.read_remote {s : State Proc Addr} (hi : Inv s) {shmid : Int}
    {answer : Option (Int × Region)}
    (hanswer : ∀ key descriptor, answer = some (key, descriptor) →
      ∃ c ∈ s.created, c.id = shmid ∧ c.descriptor = descriptor ∧ c.key = key)
    {segment : shmem_t Addr} (h : ashv_read_remote_segment s.regions shmid answer = some segment) :
    segment.id = shmid ∧ segment.addr = none ∧ Describes s.created segment := by
  unfold ashv_read_remote_segment at h
  split at h
  · cases h
  · next key descriptor =>
    obtain ⟨c, hc, hid, hdescriptor, hkey⟩ := hanswer key descriptor rfl
    dsimp only at h
    generalize hsize : ashmem_get_size_region (s.regions.getD descriptor 0) = size at h
    obtain ⟨_, hsegment⟩ := Option.ite_none_left_eq_some.mp h
    rw [← Option.some.inj hsegment]
    refine ⟨rfl, rfl, c, hc, hid, hdescriptor, hkey, fun hsmall => ?_⟩
    have hregion : s.regions.getD descriptor 0 = c.size := hdescriptor ▸ hi.getD_regions hc
    rw [← hsize, hregion]
    dsimp only
    rw [size_t_ashmem hsmall]

/-- The id of the segment that a step makes. -/
def mints (s : State Proc Addr) : Action Proc Addr → Option Int
  | .shmget p key _ made =>
    if key = 0 ∧ made = true then (s.procs p).map fun process => (mint process).2 else none
  | .symlink p made =>
    if made = true then
      (s.holder p).bind fun
        | (process, .symlink call) => some (call.shmid.getD (mint process).2)
        | _ => none
    else none
  | _ => none

/-- No segment is given the id of one that was made before. -/
def FreshId (s : State Proc Addr) (a : Action Proc Addr) : Prop :=
  (mints s a).all (fun shmid => s.created.all fun c => decide (c.id ≠ shmid)) = true

instance (s : State Proc Addr) (a : Action Proc Addr) : Decidable (FreshId s a) :=
  inferInstanceAs (Decidable (_ = true))

theorem FreshId.ne {s : State Proc Addr} {a : Action Proc Addr} (h : FreshId s a) {shmid : Int}
    (hmints : mints s a = some shmid) : ∀ c ∈ s.created, c.id ≠ shmid := by
  simpa [FreshId, hmints] using h

theorem Process.Ok.mint {created : List (Creation Proc)} {process : Process Addr}
    (h : process.Ok created) :
    (mint process).1.Ok created := { h with }

section

variable [DecidableEq Proc]

/-- A change of one process that leaves it in order keeps the invariant. -/
theorem Inv.set {s : State Proc Addr} (hi : Inv s) {p : Proc} {process : Process Addr}
    (hok : process.Ok s.created) :
    Inv (s.set p process) := by
  refine ⟨hi.ids, hi.descriptors, hi.sizes, fun q found hfound => ?_⟩
  by_cases hqp : q = p
  · subst hqp
    simp only [State.set, Function.update_self, Option.some_inj] at hfound
    exact hfound ▸ hok
  · exact hi.procs q found (by simpa only [State.set, Function.update_of_ne hqp] using hfound)

/-- A creation under a fresh id keeps the invariant. -/
theorem Inv.create {s : State Proc Addr} (hi : Inv s) {p : Proc} {process : Process Addr}
    (hok : process.Ok s.created)
    {shmid key : Int} {size : Nat} {made : Bool}
    (hfresh : made = true → ∀ c ∈ s.created, c.id ≠ shmid) :
    Inv (s.create p process shmid key size made) := by
  unfold State.create
  split
  · next hmade =>
    have hnew : ∀ e ∈ process.shmem, e.id ≠ shmid := by
      intro e he
      obtain ⟨c, hc, hid, _⟩ := hok.known e he
      exact hid ▸ hfresh hmade c hc
    refine ⟨?_, ?_, ?_, fun q found hfound => ?_⟩
    · refine List.pairwise_append.mpr ⟨hi.ids, List.pairwise_singleton _ _, fun c hc d hd => ?_⟩
      exact List.mem_singleton.mp hd ▸ hfresh hmade c hc
    · rw [List.map_append, hi.descriptors, List.length_append, List.length_singleton,
        List.range_succ]
      rfl
    · rw [List.map_append, hi.sizes]
      rfl
    · by_cases hqp : q = p
      · subst hqp
        simp only [Function.update_self, Option.some_inj] at hfound
        subst hfound
        exact (hok.snoc _).add hnew rfl
          ⟨_, List.mem_append_right _ List.mem_cons_self, rfl, rfl, rfl, fun _ => rfl⟩
      · exact (hi.procs q found (by simpa only [Function.update_of_ne hqp] using hfound)).snoc _
  · exact hi.set hok.free

/-- Following the link of a key keeps the invariant. -/
theorem inv_readlink {s : State Proc Addr} (hi : Inv s) {p : Proc} {process : Process Addr}
    (hok : process.Ok s.created)
    (call : Keyed) : Inv (readlink s p process call) := by
  unfold readlink
  split
  · exact hi.set (hok.setHolder fun _ hnext => by cases hnext; trivial)
  · split
    · exact hi.set (hok.setHolder fun _ hnext => by cases hnext; trivial)
    · split
      · exact { hi.set (p := p) hok.free with }
      · next hmissing =>
        refine hi.set (hok.setHolder fun next hnext => ?_)
        cases hnext
        intro e he hid
        refine hmissing (List.find?_isSome.mpr ⟨e, he, ?_⟩)
        simpa using hid

/-- Making the link of a key keeps the invariant. -/
theorem inv_symlink {getpagesize : Nat} {s : State Proc Addr} (hi : Inv s) {p : Proc}
    {process : Process Addr}
    (hok : process.Ok s.created) {call : Keyed} {made : Bool}
    (hfresh : made = true → ∀ c ∈ s.created, c.id ≠ call.shmid.getD (mint process).2) :
    Inv (symlink getpagesize s p process call made) := by
  have hminted : (call.shmid.elim (mint process) fun shmid => (process, shmid)).1.Ok s.created ∧
      (call.shmid.elim (mint process) fun shmid => (process, shmid)).2 = call.shmid.getD
          (mint process).2 := by
    cases call.shmid with
    | none =>
      rw [Option.elim_none, Option.getD_none]
      exact ⟨hok.mint, rfl⟩
    | some shmid =>
      rw [Option.elim_some, Option.getD_some]
      exact ⟨hok, rfl⟩
  unfold symlink
  dsimp only
  split
  · have hlink :
        Inv { s with
          link := Function.update s.link call.key (some (call.shmid.getD (mint process).2)) } :=
          { hi with }
    rw [hminted.2]
    exact hlink.create hminted.1 hfresh
  · exact hi.set (hminted.1.setHolder fun _ hnext => by cases hnext; trivial)

end

/-! ## Attaching and detaching -/

variable [DecidableEq Addr]

/-- Detaching keeps the segments. -/
theorem kept_detach (id : Nat) (shmaddr : Option Addr) (shmem : List (shmem_t Addr)) :
    Kept (detach id shmaddr shmem) shmem := by
  induction shmem with
  | nil => exact .nil
  | cons e shmem ih =>
    unfold detach
    split
    · split
      · exact .cons_right (Kept.refl shmem)
      · exact .cons ⟨rfl, rfl, rfl, rfl, fun _ h => by cases h⟩ (Kept.refl shmem)
    · exact .cons (.refl e) ih

/-- Nothing is attached where `shmdt` has been. -/
theorem addr_ne_of_mem_detach {id : Nat} {addr : Addr} {shmem : List (shmem_t Addr)}
    (hapart : shmem.Pairwise Apart)
    {e : shmem_t Addr} (he : e ∈ detach id (some addr) shmem) : e.addr ≠ some addr := by
  induction shmem with
  | nil => cases he
  | cons f shmem ih =>
    obtain ⟨hhead, htail⟩ := List.pairwise_cons.mp hapart
    unfold detach at he
    split at he
    · next hf =>
      split at he
      · exact (hhead e he).2 addr hf
      · obtain rfl | he := List.mem_cons.mp he
        · exact fun h => by cases h
        · exact (hhead e he).2 addr hf
    · next hf =>
      obtain rfl | he := List.mem_cons.mp he
      · exact hf
      · exact ih htail he

namespace Process.Ok

variable {created : List (Creation Proc)} {process : Process Addr}

/-- Mapping a segment leaves the process in order. -/
theorem map (h : process.Ok created) (hfree : process.holder = none) {mmap : Option Addr}
    (hmmap : Unmapped process mmap)
    (shmid : Int) : (process.map shmid mmap).Ok created := by
  unfold Process.map
  split
  · exact h
  · next segment hfound =>
    split
    · next addr hnone =>
      have hempty : process.memory addr = none := by simpa [Unmapped] using hmmap
      have hnew : ∀ e ∈ process.shmem, e.addr ≠ some addr := fun e he haddr => by
        have hthere := h.mapped e he addr haddr
        rw [hempty] at hthere
        cases hthere
      have hsegment : segment ∈ process.shmem := List.mem_of_find?_eq_some hfound
      refine ⟨apart_attach hfound hnone h.apart hnew, fun e he a ha => ?_, fun e he => ?_,
        fun holder hholder => ?_⟩
      · obtain he | rfl := mem_attach hfound hnone he
        · have hne : a ≠ addr := fun hsame => hnew e he (hsame ▸ ha)
          simpa only [Function.update_of_ne hne] using h.mapped e he a ha
        · cases ha
          simp
      · obtain he | rfl := mem_attach hfound hnone he
        · exact h.known e he
        · exact h.known segment hsegment
      · rw [hfree] at hholder
        cases hholder
    · exact h

/-- `shmdt` leaves the process in order. -/
theorem shmdt (h : process.Ok created) (hfree : process.holder = none) (shmaddr : Option Addr) :
    (process.shmdt shmaddr).Ok created where
  apart := (kept_detach _ _ _).apart h.apart
  mapped := by
    intro e he addr haddr
    obtain ⟨f, hf, hbelow⟩ := (kept_detach _ _ _).exists he
    have hthere : process.memory addr = some e.descriptor := by
      rw [hbelow.2.1]
      exact h.mapped f hf addr (hbelow.2.2.2.2 addr haddr)
    simp only [Process.shmdt] at he ⊢
    cases shmaddr with
    | none => exact hthere
    | some gone =>
      have hne : addr ≠ gone := fun hsame => addr_ne_of_mem_detach h.apart he (hsame ▸ haddr)
      dsimp only
      split
      · simpa only [Function.update_of_ne hne] using hthere
      · exact hthere
  known := by
    intro e he
    obtain ⟨f, hf, hbelow⟩ := (kept_detach _ _ _).exists he
    exact (h.known f hf).below hbelow
  holder := fun holder hholder => by
    have hnone : process.holder = some holder := hholder
    rw [hfree] at hnone
    cases hnone

end Process.Ok

/-! ## Steps -/

variable [DecidableEq Proc]

/-- Taking the other process' answer keeps the invariant. -/
theorem inv_received {s : State Proc Addr} (hi : Inv s) {p : Proc} {process : Process Addr}
    (hok : process.Ok s.created)
    {shmid : Int} {caller : Caller} {answer : Option (Int × Region)} {mmap : Option Addr}
    (hholder : process.holder = some (.received shmid caller answer))
    (hmmap : Unmapped process mmap) :
    Inv (received s p process shmid caller answer mmap) := by
  obtain ⟨habsent, hanswer⟩ := hok.holder _ hholder
  unfold received
  split
  · next segment call hsegment =>
    obtain ⟨hid, haddr, hknown⟩ := hi.read_remote hanswer hsegment
    exact { hi.set (p := p) (hok.add (hid ▸ habsent) haddr hknown) with }
  · next segment hsegment =>
    obtain ⟨hid, haddr, hknown⟩ := hi.read_remote hanswer hsegment
    exact hi.set ((hok.add (hid ▸ habsent) haddr hknown).map rfl hmmap shmid)
  · exact hi.set (hok.setHolder fun _ hnext => by cases hnext; trivial)
  · exact hi.set hok.free

/-- What a step can do, and when. -/
inductive Stepped (getpagesize : Nat) (s : State Proc Addr) :
    Action Proc Addr → State Proc Addr → Prop
  | exec {p : Proc} (hnew : s.procs p = none) :
    Stepped getpagesize s (.exec p) (s.set p ⟨0, false, 0, [], none, fun _ => none⟩)
  | fork {p child : Proc} {process : Process Addr} (hprocess : s.procs p = some process)
      (hnew : s.procs child = none) :
    Stepped getpagesize s (.fork p child)
      (s.set child
        { process with ashv_local_socket_id := 0, listening := false, shmem := [], holder := none })
  | exit {p : Proc} {process : Process Addr} (inherited : Bool)
      (hprocess : s.procs p = some process) :
    Stepped getpagesize s (.exit p inherited)
      { s with
        procs := Function.update s.procs p none
        socket := fun id => if s.socket id = some p ∧ inherited = false then none else s.socket id }
  | bound {p : Proc} {process : Process Addr} {pid id : Nat} (hprocess : s.procs p = some process)
      (hnot : process.listening = false)
      (hfound : ((sockets pid).find? fun id : Nat => (s.socket id).isNone) = some id) :
    Stepped getpagesize s (.bind p pid)
      { s.set p { process with ashv_local_socket_id := id, listening := true } with
        socket := Function.update s.socket (id : Int) (some p) }
  | unbound {p : Proc} {process : Process Addr} {pid : Nat} (hprocess : s.procs p = some process)
      (hnot : process.listening = false) :
    Stepped getpagesize s (.bind p pid) (s.set p { process with ashv_local_socket_id := 0 })
  | privateSegment {p : Proc} {process : Process Addr} (size : Nat) (made : Bool)
      (hprocess : s.procs p = some process)
      (hfree : process.holder = none) (hlistening : process.listening = true) :
    Stepped getpagesize s (.shmget p 0 size made)
      (s.create p (mint process).1 (mint process).2 0 (ROUND_UP size getpagesize) made)
  | keyed {p : Proc} {process : Process Addr} {key : Int} (size : Nat) (made : Bool)
      (hprocess : s.procs p = some process)
      (hfree : process.holder = none) (hlistening : process.listening = true) (hkey : key ≠ 0) :
    Stepped getpagesize s (.shmget p key size made)
      (s.set p { process with holder := some (.readlink ⟨key, size, none⟩) })
  | readlink {p : Proc} {process : Process Addr} {call : Keyed}
      (hprocess : s.procs p = some process)
      (hholder : process.holder = some (.readlink call)) :
    Stepped getpagesize s (.readlink p) (readlink s p process call)
  | unlink {p : Proc} {process : Process Addr} {call : Keyed} (hprocess : s.procs p = some process)
      (hholder : process.holder = some (.unlink call)) :
    Stepped getpagesize s (.unlink p)
      { s.set p { process with holder := some (.symlink call) } with
        link := Function.update s.link call.key none }
  | symlink {p : Proc} {process : Process Addr} {call : Keyed} (made : Bool)
      (hprocess : s.procs p = some process)
      (hholder : process.holder = some (.symlink call)) :
    Stepped getpagesize s (.symlink p made) (symlink getpagesize s p process call made)
  | answer {p owner : Proc} {process asked : Process Addr} {shmid : Int} {caller : Caller}
      (hprocess : s.procs p = some process) (hholder : process.holder = some (.read shmid caller))
      (hbound : s.socket (ashv_socket_id_from_shmid shmid) = some owner)
      (hasked : s.procs owner = some asked)
      (hfree : asked.holder = none) :
    Stepped getpagesize s (.answer p) (s.set p { process with holder := some (.received shmid caller
      ((ashv_find_local_index shmid asked.shmem).map fun segment =>
        (segment.key, segment.descriptor))) })
  | fail {p : Proc} {process : Process Addr} {shmid : Int} {caller : Caller}
      (hprocess : s.procs p = some process)
      (hholder : process.holder = some (.read shmid caller)) :
    Stepped getpagesize s (.fail p)
      (s.set p { process with holder := some (.received shmid caller none) })
  | received {p : Proc} {process : Process Addr} {shmid : Int} {caller : Caller}
      {answer : Option (Int × Region)}
      {mmap : Option Addr} (hprocess : s.procs p = some process)
      (hholder : process.holder = some (.received shmid caller answer))
      (hmmap : Unmapped process mmap) :
    Stepped getpagesize s (.received p mmap) (received s p process shmid caller answer mmap)
  | attached {p : Proc} {process : Process Addr} {mmap : Option Addr} (shmid : Int)
      (hprocess : s.procs p = some process)
      (hfree : process.holder = none) (hmmap : Unmapped process mmap) :
    Stepped getpagesize s (.shmat p shmid mmap) (s.set p (process.map shmid mmap))
  | asks {p : Proc} {process : Process Addr} {shmid : Int} (mmap : Option Addr)
      (hprocess : s.procs p = some process)
      (hfree : process.holder = none)
      (hmissing : ashv_find_local_index shmid process.shmem = none) :
    Stepped getpagesize s (.shmat p shmid mmap)
      (s.set p { process with holder := some (.read shmid .shmat) })
  | nothing (p : Proc) (shmid : Int) (mmap : Option Addr) :
    Stepped getpagesize s (.shmat p shmid mmap) s
  | shmdt {p : Proc} {process : Process Addr} (shmaddr : Option Addr)
      (hprocess : s.procs p = some process)
      (hfree : process.holder = none) :
    Stepped getpagesize s (.shmdt p shmaddr) (s.set p (process.shmdt shmaddr))
  | rmid {p : Proc} {process : Process Addr} (shmid : Int) (hprocess : s.procs p = some process)
      (hfree : process.holder = none) :
    Stepped getpagesize s (.rmid p shmid)
      (s.set p { process with shmem := remove shmid process.shmem })

/-- The one case split of `step`. -/
theorem step_cases {getpagesize : Nat} {s s' : State Proc Addr} {a : Action Proc Addr}
    (h : step getpagesize s a = some s') : Stepped getpagesize s a s' := by
  cases a with
  | exec p =>
    simp only [Shmem.step, Option.ite_none_right_eq_some] at h
    obtain ⟨hnew, hs⟩ := h
    cases hs
    exact .exec (Option.isNone_iff_eq_none.mp hnew)
  | fork p child =>
    obtain ⟨process, hprocess, h⟩ := Option.bind_eq_some_iff.mp h
    simp only [Option.ite_none_right_eq_some] at h
    obtain ⟨hnew, hs⟩ := h
    cases hs
    exact .fork hprocess (Option.isNone_iff_eq_none.mp hnew)
  | exit p inherited =>
    obtain ⟨process, hprocess, hs⟩ := Option.map_eq_some_iff.mp h
    rw [← hs]
    exact .exit inherited hprocess
  | bind p pid =>
    obtain ⟨process, hprocess, h⟩ := Option.bind_eq_some_iff.mp h
    split at h
    · cases h
    · next hnot =>
      have hnot : process.listening = false := by simpa using hnot
      split at h
      · next id hfound =>
        cases h
        exact .bound hprocess hnot hfound
      · cases h
        exact .unbound hprocess hnot
  | shmget p key size made =>
    obtain ⟨process, hprocess, h⟩ := Option.bind_eq_some_iff.mp h
    obtain ⟨hprocess, hfree⟩ := free_eq hprocess
    split at h
    · cases h
    · next hlistening =>
      have hlistening : process.listening = true := by simpa using hlistening
      split at h
      · next hkey =>
        subst hkey
        cases h
        exact .privateSegment size made hprocess hfree hlistening
      · next hkey =>
        cases h
        exact .keyed size made hprocess hfree hlistening hkey
  | readlink p =>
    obtain ⟨⟨process, holder⟩, hholder, h⟩ := Option.bind_eq_some_iff.mp h
    obtain ⟨hprocess, hholder⟩ := holder_eq hholder
    cases holder with
    | readlink call =>
      cases h
      exact .readlink hprocess hholder
    | _ => cases h
  | unlink p =>
    obtain ⟨⟨process, holder⟩, hholder, h⟩ := Option.bind_eq_some_iff.mp h
    obtain ⟨hprocess, hholder⟩ := holder_eq hholder
    cases holder with
    | unlink call =>
      cases h
      exact .unlink hprocess hholder
    | _ => cases h
  | symlink p made =>
    obtain ⟨⟨process, holder⟩, hholder, h⟩ := Option.bind_eq_some_iff.mp h
    obtain ⟨hprocess, hholder⟩ := holder_eq hholder
    cases holder with
    | symlink call =>
      cases h
      exact .symlink made hprocess hholder
    | _ => cases h
  | answer p =>
    obtain ⟨⟨process, holder⟩, hholder, h⟩ := Option.bind_eq_some_iff.mp h
    obtain ⟨hprocess, hholder⟩ := holder_eq hholder
    cases holder with
    | read shmid caller =>
      obtain ⟨owner, hbound, h⟩ := Option.bind_eq_some_iff.mp h
      obtain ⟨asked, hasked, h⟩ := Option.bind_eq_some_iff.mp h
      obtain ⟨hasked, hfree⟩ := free_eq hasked
      simp only [Option.ite_none_right_eq_some] at h
      obtain ⟨_, hs⟩ := h
      cases hs
      exact .answer hprocess hholder hbound hasked hfree
    | _ => cases h
  | fail p =>
    obtain ⟨⟨process, holder⟩, hholder, h⟩ := Option.bind_eq_some_iff.mp h
    obtain ⟨hprocess, hholder⟩ := holder_eq hholder
    cases holder with
    | read shmid caller =>
      cases h
      exact .fail hprocess hholder
    | _ => cases h
  | received p mmap =>
    obtain ⟨⟨process, holder⟩, hholder, h⟩ := Option.bind_eq_some_iff.mp h
    obtain ⟨hprocess, hholder⟩ := holder_eq hholder
    cases holder with
    | received shmid caller answer =>
      simp only [Option.ite_none_right_eq_some] at h
      obtain ⟨hmmap, hs⟩ := h
      cases hs
      exact .received hprocess hholder hmmap
    | _ => cases h
  | shmat p shmid mmap =>
    obtain ⟨process, hprocess, h⟩ := Option.bind_eq_some_iff.mp h
    obtain ⟨hprocess, hfree⟩ := free_eq hprocess
    split at h
    · next hmmap =>
      split at h
      · cases h
        exact .attached shmid hprocess hfree hmmap
      · next hmissing =>
        split at h
        · cases h
          exact .asks mmap hprocess hfree (by simpa using hmissing)
        · cases h
          exact .nothing p shmid mmap
    · cases h
  | shmdt p shmaddr =>
    obtain ⟨process, hprocess, hs⟩ := Option.map_eq_some_iff.mp h
    obtain ⟨hprocess, hfree⟩ := free_eq hprocess
    rw [← hs]
    exact .shmdt shmaddr hprocess hfree
  | rmid p shmid =>
    obtain ⟨process, hprocess, hs⟩ := Option.map_eq_some_iff.mp h
    obtain ⟨hprocess, hfree⟩ := free_eq hprocess
    rw [← hs]
    exact .rmid shmid hprocess hfree

/-- **Step lemma.** Every step that mints a fresh id keeps the invariant. -/
theorem Inv.step {getpagesize : Nat} {s s' : State Proc Addr} {a : Action Proc Addr} (hi : Inv s)
    (hfresh : FreshId s a)
    (h : step getpagesize s a = some s') : Inv s' := by
  cases step_cases h with
  | exec _ => exact hi.set (.of_nil rfl rfl)
  | fork _ _ => exact hi.set (.of_nil rfl rfl)
  | @exit p process inherited _ =>
    refine { hi with procs := fun q found hfound => ?_ }
    by_cases hqp : q = p
    · subst hqp
      simp at hfound
    · exact hi.procs q found (by simpa only [Function.update_of_ne hqp] using hfound)
  | @bound p process pid id hprocess _ _ =>
    have hset : Inv (s.set p { process with ashv_local_socket_id := id, listening := true }) :=
      hi.set { hi.procs p process hprocess with }
    exact { hset with }
  | unbound hprocess _ => exact hi.set { hi.procs _ _ hprocess with }
  | privateSegment size made hprocess _ _ =>
    refine hi.create (hi.procs _ _ hprocess).mint fun hmade => hfresh.ne ?_
    simp only [mints, hmade, and_self, if_true, hprocess, Option.map_some]
  | keyed _ _ hprocess _ _ _ =>
    exact hi.set ((hi.procs _ _ hprocess).setHolder fun _ hnext => by cases hnext; trivial)
  | @readlink _ _ call hprocess _ => exact inv_readlink hi (hi.procs _ _ hprocess) call
  | @unlink p process call hprocess _ =>
    have hset : Inv (s.set p { process with holder := some (.symlink call) }) :=
      hi.set ((hi.procs p process hprocess).setHolder fun _ hnext => by cases hnext; trivial)
    exact { hset with }
  | @symlink p process call made hprocess hholder =>
    refine inv_symlink hi (hi.procs p process hprocess) fun hmade => hfresh.ne ?_
    have hcall : s.holder p = some (process, .symlink call) := by
      simp only [State.holder, hprocess, Option.bind_some, hholder, Option.map_some]
    simp only [mints, hmade, if_true, hcall, Option.bind_some]
  | @answer p owner process asked shmid caller hprocess hholder _ hasked _ =>
    have hok := hi.procs p process hprocess
    refine hi.set (hok.setHolder fun next hnext => ?_)
    cases hnext
    refine ⟨hok.holder _ hholder, fun key descriptor hanswer => ?_⟩
    obtain ⟨segment, hfound, hsame⟩ := Option.map_eq_some_iff.mp hanswer
    cases hsame
    have hid : segment.id = shmid := by simpa using List.find?_some hfound
    have hmem : segment ∈ asked.shmem := List.mem_of_find?_eq_some hfound
    obtain ⟨c, hc, hcid, hcdescriptor, hckey, _⟩ := (hi.procs owner asked hasked).known segment hmem
    exact ⟨c, hc, hcid.trans hid, hcdescriptor, hckey⟩
  | fail hprocess hholder =>
    have hok := hi.procs _ _ hprocess
    refine hi.set (hok.setHolder fun next hnext => ?_)
    cases hnext
    exact ⟨hok.holder _ hholder, fun _ _ hanswer => by cases hanswer⟩
  | received hprocess hholder hmmap => exact inv_received hi (hi.procs _ _ hprocess) hholder hmmap
  | attached shmid hprocess hfree hmmap =>
    exact hi.set ((hi.procs _ _ hprocess).map hfree hmmap shmid)
  | asks _ hprocess _ hmissing =>
    refine hi.set ((hi.procs _ _ hprocess).setHolder fun next hnext => ?_)
    cases hnext
    intro e he hid
    exact List.find?_eq_none.mp hmissing e he (decide_eq_true hid)
  | nothing _ _ _ => exact hi
  | shmdt shmaddr hprocess hfree => exact hi.set ((hi.procs _ _ hprocess).shmdt hfree shmaddr)
  | rmid shmid hprocess hfree => exact hi.set ((hi.procs _ _ hprocess).remove hfree shmid)

/-- **In every run of any processes that never gives two segments the same id, two segments of any
two tables have the same id exactly when they are of the same region, and then the same key, and the
size that the region was made with, if it is not above that of an `int`; and where a process has a
segment attached, that region is mapped, and no other segment.** -/
theorem ids_name_regions {getpagesize : Nat} {s : State Proc Addr}
    {actions : List (Action Proc Addr)}
    (h : run (step getpagesize) start actions = some s)
    (hfresh : Meets (step getpagesize) FreshId start actions)
    {p q : Proc} {P Q : Process Addr} (hp : s.procs p = some P) (hq : s.procs q = some Q)
    {e f : shmem_t Addr}
    (he : e ∈ P.shmem) (hf : f ∈ Q.shmem) :
    (e.id = f.id ↔ e.descriptor = f.descriptor) ∧ (e.id = f.id → e.key = f.key) ∧
      (s.regions.getD e.descriptor 0 < 0x80000000 → e.size = s.regions.getD e.descriptor 0) ∧
      (∀ addr, e.addr = some addr → P.memory addr = some e.descriptor) ∧
      (p = q → ∀ addr, e.addr = some addr → f.addr = some addr → e = f) := by
  have hi : Inv s := run_induction (fun hs hok hstep => Inv.step hs hok hstep) inv_start hfresh h
  obtain ⟨c, hc, hcid, hcdescriptor, hckey, hcsize⟩ := (hi.procs p P hp).known e he
  obtain ⟨d, hd, hdid, hddescriptor, hdkey, hdsize⟩ := (hi.procs q Q hq).known f hf
  have hsameId : c.id = d.id → c = d := by
    intro hid
    have hnodup : (s.created.map Creation.id).Nodup := List.pairwise_map.mpr hi.ids
    exact List.inj_on_of_nodup_map hnodup hc hd hid
  have hsameRegion : c.descriptor = d.descriptor → c = d := by
    intro hdescriptor
    have hnodup : (s.created.map Creation.descriptor).Nodup := hi.descriptors ▸ List.nodup_range
    exact List.inj_on_of_nodup_map hnodup hc hd hdescriptor
  refine ⟨⟨fun hid => ?_, fun hdescriptor => ?_⟩, fun hid => ?_, fun hsmall => ?_,
    (hi.procs p P hp).mapped e he, ?_⟩
  · rw [← hcdescriptor, ← hddescriptor, hsameId (hcid.trans (hid.trans hdid.symm))]
  · rw [← hcid, ← hdid, hsameRegion (hcdescriptor.trans (hdescriptor.trans hddescriptor.symm))]
  · rw [← hckey, ← hdkey, hsameId (hcid.trans (hid.trans hdid.symm))]
  · rw [← hcdescriptor, hi.getD_regions hc] at hsmall ⊢
    exact hcsize hsmall
  · rintro rfl addr haddr haddr'
    obtain rfl : P = Q := Option.some.inj (hp.symm.trans hq)
    by_contra hne
    exact ((hi.procs p P hp).apart.forall he hf hne).2 addr haddr haddr'

/-- A segment made by one process and attached by both. -/
def shared : List (Action Nat Nat) :=
  [.exec 0, .bind 0 100, .shmget 0 0 5000 true, .exec 1, .shmat 1 6553601 none, .answer 1,
    .received 1 (some 7),
    .shmat 0 6553601 (some 3)]

theorem ids_name_regions_shared :
    ∃ s P Q e f, run (step 4096) start shared = some s ∧ s.procs 0 = some P ∧
    s.procs 1 = some Q ∧ e ∈ P.shmem ∧ f ∈ Q.shmem ∧ e.descriptor = f.descriptor ∧
      f.size = 8192 := by
  have hends :
      ((run (step 4096) start shared).bind fun s => (s.procs 0).bind fun P =>
        (s.procs 1).bind fun Q =>
      P.shmem.head?.bind fun e => Q.shmem.head?.map fun f =>
        (e.id, f.id, s.regions.getD f.descriptor 0)) =
      some (6553601, 6553601, 8192) := by decide +kernel
  have hfresh : Meets (step 4096) FreshId start shared := by decide +kernel
  obtain ⟨s, hs, hends⟩ := Option.bind_eq_some_iff.mp hends
  obtain ⟨P, hP, hends⟩ := Option.bind_eq_some_iff.mp hends
  obtain ⟨Q, hQ, hends⟩ := Option.bind_eq_some_iff.mp hends
  obtain ⟨e, he, hends⟩ := Option.bind_eq_some_iff.mp hends
  obtain ⟨f, hf, hends⟩ := Option.map_eq_some_iff.mp hends
  simp only [Prod.mk.injEq] at hends
  obtain ⟨heid, hfid, hsize⟩ := hends
  have heP := List.mem_of_mem_head? he
  have hfQ := List.mem_of_mem_head? hf
  obtain ⟨hregion, -⟩ := ids_name_regions hs hfresh hP hQ heP hfQ
  obtain ⟨-, -, hfsize, -⟩ := ids_name_regions hs hfresh hQ hP hfQ heP
  refine ⟨s, P, Q, e, f, hs, hP, hQ, heP, hfQ, hregion.mp (heid.trans hfid.symm), ?_⟩
  rw [hfsize (hsize ▸ by decide), hsize]

end WinEmulator.Lorie.Shmem
