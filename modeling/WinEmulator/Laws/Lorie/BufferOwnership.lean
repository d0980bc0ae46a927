import WinEmulator.Lorie.Renderer

/-!
# The buffers have one owner at a time

Every buffer the GUI thread received is in one of the three lists or was released, once. A buffer is
released by the thread that may: the GUI thread releases what is not attached to GL yet, and the
renderer thread, which does not do so while it draws, the rest.
-/

set_option autoImplicit false

namespace WinEmulator.Lorie.Renderer

open WinEmulator.Lib
open WinEmulator.Lib.Rings (Links Node Lists OnList)

/-- The buffers `LorieBuffer_release` was called for. -/
def released (s : State) : List BufferId := s.releases.map Prod.fst

/-- The members of each list. -/
abbrev Members := BufferList → List BufferId

/-! ## Members -/

def without (m : Members) (buf : BufferId) : Members := fun list => (m list).erase buf

def plus (m : Members) (buf : BufferId) (list : BufferList) : Members :=
  Function.update m list (buf :: m list)

theorem mem_without {l : Links BufferList BufferId} {m : Members} (hl : Lists l m)
    {buf b : BufferId}
    {list : BufferList} : b ∈ without m buf list ↔ b ≠ buf ∧ b ∈ m list :=
  (hl.nodup list).mem_erase_iff

theorem mem_plus {m : Members} {buf b : BufferId} {list dest : BufferList} :
    b ∈ plus m buf dest list ↔ b = buf ∧ list = dest ∨ b ∈ m list := by
  unfold plus
  by_cases h : list = dest
  · subst h
    rw [Function.update_self, List.mem_cons]
    simp
  · rw [Function.update_of_ne h]
    simp [h]

/-- The lists after `LorieBuffer_addToList`. -/
theorem lists_addToList {l : Links BufferList BufferId} {m : Members} (hl : Lists l m)
    (buf : BufferId)
    (list : BufferList) : Lists ((l.del buf).add buf list) (plus (without m buf) buf list) :=
  (hl.del buf).add fun _ hm => (mem_without hl).mp hm |>.1 rfl

/-- A move leaves the buffer on one list. -/
theorem mem_moved {l : Links BufferList BufferId} {m : Members} (hl : Lists l m) {buf b : BufferId}
    {list dest : BufferList} :
    b ∈ plus (without m buf) buf dest list ↔ b = buf ∧ list = dest ∨ b ≠ buf ∧ b ∈ m list := by
  rw [mem_plus, mem_without hl]

/-! ## The invariant -/

structure Owned (s : State) (m : Members) : Prop where
  lists : Lists s.links m
  refcount : ∀ {list buf}, buf ∈ m list → s.refcount buf = 1
  accounted : ∀ buf, buf ∈ s.received ↔ (∃ list, buf ∈ m list) ∨ buf ∈ released s
  once : (released s).Nodup
  held : ∀ {list buf}, buf ∈ m list → buf ∉ released s
  pending : ∀ {buf}, buf ∈ m .addedBuffers → buf ∉ s.attachedToGL
  byGui : ∀ {buf}, (buf, Thread.gui) ∈ s.releases → buf ∉ s.attachedToGL
  known : ∀ {buf}, buf ∈ s.attachedToGL → buf ∈ s.received
  freed : s.freed = released s
  chosen : ∀ {buf}, s.pc = .redrawing buf → buf ∈ m .buffers ∨ buf ∈ m .removedBuffers

/-- Nothing is owned at the start. -/
theorem owned_start : Owned start fun _ => [] where
  lists := Rings.lists_alone
  refcount := nofun
  accounted _ := ⟨nofun, fun h => h.elim (fun ⟨_, h⟩ => nomatch h) nofun⟩
  once := List.nodup_nil
  held := nofun
  pending := nofun
  byGui := nofun
  known := nofun
  freed := rfl
  chosen := nofun

variable {s : State} {m : Members}

theorem releases_mem_released {buf : BufferId} {thread : Thread} (h : (buf, thread) ∈ s.releases) :
    buf ∈ released s :=
  List.mem_map.mpr ⟨_, h, rfl⟩

/-- A release of a buffer with one reference. -/
theorem release_eq {thread : Thread} {buf : BufferId} (h : s.refcount buf = 1) :
    LorieBuffer_release thread buf s =
      { s with
        links := s.links.del buf
        refcount := Function.update s.refcount buf 0
        releases := (buf, thread) :: s.releases
        freed := buf :: s.freed } := by
  rw [LorieBuffer_release, if_pos h, h]
  rfl

/-- A buffer is released by a thread that may. -/
theorem Owned.release (ho : Owned s m) {thread : Thread} {list : BufferList} {buf : BufferId}
    (hmem : buf ∈ m list) (hthread : thread = .gui → list = .addedBuffers)
    (hpc : s.pc ≠ .redrawing buf) : Owned (LorieBuffer_release thread buf s) (without m buf) := by
  have hcount := ho.refcount hmem
  have hfresh := ho.held hmem
  have hin : ∀ {b l}, b ∈ without m buf l ↔ b ≠ buf ∧ b ∈ m l := mem_without ho.lists
  have hreleased : released (LorieBuffer_release thread buf s) = buf :: released s := by
    rw [release_eq hcount]
    rfl
  rw [release_eq hcount] at hreleased ⊢
  refine ⟨ho.lists.del buf, fun {l b} hb => ?_, fun b => ?_, ?_, fun {l b} hb => ?_,
    fun {b} hb => ?_,
    fun {b} hb => ?_, ho.known, ?_, fun {b} hb => ?_⟩
  · obtain ⟨hne, hb⟩ := hin.mp hb
    exact (Function.update_of_ne hne ..).trans (ho.refcount hb)
  · rw [hreleased, List.mem_cons]
    refine (ho.accounted b).trans ?_
    by_cases hb : b = buf
    · subst hb
      exact iff_of_true (.inl ⟨list, hmem⟩) (.inr (.inl rfl))
    · simp [hin, hb]
  · exact hreleased ▸ List.nodup_cons.mpr ⟨hfresh, ho.once⟩
  · obtain ⟨hne, hb⟩ := hin.mp hb
    rw [hreleased, List.mem_cons, not_or]
    exact ⟨hne, ho.held hb⟩
  · exact ho.pending (hin.mp hb).2
  · rcases List.mem_cons.mp hb with he | hb
    · obtain ⟨rfl, rfl⟩ := Prod.mk.inj he
      exact ho.pending (hthread rfl ▸ hmem)
    · exact ho.byGui hb
  · rw [hreleased, ← ho.freed]
  · have hne : b ≠ buf := fun he => hpc (he ▸ hb)
    exact (ho.chosen hb).imp (fun h => hin.mpr ⟨hne, h⟩) fun h => hin.mpr ⟨hne, h⟩

/-- A buffer goes from a list to one where it may be. -/
theorem Owned.move (ho : Owned s m) {s' : State} {m' : Members} {buf : BufferId}
    {list dest : BufferList}
    (hmem : buf ∈ m list) (lists : Lists s'.links m')
    (hin : ∀ {b l}, b ∈ m' l ↔ b = buf ∧ l = dest ∨ b ≠ buf ∧ b ∈ m l)
    (hdest : dest = .buffers ∨ dest = .removedBuffers)
    (hattached : ∀ {b}, b ∈ s'.attachedToGL → b = buf ∨ b ∈ s.attachedToGL)
    (same : s'.refcount = s.refcount ∧ s'.received = s.received ∧ s'.releases = s.releases ∧
      s'.freed = s.freed ∧ s'.pc = s.pc) : Owned s' m' := by
  obtain ⟨hcount, hreceived, hreleases, hfreed, hpc⟩ := same
  have hreleased : released s' = released s := congrArg (List.map Prod.fst) hreleases
  refine ⟨lists, fun {l b} hb => ?_, fun b => ?_, hreleased ▸ ho.once, fun {l b} hb => ?_,
    fun {b} hb => ?_,
    fun {b} hb => ?_, fun {b} hb => ?_, ?_, fun {b} hb => ?_⟩
  · rw [hcount]
    rcases hin.mp hb with ⟨rfl, -⟩ | ⟨-, hb⟩
    · exact ho.refcount hmem
    · exact ho.refcount hb
  · rw [hreceived, ho.accounted, hreleased]
    refine or_congr_left ⟨fun ⟨l, hl⟩ => ?_, fun ⟨l, hl⟩ => ?_⟩
    · by_cases hb : b = buf
      · exact ⟨dest, hin.mpr (.inl ⟨hb, rfl⟩)⟩
      · exact ⟨l, hin.mpr (.inr ⟨hb, hl⟩)⟩
    · rcases hin.mp hl with ⟨rfl, -⟩ | ⟨-, hl⟩
      · exact ⟨list, hmem⟩
      · exact ⟨l, hl⟩
  · rw [hreleased]
    rcases hin.mp hb with ⟨rfl, -⟩ | ⟨-, hb⟩
    · exact ho.held hmem
    · exact ho.held hb
  · rcases hin.mp hb with ⟨-, hl⟩ | ⟨hne, hb⟩
    · rcases hdest with rfl | rfl <;> cases hl
    · exact fun hat => (hattached hat).elim hne (ho.pending hb)
  · rw [hreleases] at hb
    refine fun hat => (hattached hat).elim (fun he => ?_) (ho.byGui hb)
    exact ho.held hmem (he ▸ releases_mem_released hb)
  · rw [hreceived]
    rcases hattached hb with rfl | hb
    · exact (ho.accounted _).mpr (.inl ⟨list, hmem⟩)
    · exact ho.known hb
  · rw [hfreed, hreleased, ho.freed]
  · rw [hpc] at hb
    by_cases he : b = buf
    · rcases hdest with rfl | rfl
      · exact .inl (hin.mpr (.inl ⟨he, rfl⟩))
      · exact .inr (hin.mpr (.inl ⟨he, rfl⟩))
    · exact (ho.chosen hb).imp (fun h => hin.mpr (.inr ⟨he, h⟩)) fun h => hin.mpr (.inr ⟨he, h⟩)

/-- Retiring a buffer moves it to the removed ones. -/
theorem Owned.retire (ho : Owned s m) {buf : BufferId} (hmem : buf ∈ m .buffers) :
    Owned (retire buf s) (plus (without (without m buf) buf) buf .removedBuffers) := by
  have hout : Lists (s.links.del buf) (without m buf) := ho.lists.del buf
  refine ho.move hmem (lists_addToList hout buf _) (fun {b l} => ?_) (.inr rfl) .inr
    ⟨rfl, rfl, rfl, rfl, rfl⟩
  rw [mem_moved hout, mem_without ho.lists]
  exact or_congr_right ⟨fun h => ⟨h.1, h.2.2⟩, fun h => ⟨h.1, h.1, h.2⟩⟩

/-- Attaching a buffer moves it to those in use. -/
theorem Owned.attach (ho : Owned s m) {buf : BufferId} (hmem : buf ∈ m .addedBuffers) :
    Owned (attach buf s) (plus (without m buf) buf .buffers) :=
  ho.move hmem (lists_addToList ho.lists buf _) (mem_moved ho.lists) (.inl rfl) List.mem_cons.mp
    ⟨rfl, rfl, rfl, rfl, rfl⟩

/-- A buffer with a new id. -/
theorem Owned.add (ho : Owned s m) {buf : BufferId} (hnew : buf ∉ s.received) :
    ∃ m', Owned (rendererAddBuffer buf (received buf s)) m' ∧
      ∀ {b l}, b ∈ m' l ↔ b = buf ∧ l = .addedBuffers ∨ b ∈ m l := by
  have hnone : ∀ l, buf ∉ m l := fun l hm => hnew ((ho.accounted buf).mpr (.inl ⟨l, hm⟩))
  have hunreleased : buf ∉ released s := fun hm => hnew ((ho.accounted buf).mpr (.inr hm))
  have hinit : s.links.init (.item buf) = s.links := Rings.init_eq_self (ho.lists.alone buf hnone)
  have hin :
      ∀ {b l}, b ∈ plus (without m buf) buf .addedBuffers l ↔ b = buf ∧ l = .addedBuffers ∨
        b ∈ m l := by
    intro b l
    rw [mem_moved ho.lists]
    exact or_congr_right (and_iff_right_of_imp fun hm he => hnone l (he ▸ hm))
  refine ⟨_, ⟨?_, fun {l b} hb => ?_, fun b => ?_, ho.once, fun {l b} hb => ?_, fun {b} hb => ?_,
    ho.byGui,
    fun hb => List.mem_cons_of_mem _ (ho.known hb), ho.freed, fun {b} hb => ?_⟩, hin⟩
  · show Lists (((s.links.init (.item buf)).del buf).add buf .addedBuffers) _
    rw [hinit]
    exact lists_addToList ho.lists buf _
  · show Function.update s.refcount buf 1 b = 1
    rcases hin.mp hb with ⟨rfl, -⟩ | hb
    · exact Function.update_self ..
    · have hne : b ≠ buf := fun he => hnone l (he ▸ hb)
      exact (Function.update_of_ne hne ..).trans (ho.refcount hb)
  · show b ∈ buf :: s.received ↔ _ ∨ b ∈ released s
    rw [List.mem_cons, ho.accounted b, ← or_assoc]
    refine or_congr_left ⟨?_, fun ⟨l, hl⟩ => ?_⟩
    · rintro (rfl | ⟨l, hl⟩)
      · exact ⟨.addedBuffers, hin.mpr (.inl ⟨rfl, rfl⟩)⟩
      · exact ⟨l, hin.mpr (.inr hl)⟩
    · exact (hin.mp hl).imp And.left fun hl => ⟨l, hl⟩
  · rcases hin.mp hb with ⟨rfl, -⟩ | hb
    · exact hunreleased
    · exact ho.held hb
  · rcases hin.mp hb with ⟨rfl, -⟩ | hb
    · exact fun hat => hnew (ho.known hat)
    · exact ho.pending hb
  · exact (ho.chosen hb).imp (fun h => hin.mpr (.inr h)) fun h => hin.mpr (.inr h)

/-! ## What a section keeps -/

/-- A buffer that was released, or is to be before the renderer thread starts its next iteration. -/
def Leaving (s : State) (m : Members) (buf : BufferId) : Prop :=
  buf ∈ m .removedBuffers ∨ buf ∈ released s

/-- What holds from one state to a later one while nothing is added and the renderer thread stays
where it is. -/
structure Keeps (s : State) (m : Members) (s' : State) (m' : Members) : Prop where
  owned : Owned s' m'
  received : s'.received = s.received
  pc : s'.pc = s.pc
  released : ∀ {buf}, buf ∈ released s → buf ∈ released s'
  leaving : ∀ {buf}, Leaving s m buf → Leaving s' m' buf

theorem Owned.keeps (ho : Owned s m) : Keeps s m s m := ⟨ho, rfl, rfl, id, id⟩

theorem Keeps.trans {s' s'' : State} {m' m'' : Members} (h : Keeps s m s' m')
    (h' : Keeps s' m' s'' m'') :
    Keeps s m s'' m'' :=
  ⟨h'.owned, h'.received.trans h.received, h'.pc.trans h.pc, fun hb => h'.released (h.released hb),
    fun hb => h'.leaving (h.leaving hb)⟩

/-- A release takes the buffer off its list. -/
theorem Owned.keeps_release (ho : Owned s m) {thread : Thread} {list : BufferList} {buf : BufferId}
    (hmem : buf ∈ m list) (hthread : thread = .gui → list = .addedBuffers)
    (hpc : s.pc ≠ .redrawing buf) :
    Keeps s m (LorieBuffer_release thread buf s) (without m buf) := by
  refine ⟨ho.release hmem hthread hpc, ?_, ?_, fun {b} => ?_, fun {b} hb => ?_⟩
  all_goals rw [release_eq (ho.refcount hmem)]
  · exact List.mem_cons_of_mem _
  by_cases he : b = buf
  · exact .inr (he ▸ List.mem_cons_self ..)
  · exact hb.imp (fun h => (mem_without ho.lists).mpr ⟨he, h⟩) (List.mem_cons_of_mem _)

theorem Owned.keeps_retire (ho : Owned s m) {buf : BufferId} (hmem : buf ∈ m .buffers) :
    Keeps s m (Renderer.retire buf s) (plus (without (without m buf) buf) buf .removedBuffers) := by
  refine ⟨ho.retire hmem, rfl, rfl, id, fun {b} hb => hb.imp_left fun h => ?_⟩
  have hout : Lists (s.links.del buf) (without m buf) := ho.lists.del buf
  rw [mem_moved hout, mem_without ho.lists]
  by_cases he : b = buf
  · exact .inl ⟨he, rfl⟩
  · exact .inr ⟨he, he, h⟩

theorem Owned.keeps_attach (ho : Owned s m) {buf : BufferId} (hmem : buf ∈ m .addedBuffers) :
    Keeps s m (Renderer.attach buf s) (plus (without m buf) buf .buffers) := by
  refine ⟨ho.attach hmem, rfl, rfl, id, fun {b} hb => hb.imp_left fun h => ?_⟩
  refine (mem_moved ho.lists).mpr (.inr ⟨fun he => ?_, h⟩)
  cases ho.lists.apart (he ▸ hmem) h

/-! ## Loops -/

/-- A loop whose body takes the first buffer off the list ends with the list empty. -/
theorem whileFirst_spec {P : State → Members → Prop} {list : BufferList}
    {body : BufferId → State → State}
    (lists : ∀ {s m}, P s m → Lists s.links m)
    (hbody : ∀ {s m buf rest}, P s m → m list = buf :: rest → ∃ m', P (body buf s) m' ∧
      m' list = rest)
    {fuel : Nat} (hp : P s m) (hfuel : (m list).length ≤ fuel) :
    ∃ m', P (whileFirst list body fuel s) m' ∧ m' list = [] := by
  induction fuel generalizing s m with
  | zero => exact ⟨m, hp, List.length_eq_zero_iff.mp (Nat.le_zero.mp hfuel)⟩
  | succ fuel ih =>
    have hfirst : LorieBufferList_first list s = (m list).head? := (lists hp).first list
    cases hlist : m list with
    | nil =>
      rw [hlist] at hfirst
      rw [whileFirst, hfirst]
      exact ⟨m, hp, hlist⟩
    | cons buf rest =>
      rw [hlist] at hfirst hfuel
      rw [whileFirst, hfirst]
      obtain ⟨m', hp', hrest⟩ := hbody hp hlist
      exact ih hp' (hrest ▸ Nat.le_of_succ_le_succ hfuel)

theorem Owned.length_le (ho : Owned s m) (list : BufferList) :
    (m list).length ≤ s.received.length :=
  (ho.lists.nodup list).length_le_of_subset fun buf hb => (ho.accounted buf).mpr (.inl ⟨list, hb⟩)

/-- The search by id finds the buffers on the list. -/
theorem Owned.find (ho : Owned s m) (list : BufferList) (id : BufferId) :
    LorieBufferList_findById list id s = if id ∈ m list then some id else none := by
  rw [LorieBufferList_findById, ho.lists.find _ (ho.length_le list)]
  split
  case isTrue hmem =>
    have hsome : ((m list).find? (· == id)).isSome :=
      List.find?_isSome.mpr ⟨id, hmem, beq_self_eq_true id⟩
    obtain ⟨b, hb⟩ := Option.isSome_iff_exists.mp hsome
    rw [hb, eq_of_beq (List.find?_some (p := (· == id)) hb)]
  case isFalse hmem =>
    exact List.find?_eq_none.mpr fun b hb he => hmem (eq_of_beq he ▸ hb)

theorem without_first {list : BufferList} {buf : BufferId} {rest : List BufferId}
    (h : m list = buf :: rest) :
    without m buf list = rest := by
  rw [without, h, List.erase_cons_head]

/-- A loop that releases every buffer of a list. -/
theorem Owned.release_all (ho : Owned s m) (thread : Thread) (list : BufferList)
    (hthread : thread = .gui → list = .addedBuffers)
    (hpc : ∀ {buf}, s.pc = .redrawing buf → list = .addedBuffers) :
    ∃ m', Keeps s m (whileFirst list (LorieBuffer_release thread) s.received.length s) m' ∧
      m' list = [] := by
  refine whileFirst_spec (P := fun s' m' => Keeps s m s' m') (fun h => h.owned.lists) ?_ ho.keeps
    (ho.length_le list)
  intro s' m' buf rest hkeeps hlist
  have hmem : buf ∈ m' list := hlist ▸ List.mem_cons_self ..
  have hidle : s'.pc ≠ .redrawing buf := fun he => by
    have hadded : buf ∈ m' .addedBuffers := hpc (hkeeps.pc ▸ he) ▸ hmem
    rcases hkeeps.owned.chosen he with h | h
    · cases hkeeps.owned.lists.apart hadded h
    · cases hkeeps.owned.lists.apart hadded h
  exact ⟨_, hkeeps.trans (hkeeps.owned.keeps_release hmem hthread hidle), without_first hlist⟩

/-- The loop retires every buffer in use. -/
theorem Owned.retire_all (ho : Owned s m) {fuel : Nat} (hfuel : (m .buffers).length ≤ fuel)
    (hadded : m .addedBuffers = []) :
    ∃ m', (Keeps s m (whileFirst .buffers Renderer.retire fuel s) m' ∧ m' .addedBuffers = []) ∧
      m' .buffers = [] := by
  refine whileFirst_spec (P := fun s' m' => Keeps s m s' m' ∧ m' .addedBuffers = [])
    (fun h => h.1.owned.lists) ?_ ⟨ho.keeps, hadded⟩ hfuel
  rintro s' m' buf rest ⟨hkeeps, hadded⟩ hlist
  have hmem : buf ∈ m' .buffers := hlist ▸ List.mem_cons_self ..
  have hgone : without m' buf .buffers = rest := without_first hlist
  refine ⟨_, ⟨hkeeps.trans (hkeeps.owned.keeps_retire hmem), ?_⟩, ?_⟩
  · show ((m' .addedBuffers).erase buf).erase buf = []
    rw [hadded]
    rfl
  · show (without m' buf .buffers).erase buf = rest
    refine (List.erase_of_not_mem fun hm => ?_).trans hgone
    exact ((mem_without hkeeps.owned.lists).mp hm).1 rfl

/-- The loop attaches every added buffer. -/
theorem Owned.attach_all (ho : Owned s m) :
    ∃ m', Keeps s m (whileFirst .addedBuffers Renderer.attach s.received.length s) m' ∧
      m' .addedBuffers = [] := by
  refine whileFirst_spec (P := fun s' m' => Keeps s m s' m') (fun h => h.owned.lists) ?_ ho.keeps
    (ho.length_le _)
  intro s' m' buf rest hkeeps hlist
  have hmem : buf ∈ m' .addedBuffers := hlist ▸ List.mem_cons_self ..
  exact ⟨_, hkeeps.trans (hkeeps.owned.keeps_attach hmem), without_first hlist⟩

/-! ## Steps -/

/-- The GUI thread asks that a buffer be removed. -/
def Action.removes (a : Action) (buf : BufferId) : Prop :=
  a = .removeBuffer buf ∨ a = .removeAllBuffers

/-- What a step leads to. -/
structure Leads (s : State) (m : Members) (a : Action) (s' : State) (m' : Members) : Prop where
  owned : Owned s' m'
  received : ∀ {buf}, buf ∈ s.received → buf ∈ s'.received
  added : ∀ {buf}, a = .addBuffer buf → buf ∈ s'.received
  released : ∀ {buf}, buf ∈ released s → buf ∈ released s'
  leaving : ∀ {buf}, Leaving s m buf → Leaving s' m' buf
  removed : ∀ {buf}, a.removes buf → buf ∈ s.received → Leaving s' m' buf
  emptied : a = .releaseRemoved → m' .removedBuffers = []

/-- A buffer in no list but `removedBuffers` is leaving. -/
theorem Owned.leaving_of (ho : Owned s m) {buf : BufferId} (hreceived : buf ∈ s.received)
    (hadded : buf ∉ m .addedBuffers) (hbuffers : buf ∉ m .buffers) : Leaving s m buf := by
  rcases (ho.accounted buf).mp hreceived with ⟨list, hmem⟩ | hreleased
  · cases list with
    | addedBuffers => exact absurd hmem hadded
    | buffers => exact absurd hmem hbuffers
    | removedBuffers => exact .inl hmem
  · exact .inr hreleased

/-- A buffer that is removed is on its way out. -/
theorem Owned.removeBuffer (ho : Owned s m) (id : BufferId) :
    ∃ m', Keeps s m (rendererRemoveBuffer id s) m' ∧
      (id ∈ s.received → Leaving (rendererRemoveBuffer id s) m' id) := by
  rw [rendererRemoveBuffer, ho.find, ho.find]
  by_cases hadded : id ∈ m .addedBuffers
  · have hidle : s.pc ≠ .redrawing id := fun he => by
      rcases ho.chosen he with h | h
      · cases ho.lists.apart hadded h
      · cases ho.lists.apart hadded h
    rw [if_pos hadded]
    refine ⟨_, ho.keeps_release hadded (fun _ => rfl) hidle, fun _ => .inr ?_⟩
    show id ∈ released (LorieBuffer_release .gui id s)
    rw [release_eq (ho.refcount hadded)]
    exact List.mem_cons_self ..
  · rw [if_neg hadded]
    by_cases hbuffers : id ∈ m .buffers
    · rw [if_pos hbuffers]
      refine ⟨_, ho.keeps_retire hbuffers, fun _ => .inl ?_⟩
      exact mem_plus.mpr (.inl ⟨rfl, rfl⟩)
    · rw [if_neg hbuffers]
      exact ⟨m, ho.keeps, fun hreceived => ho.leaving_of hreceived hadded hbuffers⟩

/-- After the removal of all, every buffer is on its way out. -/
theorem Owned.removeAllBuffers (ho : Owned s m) :
    ∃ m', Keeps s m (rendererRemoveAllBuffers s) m' ∧
      ∀ {buf}, buf ∈ s.received → Leaving (rendererRemoveAllBuffers s) m' buf := by
  obtain ⟨m₁, hreleased, hadded⟩ :=
    ho.release_all .gui .addedBuffers (fun _ => rfl) fun _ => rfl
  have hfuel : (m₁ .buffers).length ≤ s.received.length :=
    hreleased.received ▸ hreleased.owned.length_le .buffers
  obtain ⟨m₂, ⟨hretired, hadded⟩, hbuffers⟩ := hreleased.owned.retire_all hfuel hadded
  have hkeeps := hreleased.trans hretired
  refine ⟨m₂, hkeeps, fun hreceived => ?_⟩
  refine hkeeps.owned.leaving_of (hkeeps.received.symm ▸ hreceived) ?_ ?_
  · rw [hadded]
    exact List.not_mem_nil
  · rw [hbuffers]
    exact List.not_mem_nil

/-- Where the renderer thread is does not matter, but for the buffer it draws. -/
theorem Owned.at (ho : Owned s m) {pc : At} {waiting : Bool}
    (hpc : ∀ buf, pc = .redrawing buf → buf ∈ m .buffers ∨ buf ∈ m .removedBuffers) :
    Owned { s with pc := pc, waitingForBuffers := waiting } m :=
  ⟨ho.lists, ho.refcount, ho.accounted, ho.once, ho.held, ho.pending, ho.byGui, ho.known, ho.freed,
    fun {buf} => hpc buf⟩

theorem Owned.leads_at (ho : Owned s m) {a : Action} {pc : At} (waiting : Bool)
    (hpc : ∀ buf, pc = .redrawing buf → buf ∈ m .buffers ∨ buf ∈ m .removedBuffers)
    (ha : a = .redrawn ∨ ∃ id, a = .redraw id) :
    Leads s m a { s with pc := pc, waitingForBuffers := waiting } m := by
  refine ⟨ho.at hpc, id, ?_, id, id, ?_, ?_⟩
  all_goals rcases ha with rfl | ⟨_, rfl⟩ <;> exact nofun

/-- The buffer that is chosen is one of those the GUI thread does not release. -/
theorem Owned.redraw (ho : Owned s m) (id : BufferId) :
    ∃ pc waiting, rendererRedrawLocked id s = { s with pc := pc, waitingForBuffers := waiting } ∧
      ∀ buf, pc = .redrawing buf → buf ∈ m .buffers ∨ buf ∈ m .removedBuffers := by
  rw [rendererRedrawLocked, ho.find, ho.find]
  by_cases hbuffers : id ∈ m .buffers
  · rw [if_pos hbuffers]
    refine ⟨.redrawing id, s.waitingForBuffers, rfl, ?_⟩
    rintro _ ⟨⟩
    exact .inl hbuffers
  · rw [if_neg hbuffers]
    by_cases hremoved : id ∈ m .removedBuffers
    · rw [if_pos hremoved]
      refine ⟨.redrawing id, s.waitingForBuffers, rfl, ?_⟩
      rintro _ ⟨⟩
      exact .inr hremoved
    · rw [if_neg hremoved]
      exact ⟨.redrawn, true, rfl, nofun⟩

/-- **Step lemma.** Every step keeps the lists disjoint and loses no buffer. -/
theorem Owned.step (ho : Owned s m) {a : Action} {s' : State} (hstep : step s a = some s') :
    ∃ m', Leads s m a s' m' := by
  cases a with
  | addBuffer buf =>
    rw [Renderer.step] at hstep
    split at hstep
    · cases hstep
    case isFalse hnew =>
      cases hstep
      obtain ⟨m', howned, hin⟩ := ho.add hnew
      refine ⟨m', howned, List.mem_cons_of_mem _, ?_, id, ?_, ?_, nofun⟩
      · rintro _ ⟨⟩
        exact List.mem_cons_self ..
      · exact fun hb => hb.imp_left fun h => hin.mpr (.inr h)
      · rintro _ (h | h) <;> cases h
  | removeBuffer id =>
    cases hstep
    obtain ⟨m', hkeeps, hleaving⟩ := ho.removeBuffer id
    refine ⟨m', hkeeps.owned, fun hb => hkeeps.received ▸ hb, nofun, hkeeps.released,
      hkeeps.leaving, ?_, nofun⟩
    rintro buf (h | h) hreceived
    · cases h
      exact hleaving hreceived
    · cases h
  | removeAllBuffers =>
    cases hstep
    obtain ⟨m', hkeeps, hleaving⟩ := ho.removeAllBuffers
    exact ⟨m', hkeeps.owned, fun hb => hkeeps.received ▸ hb, nofun, hkeeps.released, hkeeps.leaving,
      fun _ => hleaving, nofun⟩
  | attachPending =>
    rw [Renderer.step] at hstep
    split at hstep
    case isFalse => cases hstep
    cases hstep
    obtain ⟨m', hkeeps, -⟩ := ho.attach_all
    refine ⟨m', hkeeps.owned.at nofun, fun hb => ?_, nofun, hkeeps.released, hkeeps.leaving,
      ?_, nofun⟩
    · exact (hkeeps.received ▸ hb :)
    · rintro _ (h | h) <;> cases h
  | redraw id =>
    rw [Renderer.step] at hstep
    split at hstep
    case isFalse => cases hstep
    cases hstep
    obtain ⟨pc, waiting, heq, hpc⟩ := ho.redraw id
    rw [heq]
    exact ⟨m, ho.leads_at waiting hpc (.inr ⟨id, rfl⟩)⟩
  | redrawn =>
    rw [Renderer.step] at hstep
    split at hstep
    · cases hstep
      exact ⟨m, ho.leads_at s.waitingForBuffers nofun (.inl rfl)⟩
    · cases hstep
  | releaseRemoved =>
    rw [Renderer.step] at hstep
    split at hstep
    case isFalse => cases hstep
    case isTrue hpc =>
      cases hstep
      obtain ⟨m', hkeeps, hempty⟩ :=
        ho.release_all .renderer .removedBuffers nofun fun he => by
          rw [he] at hpc
          rcases hpc with h | h <;> cases h
      refine ⟨m', hkeeps.owned.at nofun, fun hb => ?_, nofun, hkeeps.released, hkeeps.leaving, ?_,
        fun _ => hempty⟩
      · exact (hkeeps.received ▸ hb :)
      · rintro _ (h | h) <;> cases h

/-! ## Runs -/

/-- **Run lemma.** Every run keeps the lists disjoint and loses no buffer. -/
theorem run_owned {as : List Action} {s' : State} (ho : Owned s m) (h : run step s as = some s') :
    ∃ m', Owned s' m' ∧ (∀ {buf}, buf ∈ s.received → buf ∈ s'.received) ∧
      (∀ {buf}, buf ∈ released s → buf ∈ released s') ∧ ∀ {buf}, Leaving s m buf →
        Leaving s' m' buf := by
  induction as generalizing s m with
  | nil =>
    cases h
    exact ⟨m, ho, id, id, id⟩
  | cons a as ih =>
    obtain ⟨mid, hstep, hrun⟩ := run_cons.mp h
    obtain ⟨m₁, hleads⟩ := ho.step hstep
    obtain ⟨m', ho', hreceived, hreleased, hleaving⟩ := ih hleads.owned hrun
    exact ⟨m', ho', fun hb => hreceived (hleads.received hb),
      fun hb => hreleased (hleads.released hb),
      fun hb => hleaving (hleads.leaving hb)⟩

/-- What is leaving is released by the end of the renderer thread's next iteration. -/
theorem released_of_leaving {as : List Action} {s' : State} (ho : Owned s m) {buf : BufferId}
    (hleaving : Leaving s m buf) (h : run step s as = some s') (hrelease : .releaseRemoved ∈ as) :
    buf ∈ released s' := by
  induction as generalizing s m with
  | nil => cases hrelease
  | cons a as ih =>
    obtain ⟨mid, hstep, hrun⟩ := run_cons.mp h
    obtain ⟨m₁, hleads⟩ := ho.step hstep
    rcases List.mem_cons.mp hrelease with rfl | hrelease
    · obtain ⟨-, -, -, hreleased, -⟩ := run_owned hleads.owned hrun
      rcases hleads.leaving hleaving with hm | hm
      · rw [hleads.emptied rfl] at hm
        cases hm
      · exact hreleased hm
    · exact ih hleads.owned (hleads.leaving hleaving) hrun hrelease

/-- A buffer that is added has been received. -/
theorem received_of_added {as : List Action} {s' : State} (ho : Owned s m) {buf : BufferId}
    (h : run step s as = some s') (hadd : .addBuffer buf ∈ as) : buf ∈ s'.received := by
  induction as generalizing s m with
  | nil => cases hadd
  | cons a as ih =>
    obtain ⟨mid, hstep, hrun⟩ := run_cons.mp h
    obtain ⟨m₁, hleads⟩ := ho.step hstep
    rcases List.mem_cons.mp hadd with rfl | hadd
    · obtain ⟨-, -, hreceived, -, -⟩ := run_owned hleads.owned hrun
      exact hreceived (hleads.added rfl)
    · exact ih hleads.owned hrun hadd

/-- The owners of the buffers after a run. -/
structure BuffersOwned (as : List Action) (s : State) : Prop where
  oneList : ∀ {buf list list'}, OnList s.links list buf → OnList s.links list' buf → list = list'
  atMostOnce : ∀ buf, (released s).count buf ≤ 1
  /-- A buffer that was removed after it was added is released when the renderer thread comes to the
  end of an iteration. -/
  exactlyOnce : ∀ before a after buf, as = before ++ a :: after → .addBuffer buf ∈ before →
    a.removes buf → .releaseRemoved ∈ after → (released s).count buf = 1
  attached : ∀ {buf thread}, (buf, thread) ∈ s.releases → buf ∈ s.attachedToGL → thread = .renderer
  chosen : ∀ {buf}, s.pc = .redrawing buf → buf ∉ released s

/-- Every run keeps a buffer on one list at most and releases it once at most. -/
theorem buffersOwned {as : List Action} {s : State} (h : run step start as = some s) :
    BuffersOwned as s := by
  obtain ⟨m, ho, -⟩ := run_owned owned_start h
  have hcount : ∀ buf, (released s).count buf ≤ 1 := List.nodup_iff_count_le_one.mp ho.once
  refine ⟨fun hl hl' => ho.lists.apart (ho.lists.onList.mp hl) (ho.lists.onList.mp hl'), hcount,
    ?_, ?_, ?_⟩
  · rintro before a after buf rfl hadd hremoves hrelease
    obtain ⟨mid, hbefore, hrest⟩ := exists_of_run_append h
    obtain ⟨next, hstep, hafter⟩ := run_cons.mp hrest
    obtain ⟨m₁, ho₁, -⟩ := run_owned owned_start hbefore
    obtain ⟨m₂, hleads⟩ := ho₁.step hstep
    have hleaving := hleads.removed hremoves (received_of_added owned_start hbefore hadd)
    have hreleased := released_of_leaving hleads.owned hleaving hafter hrelease
    exact Nat.le_antisymm (hcount buf) (List.count_pos_iff.mpr hreleased)
  · intro buf thread hrelease hattached
    cases thread with
    | gui => exact absurd hattached (ho.byGui hrelease)
    | renderer => rfl
  · intro buf hpc
    exact (ho.chosen hpc).elim ho.held ho.held

/-- The buffer on the screen is removed while it is drawn. -/
theorem buffersOwned_removedWhileDrawn :
    ∃ s, run step start
        [.addBuffer 7, .attachPending, .redraw 7, .removeBuffer 7, .redrawn, .releaseRemoved] =
          some s ∧
      (released s).count 7 = 1 :=
  ⟨_, rfl, BuffersOwned.exactlyOnce (buffersOwned rfl) [.addBuffer 7, .attachPending, .redraw 7]
    (.removeBuffer 7)
    [.redrawn, .releaseRemoved] 7 rfl (List.mem_cons_self ..) (.inl rfl)
    (List.mem_cons_of_mem _ (List.mem_cons_self ..))⟩

end WinEmulator.Lorie.Renderer
