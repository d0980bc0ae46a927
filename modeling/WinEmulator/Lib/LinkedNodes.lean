import WinEmulator.Lib.LinkedMap

/-!
# Linked lists in memory

The nodes of a list have addresses and each stores the address of the next one. A link is where such
an address is stored: in the variable that the list begins with, or in a node. A program that holds
a link can change what comes after it, so a node is put in or taken out at the link before it, and
the last link, which stores no address, is where a node is put at the end.

`Holds` says which nodes the list has. Memory that is not allocated can neither be read nor written.
-/

set_option autoImplicit false

namespace WinEmulator.Lib.LinkedNodes

abbrev Address := Nat

/-- Where the address of a node is stored. -/
inductive Link
  | head
  | next (node : Address)
deriving DecidableEq

structure Node (α : Type) where
  value : α
  next : Option Address

structure Memory (α : Type) where
  head : Option Address
  nodes : LinkedMap Address (Node α)

variable {α : Type}

namespace Memory

/-- `none` if the node is not allocated. -/
def read (m : Memory α) : Link → Option (Option Address)
  | .head => some m.head
  | .next a => (m.nodes.get a).map Node.next

def write (m : Memory α) (stored : Option Address) : Link → Option (Memory α)
  | .head => some { m with head := stored }
  | .next a =>
    (m.nodes.get a).map fun n => { m with nodes := m.nodes.set a (some { n with next := stored }) }

def alloc (m : Memory α) (a : Address) (value : α) : Memory α :=
  { m with nodes := m.nodes.set a (some ⟨value, none⟩) }

def free (m : Memory α) (a : Address) : Memory α := { m with nodes := m.nodes.set a none }

def value (m : Memory α) (a : Address) : Option α := (m.nodes.get a).map Node.value

/-! ## One operation -/

variable {m m' : Memory α} {l l' : Link} {a b : Address} {stored : Option Address} {v : α}

theorem exists_write (h : m.read l ≠ none) (stored : Option Address) :
    ∃ m', m.write stored l = some m' := by
  cases l with
  | head => exact ⟨_, rfl⟩
  | next a =>
    cases hn : m.nodes.get a with
    | none => exact absurd (by rw [read, hn, Option.map_none]) h
    | some n => exact ⟨_, by rw [write, hn, Option.map_some]⟩

/-- A written link reads as what was stored; the others stay. -/
theorem read_write (h : m.write stored l = some m') :
    m'.read l' = if l' = l then some stored else m.read l' := by
  cases l with
  | head =>
    obtain rfl := Option.some.inj h
    cases l' with
    | head => rfl
    | next b => rfl
  | next a =>
    obtain ⟨n, hn, rfl⟩ := Option.map_eq_some_iff.mp h
    cases l' with
    | head => rfl
    | next b =>
      rw [read, LinkedMap.get_set]
      by_cases hb : b = a
      · rw [if_pos hb, if_pos (by rw [hb]), Option.map_some]
      · rw [if_neg hb, if_neg fun heq => hb (Link.next.inj heq), read]

theorem value_write (h : m.write stored l = some m') (b : Address) : m'.value b = m.value b := by
  cases l with
  | head =>
    obtain rfl := Option.some.inj h
    rfl
  | next a =>
    obtain ⟨n, hn, rfl⟩ := Option.map_eq_some_iff.mp h
    unfold value
    rw [LinkedMap.get_set]
    split
    case isTrue hb => rw [hb, hn, Option.map_some, Option.map_some]
    case isFalse => rfl

theorem read_alloc : (m.alloc a v).read l = if l = .next a then some none else m.read l := by
  cases l with
  | head => rfl
  | next b =>
    rw [read, alloc, LinkedMap.get_set]
    by_cases hb : b = a
    · rw [if_pos hb, if_pos (by rw [hb]), Option.map_some]
    · rw [if_neg hb, if_neg fun heq => hb (Link.next.inj heq), read]

theorem value_alloc (b : Address) :
    (m.alloc a v).value b = if b = a then some v else m.value b := by
  unfold value alloc
  rw [LinkedMap.get_set]
  split
  · rfl
  · rfl

theorem read_free : (m.free a).read l = if l = .next a then none else m.read l := by
  cases l with
  | head => rfl
  | next b =>
    rw [read, free, LinkedMap.get_set]
    by_cases hb : b = a
    · rw [if_pos hb, if_pos (by rw [hb]), Option.map_none]
    · rw [if_neg hb, if_neg fun heq => hb (Link.next.inj heq), read]

theorem value_free (b : Address) : (m.free a).value b = if b = a then none else m.value b := by
  unfold value free
  rw [LinkedMap.get_set]
  split
  · rfl
  · rfl

end Memory

/-! ## Chains of links -/

/-- The link after the nodes. -/
def endLink : Link → List Address → Link
  | l, [] => l
  | _, a :: as => endLink (.next a) as

/-- The links that store their addresses. -/
def links : Link → List Address → List Link
  | _, [] => []
  | l, a :: as => l :: links (.next a) as

/-- From the link on the nodes follow one another. -/
def Linked (m : Memory α) : Link → List Address → Prop
  | _, [] => True
  | l, a :: as => m.read l = some (some a) ∧ Linked m (.next a) as

variable {m m' : Memory α} {l : Link} {a : Address} {as bs : List Address}

theorem endLink_append (l : Link) (as bs : List Address) :
    endLink l (as ++ bs) = endLink (endLink l as) bs := by
  induction as generalizing l with
  | nil => rfl
  | cons a as ih => exact ih (.next a)

theorem endLink_of_ne_nil (h : as ≠ []) (l l' : Link) : endLink l as = endLink l' as := by
  cases as with
  | nil => exact absurd rfl h
  | cons a as => rfl

/-- A list of nodes is linked when its two parts are. -/
theorem linked_append : Linked m l (as ++ bs) ↔ Linked m l as ∧ Linked m (endLink l as) bs := by
  induction as generalizing l with
  | nil => exact (and_iff_right trivial).symm
  | cons a as ih =>
    rw [List.cons_append, Linked, Linked, ih, and_assoc]
    rfl

/-- Being linked depends on the list's own links alone. -/
theorem Linked.congr (h : Linked m l as) (hsame : ∀ x ∈ links l as, m'.read x = m.read x) :
    Linked m' l as := by
  induction as generalizing l with
  | nil => trivial
  | cons a as ih =>
    obtain ⟨hfirst, hrest⟩ := List.forall_mem_cons.mp hsame
    exact ⟨hfirst.trans h.1, ih h.2 hrest⟩

theorem endLink_cases (l : Link) (as : List Address) :
    as = [] ∨ ∃ a ∈ as, endLink l as = .next a := by
  induction as generalizing l with
  | nil => exact .inl rfl
  | cons a as ih =>
    rcases ih (.next a) with rfl | ⟨b, hb, heq⟩
    · exact .inr ⟨a, List.mem_cons_self, rfl⟩
    · exact .inr ⟨b, List.mem_cons_of_mem a hb, heq⟩

theorem mem_links {x : Link} (h : x ∈ links l as) : x = l ∨ ∃ a ∈ as, x = .next a := by
  induction as generalizing l with
  | nil => cases h
  | cons a as ih =>
    rcases List.mem_cons.mp h with heq | hrest
    · exact .inl heq
    · rcases ih hrest with heq | ⟨b, hb, heq⟩
      · exact .inr ⟨a, List.mem_cons_self, heq⟩
      · exact .inr ⟨b, List.mem_cons_of_mem a hb, heq⟩

/-- The link at the end is none of those before. -/
theorem endLink_not_mem_links (hnodup : as.Nodup) (hl : ∀ a ∈ as, l ≠ .next a) :
    endLink l as ∉ links l as := by
  induction as generalizing l with
  | nil => exact List.not_mem_nil
  | cons a as ih =>
    obtain ⟨hnew, hnodup'⟩ := List.nodup_cons.mp hnodup
    rw [links, List.mem_cons, not_or]
    refine ⟨fun heq => ?_, ih hnodup' fun b hb heq => hnew (Link.next.inj heq ▸ hb)⟩
    rcases endLink_cases (.next a) as with rfl | ⟨b, hb, hend⟩
    · exact hl a List.mem_cons_self heq.symm
    · exact hl b (List.mem_cons_of_mem a hb) (heq.symm.trans hend)

/-! ## Lists -/

/-- The nodes of the list, in their order, and the values in them. -/
structure Holds (m : Memory α) (as : List Address) (values : List α) : Prop where
  linked : Linked m .head as
  nodup : as.Nodup
  ends : m.read (endLink .head as) = some none
  values : as.map m.value = values.map some

namespace Holds

variable {us vs : List α} {v : α}

theorem allocated (h : Holds m as vs) {a : Address} (ha : a ∈ as) : m.value a ≠ none := by
  have hmem : m.value a ∈ vs.map some := h.values ▸ List.mem_map_of_mem ha
  obtain ⟨v, -, hv⟩ := List.mem_map.mp hmem
  rw [← hv]
  exact Option.some_ne_none v

/-- A new node is put at the end. -/
theorem append (h : Holds m as vs) {a : Address} (ha : m.nodes.get a = none) (v : α) :
    ∃ m', (m.alloc a v).write (some a) (endLink .head as) = some m' ∧
      Holds m' (as ++ [a]) (vs ++ [v]) := by
  have hnew : a ∉ as := fun hmem => h.allocated hmem (by rw [Memory.value, ha, Option.map_none])
  have hother : ∀ x : Link, (x = .head ∨ ∃ b ∈ as, x = .next b) → x ≠ .next a := by
    rintro x (rfl | ⟨b, hb, rfl⟩) heq
    · cases heq
    · exact hnew (Link.next.inj heq ▸ hb)
  have hend : endLink .head as ≠ .next a := by
    rcases endLink_cases .head as with rfl | hcase
    · exact hother _ (.inl rfl)
    · exact hother _ (.inr hcase)
  obtain ⟨m', hm'⟩ := @Memory.exists_write _ (m.alloc a v) (endLink .head as)
    (by rw [Memory.read_alloc, if_neg hend, h.ends]; exact Option.some_ne_none _) (some a)
  have hread :
      ∀ x, m'.read x = if x = endLink .head as then some (some a) else if x = .next a then some none
        else m.read x := by
    intro x
    rw [Memory.read_write hm', Memory.read_alloc]
  refine ⟨m', hm', linked_append.mpr ⟨h.linked.congr fun x hx => ?_, ?_, trivial⟩, ?_, ?_, ?_⟩
  · have hne : x ≠ endLink .head as :=
      fun heq => endLink_not_mem_links h.nodup (fun _ _ h => by cases h) (heq ▸ hx)
    rw [hread, if_neg hne, if_neg (hother x (mem_links hx))]
  · rw [hread, if_pos rfl]
  · exact List.nodup_append.mpr
      ⟨h.nodup, List.nodup_singleton a,
      fun b hb c hc heq => hnew (List.mem_singleton.mp hc ▸ heq ▸ hb)⟩
  · rw [endLink_append, endLink, endLink, hread, if_neg hend.symm, if_pos rfl]
  · have hkept : as.map m'.value = as.map m.value := List.map_congr_left fun b hb => by
      have hne : b ≠ a := fun heq => hnew (heq ▸ hb)
      rw [Memory.value_write hm', Memory.value_alloc, if_neg hne]
    rw [List.map_append, List.map_append, hkept, h.values, List.map_singleton,
      Memory.value_write hm', Memory.value_alloc,
      if_pos rfl, List.map_singleton]

/-- What is read where a node stands. -/
theorem read_node (h : Holds m (as ++ a :: bs) vs) :
    m.read (endLink .head as) = some (some a) ∧ ∃ n, m.nodes.get a = some n ∧
      n.next = bs.head? := by
  obtain ⟨hfirst, hrest⟩ := (linked_append.mp h.linked).2
  refine ⟨hfirst, ?_⟩
  obtain ⟨v, hv⟩ :=
    Option.ne_none_iff_exists'.mp (h.allocated (List.mem_append_right as List.mem_cons_self))
  obtain ⟨n, hn, -⟩ := Option.map_eq_some_iff.mp hv
  refine ⟨n, hn, ?_⟩
  have hnext : m.read (.next a) = some bs.head? := by
    cases bs with
    | nil =>
      have hends := h.ends
      rw [endLink_append] at hends
      exact hends
    | cons b bs => exact hrest.1
  rw [Memory.read, hn, Option.map_some] at hnext
  exact Option.some.inj hnext

theorem value_node (h : Holds m (as ++ a :: bs) (us ++ v :: vs)) (hlength : as.length = us.length) :
    m.value a = some v := by
  have hvalues := h.values
  rw [List.map_append, List.map_append] at hvalues
  obtain ⟨-, hright⟩ := List.append_inj hvalues (by rw [List.length_map, List.length_map, hlength])
  exact (List.cons.inj hright).1

theorem length_eq (h : Holds m as vs) : as.length = vs.length := by
  have hlength := congrArg List.length h.values
  rwa [List.length_map, List.length_map] at hlength

/-- A node is taken out at the link before it. -/
theorem remove (h : Holds m (as ++ a :: bs) (us ++ v :: vs)) (hlength : as.length = us.length) :
    ∃ m', m.write bs.head? (endLink .head as) = some m' ∧
      Holds (m'.free a) (as ++ bs) (us ++ vs) := by
  have hread := h.read_node.1
  obtain ⟨hbefore, -, hafter⟩ := linked_append.mp h.linked
  have hnodup := h.nodup
  rw [List.nodup_append] at hnodup
  obtain ⟨hnodupAs, hnodupBs, hdisjoint⟩ := hnodup
  obtain ⟨hnew, hnodupBs⟩ := List.nodup_cons.mp hnodupBs
  have has : ∀ b ∈ as, b ≠ a := fun b hb => hdisjoint b hb a List.mem_cons_self
  have hend : ∀ b, b ∉ as → endLink .head as ≠ .next b := by
    intro b hb heq
    rcases endLink_cases .head as with rfl | ⟨c, hc, hcase⟩
    · cases heq
    · exact hb (Link.next.inj (hcase.symm.trans heq) ▸ hc)
  have hbs : ∀ b ∈ bs, b ∉ as := fun b hb hmem => hdisjoint b hmem b (List.mem_cons_of_mem a hb) rfl
  obtain ⟨m', hm'⟩ := Memory.exists_write (by rw [hread]; exact Option.some_ne_none _) bs.head?
  have hread' : ∀ x, (m'.free a).read x =
      if x = .next a then none else if x = endLink .head as then some bs.head? else m.read x := by
    intro x
    rw [Memory.read_free, Memory.read_write hm']
  have hsameBs : ∀ b ∈ bs, (m'.free a).read (.next b) = m.read (.next b) := by
    intro b hb
    have hne : Link.next b ≠ .next a := fun heq => hnew (Link.next.inj heq ▸ hb)
    rw [hread', if_neg hne, if_neg (hend b (hbs b hb)).symm]
  refine ⟨m', hm', linked_append.mpr ⟨hbefore.congr fun x hx => ?_, ?_⟩, ?_, ?_, ?_⟩
  · have hne : x ≠ endLink .head as :=
      fun heq => endLink_not_mem_links hnodupAs (fun _ _ h => by cases h) (heq ▸ hx)
    have hnext : x ≠ .next a := by
      rcases mem_links hx with rfl | ⟨b, hb, rfl⟩
      · exact nofun
      · exact fun heq => has b hb (Link.next.inj heq)
    rw [hread', if_neg hnext, if_neg hne]
  · cases bs with
    | nil => trivial
    | cons b bs =>
      refine ⟨?_, hafter.2.congr fun x hx => ?_⟩
      · rw [hread', if_neg (hend a fun ha => has a ha rfl), if_pos rfl, List.head?_cons]
      · rcases mem_links hx with rfl | ⟨c, hc, rfl⟩
        · exact hsameBs b List.mem_cons_self
        · exact hsameBs c (List.mem_cons_of_mem b hc)
  · exact List.nodup_append.mpr
      ⟨hnodupAs, hnodupBs, fun b hb c hc => hdisjoint b hb c (List.mem_cons_of_mem a hc)⟩
  · rw [endLink_append]
    rcases endLink_cases (.next a) bs with rfl | ⟨b, hb, heq⟩
    · rw [endLink, hread', if_neg (hend a fun ha => has a ha rfl), if_pos rfl, List.head?_nil]
    · have hends := h.ends
      rw [endLink_append, endLink, heq] at hends
      rw [endLink_of_ne_nil (List.ne_nil_of_mem hb) _ (.next a), heq, hsameBs b hb, hends]
  · have hvalue : ∀ b, b ≠ a → (m'.free a).value b = m.value b := fun b hb => by
      rw [Memory.value_free, if_neg hb, Memory.value_write hm']
    have hvalues := h.values
    rw [List.map_append, List.map_append] at hvalues
    obtain ⟨hleft, hright⟩ :=
      List.append_inj hvalues (by rw [List.length_map, List.length_map, hlength])
    rw [List.map_append, List.map_append, ← hleft, ← (List.cons.inj hright).2]
    congr 1
    · exact List.map_congr_left fun b hb => hvalue b (has b hb)
    · exact List.map_congr_left fun b hb => hvalue b fun heq => hnew (heq ▸ hb)

end Holds

end WinEmulator.Lib.LinkedNodes
