import Mathlib.Data.List.Nodup
import Mathlib.Logic.Function.Iterate

/-!
# Lists threaded through the links of their items

A head and the items of its list form a ring of nodes with two pointers each. The pointers are one
pair of maps for all heads and items, so nothing keeps an item out of two rings but what the
operations do.

`Lists` says that the pointers are lists, one for each head, with no item in two of them or twice in
one, and that an item in none of them points at itself. The operations change the pointers in the
order a program does, and each has one lemma that says what it makes of the lists.
-/

set_option autoImplicit false

namespace WinEmulator.Lib.Rings

/-- A node of a ring. -/
inductive Node (Head Item : Type)
  | head (h : Head)
  | item (i : Item)
deriving DecidableEq

variable {Head Item : Type}

/-- The pointers of all nodes. -/
structure Links (Head Item : Type) where
  next : Node Head Item → Node Head Item
  prev : Node Head Item → Node Head Item

/-- Every node points at itself. -/
def Links.alone : Links Head Item := ⟨id, id⟩

variable [DecidableEq Head] [DecidableEq Item]

/-! ## Operations -/

def Links.setNext (l : Links Head Item) (a b : Node Head Item) : Links Head Item :=
  { l with next := Function.update l.next a b }

def Links.setPrev (l : Links Head Item) (a b : Node Head Item) : Links Head Item :=
  { l with prev := Function.update l.prev a b }

def Links.init (l : Links Head Item) (node : Node Head Item) : Links Head Item :=
  (l.setPrev node node).setNext node node

/-- Puts a node between two that follow each other. -/
def Links.insert (l : Links Head Item) (entry before after : Node Head Item) : Links Head Item :=
  (((l.setPrev after entry).setNext entry after).setPrev entry before).setNext before entry

def Links.add (l : Links Head Item) (i : Item) (h : Head) : Links Head Item :=
  l.insert (.item i) (.head h) (l.next (.head h))

/-- Lets two nodes follow each other. -/
def Links.join (l : Links Head Item) (before after : Node Head Item) : Links Head Item :=
  (l.setPrev after before).setNext before after

def Links.del (l : Links Head Item) (i : Item) : Links Head Item :=
  (l.join (l.prev (.item i)) (l.next (.item i))).init (.item i)

/-- The item after the head. -/
def Links.first (l : Links Head Item) (h : Head) : Option Item :=
  match l.next (.head h) with
  | .head _ => none
  | .item i => some i

/-- The walk along a list from a node, for at most so many items. -/
def Links.findFrom (l : Links Head Item) (p : Item → Bool) : Nat → Node Head Item → Option Item
  | 0, _ => none
  | _ + 1, .head _ => none
  | fuel + 1, .item i => if p i then some i else l.findFrom p fuel (l.next (.item i))

/-- An item that the walk from a head comes by. -/
def OnList (l : Links Head Item) (h : Head) (i : Item) : Prop := ∃ n, l.next^[n] (.head h) = .item i

/-! ## Chains and rings -/

/-- Each node and the one after it point at each other. -/
def Chain (l : Links Head Item) : List (Node Head Item) → Prop
  | a :: b :: rest => l.next a = b ∧ l.prev b = a ∧ Chain l (b :: rest)
  | _ => True

def Ring (l : Links Head Item) (node : Node Head Item) (others : List (Node Head Item)) : Prop :=
  Chain l (node :: (others ++ [node]))

omit [DecidableEq Head] [DecidableEq Item]

/-- A chain is two chains that meet in a node. -/
theorem chain_append {l : Links Head Item} {as bs : List (Node Head Item)} {b : Node Head Item} :
    Chain l (as ++ b :: bs) ↔ Chain l (as ++ [b]) ∧ Chain l (b :: bs) := by
  induction as with
  | nil => exact ⟨fun h => ⟨trivial, h⟩, And.right⟩
  | cons a as ih =>
    cases as with
    | nil => exact ⟨fun ⟨hn, hp, h⟩ => ⟨⟨hn, hp, trivial⟩, h⟩, fun ⟨⟨hn, hp, _⟩, h⟩ => ⟨hn, hp, h⟩⟩
    | cons c as =>
      constructor
      · rintro ⟨hn, hp, h⟩
        obtain ⟨hleft, hright⟩ := ih.mp h
        exact ⟨⟨hn, hp, hleft⟩, hright⟩
      · rintro ⟨⟨hn, hp, hleft⟩, hright⟩
        exact ⟨hn, hp, ih.mpr ⟨hleft, hright⟩⟩

/-- A chain reads the `next` of all nodes but the last and the `prev` of all but the first. -/
theorem Chain.congr {l l' : Links Head Item} {as : List (Node Head Item)}
    (hnext : ∀ n ∈ as.dropLast, l'.next n = l.next n) (hprev : ∀ n ∈ as.tail, l'.prev n = l.prev n)
    (h : Chain l as) : Chain l' as := by
  induction as with
  | nil => trivial
  | cons a as ih =>
    cases as with
    | nil => trivial
    | cons b as =>
      have htail : Chain l' (b :: as) :=
        ih (fun n hn => hnext n (List.mem_cons_of_mem a hn))
          (fun n hn => hprev n (List.mem_of_mem_tail hn)) h.2.2
      exact ⟨(hnext a (List.mem_cons_self ..)).trans h.1,
        (hprev b (List.mem_cons_self ..)).trans h.2.1, htail⟩

/-- A ring stays one while the pointers of its nodes stay. -/
theorem Ring.congr {l l' : Links Head Item} {node : Node Head Item} {others : List (Node Head Item)}
    (same : ∀ n ∈ node :: others, l'.next n = l.next n ∧ l'.prev n = l.prev n)
    (h : Ring l node others) :
    Ring l' node others := by
  refine Chain.congr (fun n hn => (same n ?_).1) (fun n hn => (same n ?_).2) h
  · rwa [← List.cons_append, List.dropLast_concat] at hn
  · rw [List.tail_cons] at hn
    rcases List.mem_append.mp hn with hn | hn
    · exact List.mem_cons_of_mem _ hn
    · exact List.mem_singleton.mp hn ▸ List.mem_cons_self ..

theorem ring_nil {l : Links Head Item} {node : Node Head Item} :
    Ring l node [] ↔ l.next node = node ∧ l.prev node = node :=
  ⟨fun h => ⟨h.1, h.2.1⟩, fun h => ⟨h.1, h.2, trivial⟩⟩

/-- The nodes around one inside a ring. -/
theorem Ring.around {l : Links Head Item} {node e : Node Head Item} {xs ys : List (Node Head Item)}
    (h : Ring l node (xs ++ e :: ys)) :
    ∃ pre post, node :: xs = pre ++ [l.prev e] ∧ ys ++ [node] = l.next e :: post ∧
      Chain l (pre ++ [l.prev e]) ∧ Chain l (l.next e :: post) := by
  obtain ⟨pre, a, hpre⟩ := (List.eq_nil_or_concat' (node :: xs)).resolve_left (List.cons_ne_nil _ _)
  obtain ⟨b, post, hpost⟩ :=
    List.exists_cons_of_ne_nil (List.append_ne_nil_of_right_ne_nil ys (List.cons_ne_nil node []))
  have hall : Chain l (pre ++ a :: e :: b :: post) := by
    have : node :: (xs ++ e :: ys ++ [node]) = pre ++ a :: e :: b :: post := by
      rw [List.append_assoc, ← List.cons_append, hpre, List.cons_append, hpost, List.append_assoc]
      rfl
    exact this ▸ h
  obtain ⟨hleft, -, hprev, hnext, -, hright⟩ := chain_append.mp hall
  exact ⟨pre, post, hprev ▸ hpre, hnext ▸ hpost, hprev ▸ hleft, hnext ▸ hright⟩

/-! ## What the operations do to rings -/

variable [DecidableEq Head] [DecidableEq Item]

theorem ring_init (l : Links Head Item) (node : Node Head Item) : Ring (l.init node) node [] :=
  ring_nil.mpr ⟨Function.update_self .., Function.update_self ..⟩

theorem init_next (l : Links Head Item) {node n : Node Head Item} (h : n ≠ node) :
    (l.init node).next n = l.next n :=
  Function.update_of_ne h ..

theorem init_prev (l : Links Head Item) {node n : Node Head Item} (h : n ≠ node) :
    (l.init node).prev n = l.prev n :=
  Function.update_of_ne h ..

/-- A deletion leaves the links of the other nodes. -/
theorem del_next (l : Links Head Item) {i : Item} {n : Node Head Item} (hi : n ≠ .item i)
    (hn : n ≠ l.prev (.item i)) : (l.del i).next n = l.next n :=
  (init_next _ hi).trans (Function.update_of_ne hn ..)

theorem del_prev (l : Links Head Item) {i : Item} {n : Node Head Item} (hi : n ≠ .item i)
    (hn : n ≠ l.next (.item i)) : (l.del i).prev n = l.prev n :=
  (init_prev _ hi).trans (Function.update_of_ne hn ..)

/-- An item taken out of its ring. -/
theorem ring_del {l : Links Head Item} {node : Node Head Item} {i : Item}
    {xs ys : List (Node Head Item)}
    (h : Ring l node (xs ++ .item i :: ys)) (nodup : (node :: (xs ++ .item i :: ys)).Nodup) :
    Ring (l.del i) node (xs ++ ys) := by
  obtain ⟨pre, post, hpre, hpost, hleft, hright⟩ := h.around
  generalize ha : l.prev (.item i) = a at hpre hleft
  generalize hb : l.next (.item i) = b at hpost hright
  rw [← List.cons_append, hpre] at nodup
  obtain ⟨hprenodup, htailnodup, hapart⟩ := List.nodup_append.mp nodup
  have hxs : (pre ++ [a]).tail = xs := by rw [← hpre, List.tail_cons]
  have hys : (b :: post).dropLast = ys := by rw [← hpost, List.dropLast_concat]
  have hnodes : ∀ n ∈ b :: post, n = node ∨ n ∈ ys := fun n hn => by
    rw [← hpost] at hn
    rcases List.mem_append.mp hn with hn | hn
    · exact .inr hn
    · exact .inl (List.mem_singleton.mp hn)
  have hnode : node ∈ pre ++ [a] := hpre ▸ List.mem_cons_self ..
  have hlast : a ∈ pre ++ [a] := List.mem_append_right _ (List.mem_cons_self ..)
  have hi : ∀ n ∈ b :: post, n ≠ .item i := fun n hn => by
    rcases hnodes n hn with rfl | hn
    · exact hapart _ hnode _ (List.mem_cons_self ..)
    · exact fun he => (List.nodup_cons.mp htailnodup).1 (he ▸ hn)
  have hpostnodup : (b :: post).Nodup := by
    rw [← hpost]
    refine List.nodup_append.mpr ⟨(List.nodup_cons.mp htailnodup).2, List.nodup_singleton _, ?_⟩
    intro n hn m hm he
    rw [List.mem_singleton.mp hm] at he
    exact hapart _ hnode n (List.mem_cons_of_mem _ hn) he.symm
  have hchain : Chain (l.del i) (pre ++ a :: b :: post) := by
    refine chain_append.mpr
      ⟨hleft.congr (fun n hn => ?_) (fun n hn => ?_), ?_, ?_,
      hright.congr (fun n hn => ?_) (fun n hn => ?_)⟩
    · rw [List.dropLast_concat] at hn
      refine del_next l (hapart n (List.mem_append_left _ hn) _ (List.mem_cons_self ..)) ?_
      rw [ha]
      exact (List.nodup_append.mp hprenodup).2.2 n hn a (List.mem_cons_self ..)
    · have hmem : n ∈ pre ++ [a] := List.mem_of_mem_tail hn
      refine del_prev l (hapart n hmem _ (List.mem_cons_self ..)) ?_
      rw [hb]
      rintro rfl
      rcases hnodes n (List.mem_cons_self ..) with he | hy
      · rw [hxs, he] at hn
        exact (List.nodup_cons.mp (hpre ▸ hprenodup)).1 hn
      · exact hapart n hmem n (List.mem_cons_of_mem _ hy) rfl
    · have hne : a ≠ .item i := hapart a hlast _ (List.mem_cons_self ..)
      rw [Links.del, init_next _ hne, ha, hb]
      exact Function.update_self ..
    · rw [Links.del, init_prev _ (hi b (List.mem_cons_self ..)), ha, hb]
      exact Function.update_self ..
    · rw [hys] at hn
      refine del_next l (fun he => (List.nodup_cons.mp htailnodup).1 (he ▸ hn)) ?_
      rw [ha]
      exact fun he => hapart a hlast n (List.mem_cons_of_mem _ hn) he.symm
    · refine del_prev l (hi n (List.mem_cons_of_mem _ hn)) ?_
      rw [hb]
      exact fun he => (List.nodup_cons.mp hpostnodup).1 (he ▸ hn)
  have hshape : pre ++ a :: b :: post = node :: (xs ++ ys ++ [node]) := by
    rw [List.append_assoc, hpost, ← List.cons_append, hpre, List.append_assoc]
    rfl
  show Chain _ (node :: (xs ++ ys ++ [node]))
  rwa [← hshape]

/-- So does an insertion. -/
theorem add_next (l : Links Head Item) {i : Item} {h : Head} {n : Node Head Item} (hh : n ≠ .head h)
    (hi : n ≠ .item i) : (l.add i h).next n = l.next n :=
  (Function.update_of_ne hh ..).trans (Function.update_of_ne hi ..)

theorem add_prev (l : Links Head Item) {i : Item} {h : Head} {n : Node Head Item} (hi : n ≠ .item i)
    (hn : n ≠ l.next (.head h)) : (l.add i h).prev n = l.prev n :=
  (Function.update_of_ne hi ..).trans (Function.update_of_ne hn ..)

/-- An item put into a ring, right after the head. -/
theorem ring_add {l : Links Head Item} {i : Item} {h : Head} {xs : List (Node Head Item)}
    (ring : Ring l (.head h) xs) (nodup : (.head h :: xs).Nodup) (hi : .item i ∉ xs) :
    Ring (l.add i h) (.head h) (.item i :: xs) := by
  obtain ⟨b, post, hpost⟩ :=
    List.exists_cons_of_ne_nil
      (List.append_ne_nil_of_right_ne_nil xs (List.cons_ne_nil (Node.head h) []))
  have hchain : Chain l (.head h :: b :: post) := hpost ▸ ring
  have hb : l.next (.head h) = b := hchain.1
  have hpostnodup : (b :: post).Nodup := by
    rw [← hpost]
    exact List.nodup_append_comm.mp nodup
  have hxs : (b :: post).dropLast = xs := by rw [← hpost, List.dropLast_concat]
  have hne : ∀ n ∈ b :: post, n ≠ .item i := fun n hn => by
    rw [← hpost] at hn
    rcases List.mem_append.mp hn with hn | hn
    · exact fun he => hi (he ▸ hn)
    · rw [List.mem_singleton.mp hn]
      exact nofun
  have hrest : Chain (l.add i h) (b :: post) := by
    refine hchain.2.2.congr (fun n hn => ?_) (fun n hn => ?_)
    · rw [hxs] at hn
      exact add_next l (fun he => (List.nodup_cons.mp nodup).1 (he ▸ hn)) (fun he => hi (he ▸ hn))
    · refine add_prev l (hne n (List.mem_cons_of_mem _ hn)) ?_
      rw [hb]
      exact fun he => (List.nodup_cons.mp hpostnodup).1 (he ▸ hn)
  have hnext : (l.add i h).next (.item i) = b := by
    rw [← hb]
    have hne : Node.item i ≠ .head h := nofun
    exact (Function.update_of_ne hne (.item i) _).trans (Function.update_self ..)
  have hprev : (l.add i h).prev b = .item i := by
    rw [← hb]
    refine (Function.update_of_ne ?_ ..).trans (Function.update_self ..)
    exact hb ▸ hne b (List.mem_cons_self ..)
  show Chain _ (.head h :: .item i :: (xs ++ [.head h]))
  rw [hpost]
  exact ⟨Function.update_self .., Function.update_self .., hnext, hprev, hrest⟩

/-! ## Lists -/

/-- The pointers are these lists, and every item in none of them is alone. -/
structure Lists (l : Links Head Item) (members : Head → List Item) : Prop where
  ring : ∀ h, Ring l (.head h) ((members h).map .item)
  alone : ∀ i, (∀ h, i ∉ members h) → Ring l (.item i) []
  nodup : ∀ h, (members h).Nodup
  apart : ∀ {h k i}, i ∈ members h → i ∈ members k → h = k

variable {l : Links Head Item} {members : Head → List Item}

omit [DecidableEq Head] [DecidableEq Item] in
theorem lists_alone : Lists (Links.alone : Links Head Item) fun _ => [] where
  ring _ := ring_nil.mpr ⟨rfl, rfl⟩
  alone _ _ := ring_nil.mpr ⟨rfl, rfl⟩
  nodup _ := List.nodup_nil
  apart := nofun

omit [DecidableEq Head] [DecidableEq Item] in
theorem Lists.nodes_nodup (hl : Lists l members) (h : Head) :
    (Node.head h :: (members h).map .item).Nodup :=
  List.nodup_cons.mpr ⟨fun hm => (nomatch (List.mem_map.mp hm).choose_spec.2),
    (hl.nodup h).map fun _ _ he => Node.item.inj he⟩

omit [DecidableEq Head] [DecidableEq Item] in
/-- The pointers of an item in a list lead to nodes of that list. -/
theorem Lists.around (hl : Lists l members) {h : Head} {i : Item} (hi : i ∈ members h) :
    ∀ n, n = l.prev (.item i) ∨ n = l.next (.item i) →
      n ∈ Node.head h :: (members h).map .item := by
  obtain ⟨as, bs, hmem⟩ := List.append_of_mem hi
  have hring := hl.ring h
  rw [hmem, List.map_append, List.map_cons] at hring
  obtain ⟨pre, post, hpre, hpost, -, -⟩ := hring.around
  rw [hmem, List.map_append, List.map_cons]
  rintro n (rfl | rfl)
  · have : l.prev (.item i) ∈ Node.head h :: as.map .item :=
      hpre ▸ List.mem_append_right _ (List.mem_cons_self ..)
    rcases List.mem_cons.mp this with he | hm
    · exact he ▸ List.mem_cons_self ..
    · exact List.mem_cons_of_mem _ (List.mem_append_left _ hm)
  · have : l.next (.item i) ∈ bs.map Node.item ++ [.head h] := hpost ▸ List.mem_cons_self ..
    rcases List.mem_append.mp this with hm | he
    · exact List.mem_cons_of_mem _ (List.mem_append_right _ (List.mem_cons_of_mem _ hm))
    · exact List.mem_singleton.mp he ▸ List.mem_cons_self ..

omit [DecidableEq Head] [DecidableEq Item] in
/-- The nodes of two lists are different. -/
theorem Lists.nodes_apart (hl : Lists l members) {h k : Head} (hne : k ≠ h) {n : Node Head Item}
    (hn : n ∈ Node.head k :: (members k).map .item) : n ∉ Node.head h :: (members h).map .item := by
  intro hm
  cases n with
  | head _ =>
    simp only [List.mem_cons, Node.head.injEq, List.mem_map, reduceCtorEq, and_false, exists_false,
      or_false] at hn hm
    exact hne (hn.symm.trans hm)
  | item i =>
    simp only [List.mem_cons, reduceCtorEq, List.mem_map, Node.item.injEq, exists_eq_right,
      false_or] at hn hm
    exact hne (hl.apart hn hm)

omit [DecidableEq Head] [DecidableEq Item] in
theorem item_mem_nodes {h : Head} {i : Item} :
    Node.item i ∈ Node.head h :: (members h).map .item ↔ i ∈ members h := by
  simp

theorem init_eq_self {node : Node Head Item} (alone : Ring l node []) : l.init node = l := by
  obtain ⟨hnext, hprev⟩ := ring_nil.mp alone
  have hupdate :
      ∀ {f : Node Head Item → Node Head Item}, f node = node → Function.update f node node = f :=
    fun hf => Function.update_eq_self_iff.mpr hf.symm
  cases l
  simp only [Links.init, Links.setNext, Links.setPrev] at *
  rw [hupdate hnext, hupdate hprev]

/-- Taking an item out that is alone changes nothing. -/
theorem del_eq_self {i : Item} (alone : Ring l (.item i) []) : l.del i = l := by
  obtain ⟨hnext, hprev⟩ := ring_nil.mp alone
  rw [Links.del, hnext, hprev]
  show (l.init (.item i)).init (.item i) = l
  rw [init_eq_self alone, init_eq_self alone]

/-- An item is taken out of the list it is in, if any. -/
theorem Lists.del (hl : Lists l members) (i : Item) :
    Lists (l.del i) fun h => (members h).erase i := by
  by_cases hin : ∃ h, i ∈ members h
  case neg =>
    have hout : ∀ h, i ∉ members h := fun h hi => hin ⟨h, hi⟩
    rw [del_eq_self (hl.alone i hout)]
    simpa only [List.erase_of_not_mem (hout _)] using hl
  obtain ⟨h, hi⟩ := hin
  have hothers : ∀ k, k ≠ h → (members k).erase i = members k := fun k hk =>
    List.erase_of_not_mem fun hik => hk (hl.apart hik hi)
  have hsame : ∀ n, n ∉ Node.head h :: (members h).map .item →
      (l.del i).next n = l.next n ∧ (l.del i).prev n = l.prev n := fun n hn => by
    have hne : n ≠ .item i := fun he => hn (he ▸ List.mem_cons_of_mem _ (List.mem_map_of_mem hi))
    exact ⟨del_next l hne fun he => hn (hl.around hi n (.inl he)),
      del_prev l hne fun he => hn (hl.around hi n (.inr he))⟩
  refine ⟨fun k => ?_, fun j hj => ?_, fun k => (hl.nodup k).erase i,
    fun hi hj => hl.apart (List.mem_of_mem_erase hi) (List.mem_of_mem_erase hj)⟩
  · by_cases hk : k = h
    · obtain ⟨as, bs, hmem⟩ := List.append_of_mem hi
      have hnodes := hl.nodes_nodup h
      have hring := hl.ring h
      have hias : i ∉ as := fun hm => by
        have := hl.nodup h
        rw [hmem] at this
        exact (List.nodup_append.mp this).2.2 i hm i (List.mem_cons_self ..) rfl
      rw [hmem, List.map_append, List.map_cons] at hring hnodes
      rw [hk, hmem, List.erase_append_right _ hias, List.erase_cons_head, List.map_append]
      exact ring_del hring hnodes
    · rw [hothers k hk]
      exact (hl.ring k).congr fun n hn => hsame n (hl.nodes_apart hk hn)
  · by_cases hji : j = i
    · exact hji ▸ ring_init _ _
    · have hout : ∀ k, j ∉ members k := fun k hm => hj k ((List.mem_erase_of_ne hji).mpr hm)
      refine (hl.alone j hout).congr fun n hn => hsame n fun hm => ?_
      rw [List.mem_singleton.mp hn] at hm
      exact hout h (item_mem_nodes.mp hm)

omit [DecidableEq Head] [DecidableEq Item] in
theorem Lists.next_head (hl : Lists l members) (h : Head) :
    l.next (.head h) = match members h with
      | [] => .head h
      | i :: _ => .item i := by
  have hring : Chain l (Node.head h :: ((members h).map .item ++ [.head h])) := hl.ring h
  cases hmem : members h with
  | nil => exact (hmem ▸ hring).1
  | cons i is => exact (hmem ▸ hring).1

/-- An item that is in no list is put at the front of one. -/
theorem Lists.add (hl : Lists l members) {i : Item} {h : Head} (hi : ∀ k, i ∉ members k) :
    Lists (l.add i h) (Function.update members h (i :: members h)) := by
  have hnext : l.next (.head h) ∈ Node.head h :: (members h).map .item := by
    rw [hl.next_head]
    cases members h with
    | nil => exact List.mem_cons_self ..
    | cons j js => exact List.mem_cons_of_mem _ (List.mem_cons_self ..)
  have hsame : ∀ n, n ∉ Node.head h :: (members h).map .item → n ≠ .item i →
      (l.add i h).next n = l.next n ∧ (l.add i h).prev n = l.prev n := fun n hn hne =>
    ⟨add_next l (fun he => hn (he ▸ List.mem_cons_self ..)) hne, add_prev l hne fun he =>
      hn (he ▸ hnext)⟩
  have hmembers :
      ∀ {k j}, j ∈ Function.update members h (i :: members h) k → j = i ∧ k = h ∨ j ∈ members k :=
    fun {k j} hj => by
      by_cases hk : k = h
      · subst hk
        rw [Function.update_self] at hj
        exact (List.mem_cons.mp hj).imp_left fun he => ⟨he, rfl⟩
      · rw [Function.update_of_ne hk] at hj
        exact .inr hj
  refine ⟨fun k => ?_, fun j hj => ?_, fun k => ?_, fun {k k' j} hj hj' => ?_⟩
  · by_cases hk : k = h
    · subst hk
      rw [Function.update_self, List.map_cons]
      exact ring_add (hl.ring k) (hl.nodes_nodup k) fun hm =>
        hi k (item_mem_nodes.mp (List.mem_cons_of_mem _ hm))
    · rw [Function.update_of_ne hk]
      refine (hl.ring k).congr fun n hn => hsame n (hl.nodes_apart hk hn) fun he => ?_
      exact hi k (item_mem_nodes.mp (he ▸ hn))
  · have hji : j ≠ i :=
      fun he => hj h (by rw [he, Function.update_self]; exact List.mem_cons_self ..)
    have hout : ∀ k, j ∉ members k := fun k hm => hj k (by
      by_cases hk : k = h
      · subst hk
        rw [Function.update_self]
        exact List.mem_cons_of_mem _ hm
      · rwa [Function.update_of_ne hk])
    refine (hl.alone j hout).congr fun n hn => ?_
    rw [List.mem_singleton.mp hn]
    exact hsame _ (fun hm => hout h (item_mem_nodes.mp hm)) fun he => hji (Node.item.inj he)
  · by_cases hk : k = h
    · subst hk
      rw [Function.update_self]
      exact List.nodup_cons.mpr ⟨hi k, hl.nodup k⟩
    · rw [Function.update_of_ne hk]
      exact hl.nodup k
  · rcases hmembers hj with ⟨he, hk⟩ | hm
    · rcases hmembers hj' with ⟨-, hk'⟩ | hm'
      · exact hk.trans hk'.symm
      · exact absurd (he ▸ hm') (hi k')
    · rcases hmembers hj' with ⟨he, -⟩ | hm'
      · exact absurd (he ▸ hm) (hi k)
      · exact hl.apart hm hm'

/-! ## Walks -/

omit [DecidableEq Head] [DecidableEq Item]

/-- The first item of a ring is the head of its list. -/
theorem Lists.first (hl : Lists l members) (h : Head) : l.first h = (members h).head? := by
  rw [Links.first, hl.next_head h]
  cases members h <;> rfl

/-- A walk that may be as long as the list finds what is in it. -/
theorem Lists.find (hl : Lists l members) (p : Item → Bool) {h : Head} {fuel : Nat}
    (hfuel : (members h).length ≤ fuel) :
    l.findFrom p fuel (l.next (.head h)) = (members h).find? p := by
  have walk : ∀ (fuel : Nat) (is : List Item), is.length ≤ fuel →
      ∀ n, Chain l (n :: (is.map .item ++ [.head h])) →
          l.findFrom p fuel (l.next n) = is.find? p := by
    intro fuel
    induction fuel with
    | zero =>
      intro is his n _
      rw [List.length_eq_zero_iff.mp (Nat.le_zero.mp his)]
      rfl
    | succ fuel ih =>
      intro is his n hchain
      cases is with
      | nil =>
        rw [hchain.1]
        rfl
      | cons i is =>
        rw [hchain.1, Links.findFrom, List.find?_cons,
          ih is (Nat.le_of_succ_le_succ his) _ hchain.2.2]
        cases p i <;> rfl
  exact walk fuel (members h) hfuel _ (hl.ring h)

/-- Whatever the pointers lead to from a head is on its list. -/
theorem Lists.onList (hl : Lists l members) {h : Head} {i : Item} :
    OnList l h i ↔ i ∈ members h := by
  constructor
  · rintro ⟨n, hn⟩
    have hclosed : ∀ n, l.next^[n] (.head h) ∈ Node.head h :: (members h).map .item := by
      intro n
      induction n with
      | zero => exact List.mem_cons_self ..
      | succ n ih =>
        rw [Function.iterate_succ_apply']
        generalize l.next^[n] (.head h) = m at ih
        rcases List.mem_cons.mp ih with rfl | hm
        · rw [hl.next_head]
          cases members h with
          | nil => exact List.mem_cons_self ..
          | cons j js => exact List.mem_cons_of_mem _ (List.mem_cons_self ..)
        · obtain ⟨j, hj, rfl⟩ := List.mem_map.mp hm
          exact hl.around hj _ (.inr rfl)
    exact item_mem_nodes.mp (hn ▸ hclosed n)
  · intro hi
    have reach : ∀ (is : List Item) n, i ∈ is → Chain l (n :: (is.map .item ++ [.head h])) →
        ∃ k, l.next^[k] n = .item i := by
      intro is
      induction is with
      | nil => exact fun _ hi => nomatch hi
      | cons j js ih =>
        intro n hi hchain
        rcases List.mem_cons.mp hi with rfl | hi
        · exact ⟨1, hchain.1⟩
        · obtain ⟨k, hk⟩ := ih _ hi hchain.2.2
          refine ⟨k + 1, ?_⟩
          rw [Function.iterate_succ_apply, hchain.1]
          exact hk
    exact reach (members h) _ hi (hl.ring h)

end WinEmulator.Lib.Rings
