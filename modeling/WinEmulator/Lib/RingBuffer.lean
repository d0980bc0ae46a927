import Mathlib.Data.List.Rotate
import Mathlib.Data.Nat.ModEq

/-!
# Ring buffers

An array, the index of the first element in it and the index behind the last one. The ring is empty
where the two are the same, so that one cell always stays free. `contents` reads the elements off
the array in their order, and each operation of a queue has its law here: what is written where, and
what the contents are then.
-/

set_option autoImplicit false

namespace WinEmulator.Lib.RingBuffer

variable {α : Type} {cells : List α} {n head tail : Nat}

/-- The index behind another one. -/
def next (n i : Nat) : Nat := (i + 1) % n

/-- How many elements there are between two indices of a ring with `n` cells. -/
def distance (n head tail : Nat) : Nat := if head ≤ tail then tail - head else tail + n - head

/-- The elements, the first one first. -/
def contents (cells : List α) (head tail : Nat) : List α :=
  (cells.rotate head).take (distance cells.length head tail)

theorem next_lt (h : head < n) : next n head < n :=
  Nat.mod_lt _ (Nat.lt_of_le_of_lt (Nat.zero_le head) h)

theorem next_of_lt (h : head + 1 < n) : next n head = head + 1 := Nat.mod_eq_of_lt h

theorem next_last (h : head + 1 = n) : next n head = 0 := by rw [next, h, Nat.mod_self]

theorem next_cases (h : head < n) :
    head + 1 < n ∧ next n head = head + 1 ∨ head + 1 = n ∧ next n head = 0 :=
  (Nat.lt_or_eq_of_le h).imp (fun hlt => ⟨hlt, next_of_lt hlt⟩) fun heq => ⟨heq, next_last heq⟩

theorem distance_lt (hhead : head < n) (htail : tail < n) : distance n head tail < n := by
  unfold distance
  split <;> omega

theorem distance_eq_zero_iff (hhead : head < n) : distance n head tail = 0 ↔ head = tail := by
  unfold distance
  split <;> omega

/-- Going that many elements on from the first index comes to the second one. -/
theorem add_distance_mod (hhead : head < n) (htail : tail < n) :
    (distance n head tail + head) % n = tail := by
  unfold distance
  split
  · rw [Nat.sub_add_cancel (by omega), Nat.mod_eq_of_lt htail]
  · rw [Nat.sub_add_cancel (by omega), Nat.add_mod_right, Nat.mod_eq_of_lt htail]

/-- Moving the tail adds one cell. -/
theorem distance_next_tail (hhead : head < n) (htail : tail < n)
    (hroom : distance n head tail + 1 < n) :
    distance n head (next n tail) = distance n head tail + 1 := by
  rcases next_cases htail with ⟨hlt, hnext⟩ | ⟨hlast, hnext⟩ <;> rw [hnext] <;>
    unfold distance at hroom ⊢ <;>
    split <;> split <;> split_ifs at hroom <;> omega

/-- Moving the head takes one cell off. -/
theorem distance_next_head (hhead : head < n) (htail : tail < n) (hne : head ≠ tail) :
    distance n head tail = distance n (next n head) tail + 1 := by
  rcases next_cases hhead with ⟨hlt, hnext⟩ | ⟨hlast, hnext⟩ <;> rw [hnext] <;> unfold distance <;>
    split <;> split <;> omega

/-- The contents are as many as the distance. -/
theorem length_contents (hhead : head < cells.length) (htail : tail < cells.length) :
    (contents cells head tail).length = distance cells.length head tail := by
  rw [contents, List.length_take, List.length_rotate,
    Nat.min_eq_left (Nat.le_of_lt (distance_lt hhead htail))]

/-- The ring is empty when head and tail meet. -/
theorem contents_eq_nil_iff (hhead : head < cells.length) (htail : tail < cells.length) :
    contents cells head tail = [] ↔ head = tail := by
  rw [← List.length_eq_zero_iff, length_contents hhead htail, distance_eq_zero_iff hhead]

/-- Cells are written through the rotation: the index that is `k` elements behind the first one. -/
theorem rotate_set (cells : List α) (head : Nat) {k : Nat} (hk : k < cells.length) (x : α) :
    (cells.set ((k + head) % cells.length) x).rotate head = (cells.rotate head).set k x := by
  refine List.ext_getElem (by simp) fun i hi _ => ?_
  have hlen : i < cells.length := by simpa using hi
  have hpos : 0 < cells.length := Nat.lt_of_le_of_lt (Nat.zero_le k) hk
  rw [List.getElem_rotate, List.getElem_set, List.getElem_set]
  simp only [List.length_set, List.getElem_rotate]
  refine if_congr ?_ rfl rfl
  constructor
  · intro heq
    have hmod : k % cells.length = i % cells.length := Nat.ModEq.add_right_cancel' head heq
    rwa [Nat.mod_eq_of_lt hk, Nat.mod_eq_of_lt hlen] at hmod
  · rintro rfl
    rfl

/-- An element is put at the end, where there is room. -/
theorem contents_push (hhead : head < cells.length) (htail : tail < cells.length)
    (hroom : distance cells.length head tail + 1 < cells.length) (x : α) :
    contents (cells.set tail x) head (next cells.length tail) = contents cells head tail ++
      [x] := by
  have hdistance := distance_lt hhead htail
  have hset := rotate_set cells head hdistance x
  rw [add_distance_mod hhead htail] at hset
  unfold contents
  rw [List.length_set, distance_next_tail hhead htail hroom, hset,
    List.take_add_one, List.take_set_of_le (Nat.le_refl _),
      List.getElem?_set_self (by simpa using hdistance)]
  rfl

/-- The last element is replaced. -/
theorem contents_replace {last : Nat} (hhead : head < cells.length) (hlast : last < cells.length)
    (hne : head ≠ next cells.length last) (x : α) :
    contents (cells.set last x) head (next cells.length last) =
      (contents cells head (next cells.length last)).dropLast ++ [x] := by
  have hroom : distance cells.length head last + 1 < cells.length := by
    have hdistance := distance_lt hhead hlast
    rcases next_cases hlast with ⟨hlt, hnext⟩ | ⟨hend, hnext⟩ <;>
      rw [hnext] at hne <;> unfold distance at hdistance ⊢ <;>
      split <;> split_ifs at hdistance <;> omega
  rw [contents_push hhead hlast hroom]
  congr 1
  have hpush := contents_push hhead hlast hroom cells[last]
  rw [List.set_getElem_self] at hpush
  rw [hpush, List.dropLast_concat]

/-- The first element is taken out. -/
theorem contents_pop (hhead : head < cells.length) (htail : tail < cells.length)
    (hne : head ≠ tail) :
    contents cells head tail = cells[head] :: contents cells (next cells.length head) tail := by
  have hrotate : cells.rotate (next cells.length head) = (cells.rotate head).rotate 1 := by
    rw [List.rotate_rotate, next, List.rotate_mod]
  have hcells : cells.rotate head = cells[head] :: (cells.rotate head).tail := by
    have hhd := List.head?_rotate hhead
    rw [List.getElem?_eq_getElem hhead] at hhd
    exact (List.cons_head?_tail hhd).symm
  have hlen : (cells.rotate head).tail.length = cells.length - 1 := by simp
  have hroom :
      distance cells.length (next cells.length head) tail ≤ (cells.rotate head).tail.length := by
    rw [hlen]
    have := distance_lt hhead htail
    have := distance_next_head hhead htail hne
    omega
  unfold contents
  rw [distance_next_head hhead htail hne, hrotate]
  conv_lhs => rw [hcells]
  rw [List.take_succ_cons]
  congr 1
  conv_rhs => rw [hcells, List.rotate_cons_succ, List.rotate_zero,
    List.take_append_of_le_length hroom]

/-- The elements are moved to the beginning of a larger array. -/
theorem contents_grow (hhead : head < cells.length) (htail : tail < cells.length) (fresh : List α) :
    contents (cells.drop head ++ cells.take head ++ fresh) 0 (distance cells.length head tail) =
      contents cells head tail := by
  have hdistance := distance_lt hhead htail
  rw [← List.rotate_eq_drop_append_take (Nat.le_of_lt hhead)]
  unfold contents
  rw [List.rotate_zero, distance, if_pos (Nat.zero_le _), Nat.sub_zero,
    List.take_append_of_le_length]
  rw [List.length_rotate]
  exact Nat.le_of_lt hdistance

end WinEmulator.Lib.RingBuffer
