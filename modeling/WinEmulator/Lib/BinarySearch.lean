import Mathlib.Data.List.Basic

/-!
# Binary search

The loop that keeps a range, both of its ends in it, and compares the key in its middle. What it
finds is in the list and has the key; and in a list whose keys do not fall it finds every key that
is there.
-/

set_option autoImplicit false

namespace WinEmulator.Lib

variable {α : Type}

def binarySearch (key : α → Int) (xs : List α) (target min max : Int) : Option α :=
  if min ≤ max then
    match xs[((min + max) / 2).toNat]? with
    | none => none
    | some x =>
      if key x < target then binarySearch key xs target ((min + max) / 2 + 1) max
      else if target < key x then binarySearch key xs target min ((min + max) / 2 - 1)
      else some x
  else none
termination_by (max + 1 - min).toNat
decreasing_by all_goals omega

variable {key : α → Int} {xs : List α}

theorem binarySearch_sound {target min max : Int} {x : α}
    (h : binarySearch key xs target min max = some x) :
    x ∈ xs ∧ key x = target := by
  fun_induction binarySearch key xs target min max with
  | case1 => cases h
  | case2 min max hrange y hy hbelow ih => exact ih h
  | case3 min max hrange y hy hnotBelow habove ih => exact ih h
  | case4 min max hrange y hy hnotBelow hnotAbove =>
    cases h
    exact ⟨List.mem_of_getElem? hy, by omega⟩
  | case5 => cases h

/-- The key at an index is not above the key at a later one. -/
def Rising (key : α → Int) (xs : List α) : Prop := xs.Pairwise fun x y => key x ≤ key y

theorem Rising.le {i j : Nat} {x y : α} (h : Rising key xs) (hij : i ≤ j) (hx : xs[i]? = some x)
    (hy : xs[j]? = some y) :
    key x ≤ key y := by
  obtain ⟨hi, rfl⟩ := List.getElem?_eq_some_iff.mp hx
  obtain ⟨hj, rfl⟩ := List.getElem?_eq_some_iff.mp hy
  obtain rfl | hlt := Nat.eq_or_lt_of_le hij
  · exact Int.le_refl _
  · exact List.pairwise_iff_getElem.mp h i j hi hj hlt

/-- The search ends with something if the range has the key. -/
theorem binarySearch_isSome {target min max : Int} (hrising : Rising key xs) (hmin : 0 ≤ min)
    (hmax : max < xs.length)
    {i : Nat} {x : α} (hx : xs[i]? = some x) (hkey : key x = target) (hlow : min ≤ i)
    (hhigh : i ≤ max) :
    (binarySearch key xs target min max).isSome = true := by
  fun_induction binarySearch key xs target min max with
  | case1 min max hrange hnone =>
    have hlength := List.getElem?_eq_none_iff.mp hnone
    omega
  | case2 min max hrange y hy hbelow ih =>
    refine ih (by omega) hmax ?_ hhigh
    -- the middle's key is too low, so the index is above the middle
    have hnot : ¬i ≤ ((min + max) / 2).toNat := fun hle => by
      have hle' := hrising.le hle hx hy
      omega
    omega
  | case3 min max hrange y hy hnotBelow habove ih =>
    refine ih hmin (by omega) hlow ?_
    have hnot : ¬((min + max) / 2).toNat ≤ i := fun hle => by
      have hle' := hrising.le hle hy hx
      omega
    omega
  | case4 => rfl
  | case5 min max hrange => omega

/-- Every key of a list is found in it, if the list is searched from end to end. -/
theorem exists_binarySearch {x : α} (hrising : Rising key xs) (hx : x ∈ xs) :
    ∃ y, binarySearch key xs (key x) 0 (xs.length - 1) = some y ∧ y ∈ xs ∧ key y = key x := by
  obtain ⟨i, hi⟩ := List.mem_iff_getElem?.mp hx
  obtain ⟨hlength, -⟩ := List.getElem?_eq_some_iff.mp hi
  have hmax : (xs.length : Int) - 1 < xs.length := by omega
  have hlow : (0 : Int) ≤ i := by omega
  have hhigh : (i : Int) ≤ xs.length - 1 := by omega
  obtain ⟨y, hy⟩ := Option.isSome_iff_exists.mp
    (binarySearch_isSome hrising (Int.le_refl 0) hmax hi rfl hlow hhigh)
  exact ⟨y, hy, binarySearch_sound hy⟩

end WinEmulator.Lib
