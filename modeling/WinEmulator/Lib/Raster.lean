import Mathlib.Data.List.Basic
import Mathlib.Data.Nat.Basic
import Mathlib.Logic.Function.Basic

/-!
# Rows of cells

Memory as a function of the index of a cell. Images lie in it row by row, each row as many cells
after the one before as the stride says. Here are the ways to write one: cell by cell with an index
or a pointer, and from another image.
-/

set_option autoImplicit false

namespace WinEmulator.Lib.Raster

variable {α : Type}

/-- The loop that writes the cells up to an index. -/
def fill (f : Nat → α) (n : Nat) (data : Nat → α) : Nat → α :=
  (List.range n).foldl (fun data i => Function.update data i (f i)) data

/-- `*p++ = v`. -/
def put (s : (Nat → α) × Nat) (v : α) : (Nat → α) × Nat := (Function.update s.1 s.2 v, s.2 + 1)

/-- The loops over the rows, and over the cells of a row. -/
def putRows (f : Nat → Nat → α) (w h : Nat) (data : Nat → α) : Nat → α :=
  ((List.range h).foldl (fun s y => (List.range w).foldl (fun s x => put s (f x y)) s) (data, 0)).1

/-- The cells of an image in the order they are written. -/
def rows (f : Nat → Nat → α) (w h : Nat) : List α :=
  (List.range h).flatMap fun y => (List.range w).map fun x => f x y

/-- The cell at a column and a row. -/
def cell (data : Nat → α) (stride x y : Nat) : α := data (y * stride + x)

/-- The memory of an image after another one was copied onto its first columns and rows. -/
def copyRows (src dst : Nat → α) (srcStride dstStride w h : Nat) : Nat → α := fun i =>
  if i % dstStride < w ∧ i / dstStride < h then cell src srcStride (i % dstStride) (i / dstStride)
  else dst i

/-! ## Writing cell by cell -/

theorem fill_apply (f : Nat → α) (n : Nat) (data : Nat → α) (i : Nat) :
    fill f n data i = if i < n then f i else data i := by
  induction n with
  | zero => rfl
  | succ n ih =>
    have hlast : fill f (n + 1) data = Function.update (fill f n data) n (f n) := by
      rw [fill, List.range_succ, List.foldl_append]
      rfl
    rw [hlast]
    rcases lt_trichotomy i n with hlt | rfl | hgt
    · rw [Function.update_of_ne (by omega), ih, if_pos hlt, if_pos (by omega)]
    · rw [Function.update_self, if_pos (by omega)]
    · rw [Function.update_of_ne (by omega), ih, if_neg (by omega), if_neg (by omega)]

theorem foldl_put_apply (vs : List α) (data : Nat → α) (p i : Nat) :
    (vs.foldl put (data, p)).1 i = if p ≤ i then vs[i - p]?.getD (data i) else data i := by
  induction vs generalizing data p with
  | nil => rw [List.foldl_nil, List.getElem?_nil, Option.getD_none, ite_self]
  | cons v vs ih =>
    rw [List.foldl_cons, put, ih]
    rcases lt_trichotomy i p with hlt | rfl | hgt
    · rw [if_neg (by omega), if_neg (by omega), Function.update_of_ne (by omega)]
    · rw [if_neg (by omega), if_pos (le_refl i), Function.update_self, Nat.sub_self,
        List.getElem?_cons_zero, Option.getD_some]
    · rw [if_pos (by omega), if_pos (by omega), Function.update_of_ne (by omega),
        show i - p = i - (p + 1) + 1 by omega,
        List.getElem?_cons_succ]

/-- Writing row after row is writing the rows in one list. -/
theorem foldl_put_rows (f : Nat → Nat → α) (w : Nat) (ys : List Nat) (s : (Nat → α) × Nat) :
    ys.foldl (fun s y => (List.range w).foldl (fun s x => put s (f x y)) s) s =
      (ys.flatMap fun y => (List.range w).map fun x => f x y).foldl put s := by
  rw [List.foldl_flatMap]
  simp only [List.foldl_map]

theorem length_rows (f : Nat → Nat → α) (w h : Nat) : (rows f w h).length = h * w := by
  simp [rows, List.length_flatMap]

/-- The cell of a place in the rows, by division. -/
theorem getElem?_rows (f : Nat → Nat → α) {w h i : Nat} (hi : i < h * w) :
    (rows f w h)[i]? = some (f (i % w) (i / w)) := by
  induction h with
  | zero => omega
  | succ h ih =>
    have hsplit : rows f w (h + 1) = rows f w h ++ (List.range w).map fun x => f x h := by
      rw [rows, List.range_succ, List.flatMap_append, List.flatMap_singleton]
      rfl
    rw [hsplit]
    by_cases hbefore : i < h * w
    · rw [List.getElem?_append_left (by rwa [length_rows]), ih hbefore]
    · -- the cell is in the last row
      rw [Nat.add_mul, Nat.one_mul] at hi
      have hdiv : i / w = h :=
        Nat.div_eq_of_lt_le (by omega) (by rw [Nat.add_mul, Nat.one_mul]; exact hi)
      have hmod : i % w = i - h * w := by
        have hsum := Nat.mod_add_div i w
        rw [hdiv, Nat.mul_comm] at hsum
        omega
      rw [List.getElem?_append_right (by rw [length_rows]; omega), length_rows, List.getElem?_map,
        List.getElem?_range (by omega), Option.map_some, hdiv, hmod]

/-- What the loops write. -/
theorem putRows_apply (f : Nat → Nat → α) (w h : Nat) (data : Nat → α) (i : Nat) :
    putRows f w h data i = if i < h * w then f (i % w) (i / w) else data i := by
  rw [putRows, foldl_put_rows]
  show ((rows f w h).foldl put (data, 0)).1 i = _
  rw [foldl_put_apply, if_pos (Nat.zero_le i), Nat.sub_zero]
  split
  case isTrue hi => rw [getElem?_rows f hi, Option.getD_some]
  case isFalse hi => rw [List.getElem?_eq_none (by rw [length_rows]; omega), Option.getD_none]

/-! ## Copying -/

/-- A copy has the cells of its source. -/
theorem cell_copyRows (src dst : Nat → α) (srcStride : Nat) {dstStride w h x y : Nat}
    (hstride : w ≤ dstStride) (hx : x < w)
    (hy : y < h) :
    cell (copyRows src dst srcStride dstStride w h) dstStride x y = cell src srcStride x y := by
  have hmod : (y * dstStride + x) % dstStride = x := by
    rw [Nat.mul_add_mod_of_lt (by omega)]
  have hdiv : (y * dstStride + x) / dstStride = y := by
    rw [Nat.mul_comm, Nat.mul_add_div (by omega), Nat.div_eq_of_lt (by omega), Nat.add_zero]
  rw [cell, copyRows, hmod, hdiv, if_pos ⟨hx, hy⟩]

end WinEmulator.Lib.Raster
