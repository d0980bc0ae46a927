import WinEmulator.Laws.X11.DisplaySettings

/-!
# The shape of the view

The view has the shape of the display, and is as wide or as high as it was measured, while the
product that decides which of the two is no more than an `int` can be. The product that the height
is made of always is one.
-/

set_option autoImplicit false

namespace WinEmulator.X11.OnMeasure

open WinEmulator.Lib.JavaString (text)
open WinEmulator.X11.DisplaySettings
open WinEmulator.X11.LoriePreferences

/-- A size inside another with the shape of a third one, up to rounding. -/
structure Keeps (W H x y w h : Int) : Prop where
  width_nonneg : 0 ≤ w
  width_le : w ≤ W
  height_nonneg : 0 ≤ h
  height_le : h ≤ H
  proportional : (w = W ∧ h = W * y / x) ∨ (h = H ∧ w = H * x / y)

/-- The branch that goes wrong when the product overflows is not taken, or the product does not
overflow. -/
def Decided (W H x y : Int) : Prop := H * x < 2 ^ 31 ∨ W ≤ ((H * x).bmod (2 ^ 32)).tdiv y

instance (W H x y : Int) : Decidable (Decided W H x y) := inferInstanceAs (Decidable (_ ∨ _))

section

variable {W H x y : Int}

/-! ## Products -/

/-- A product is itself, or much more than what is left of it. -/
theorem bmod_cases {n : Int} (hnonneg : 0 ≤ n) :
    (n < 2 ^ 31 ∧ n.bmod (2 ^ 32) = n) ∨ (2 ^ 31 ≤ n ∧ n.bmod (2 ^ 32) ≤ n - 2 ^ 32) := by
  rw [Int.bmod_def]
  split
  · omega
  · omega

theorem bmod_lt (n : Int) : n.bmod (2 ^ 32) < 2 ^ 31 := by
  rw [Int.bmod_def]
  split
  · omega
  · omega

theorem tdiv_nonpos {n : Int} (hn : n ≤ 0) (hy : 0 < y) : n.tdiv y ≤ 0 := by
  have hle := Int.tdiv_le_tdiv hy hn
  rwa [Int.zero_tdiv] at hle

/-- A width that is at most the quotient has a product that is at most the dividend. -/
theorem mul_le_of_le_tdiv {n : Int} (hW : 0 ≤ W) (hy : 0 < y) (hle : W ≤ n.tdiv y) :
    W * y ≤ max n 0 := by
  rcases lt_or_ge n 0 with hneg | hnonneg
  · have hquotient := tdiv_nonpos hneg.le hy
    obtain rfl : W = 0 := by omega
    rw [Int.zero_mul]
    exact le_max_right n 0
  · rw [Int.tdiv_eq_ediv_of_nonneg hnonneg] at hle
    exact ((Int.le_ediv_iff_mul_le hy).mp hle).trans (le_max_left n 0)

/-! ## The two branches -/

/-- The height of a view that is as wide as it can be. -/
theorem keeps_width (hW : 0 ≤ W) (hH : 0 ≤ H) (hx : 0 < x) (hy : 0 < y)
    (hle : W ≤ ((H * x).bmod (2 ^ 32)).tdiv y) :
    Keeps W H x y W (((W * y).bmod (2 ^ 32)).tdiv x) := by
  have hproduct := mul_le_of_le_tdiv hW hy hle
  have hWy : 0 ≤ W * y := Int.mul_nonneg hW hy.le
  have hHx : 0 ≤ H * x := Int.mul_nonneg hH hx.le
  have hlt := bmod_lt (H * x)
  have hsame : (W * y).bmod (2 ^ 32) = W * y := by
    rcases bmod_cases hWy with ⟨-, heq⟩ | ⟨hge, -⟩
    · exact heq
    · omega
  have hmul : W * y ≤ H * x := by
    rcases bmod_cases hHx with ⟨-, heq⟩ | ⟨-, hless⟩
    · omega
    · omega
  have hheight : ((W * y).bmod (2 ^ 32)).tdiv x = W * y / x := by
    rw [hsame, Int.tdiv_eq_ediv_of_nonneg hWy]
  refine ⟨hW, le_refl W, ?_, ?_, .inl ⟨rfl, hheight⟩⟩
  · rw [hheight]
    exact Int.ediv_nonneg hWy hx.le
  · rw [hheight]
    exact Int.ediv_le_of_le_mul hx hmul

/-- The width of a view that is as high as it can be. -/
theorem keeps_height_iff (hH : 0 ≤ H) (hx : 0 < x) (hy : 0 < y) (hy' : y < 2 ^ 31)
    (hlt : ((H * x).bmod (2 ^ 32)).tdiv y < W) :
    Keeps W H x y (((H * x).bmod (2 ^ 32)).tdiv y) H ↔ H * x < 2 ^ 31 := by
  have hHx : 0 ≤ H * x := Int.mul_nonneg hH hx.le
  rcases bmod_cases hHx with ⟨hsmall, hsame⟩ | ⟨hlarge, hless⟩
  · refine iff_of_true ?_ hsmall
    have hwidth : ((H * x).bmod (2 ^ 32)).tdiv y = H * x / y := by
      rw [hsame, Int.tdiv_eq_ediv_of_nonneg hHx]
    refine ⟨?_, hlt.le, hH, le_refl H, .inr ⟨rfl, hwidth⟩⟩
    rw [hwidth]
    exact Int.ediv_nonneg hHx hy.le
  · refine iff_of_false (fun hkeeps => ?_) (by omega)
    rcases hkeeps.proportional with ⟨heq, -⟩ | ⟨-, heq⟩
    · omega
    · -- what is left of the product is too small for the quotient of the product
      have hexact : H * x < (H * x / y + 1) * y := Int.lt_ediv_add_one_mul_self (H * x) hy
      rw [← heq] at hexact
      rcases lt_or_ge ((H * x).bmod (2 ^ 32)) 0 with hneg | hnonneg
      · have hquotient := tdiv_nonpos hneg.le hy
        have hnonneg := hkeeps.width_nonneg
        have hzero : ((H * x).bmod (2 ^ 32)).tdiv y = 0 := by omega
        rw [hzero] at hexact
        omega
      · rw [Int.tdiv_eq_ediv_of_nonneg hnonneg, Int.add_mul, Int.one_mul] at hexact
        have hmul := Int.ediv_mul_le ((H * x).bmod (2 ^ 32)) (by omega : y ≠ 0)
        omega

end

/-! ## `onMeasure` -/

section

variable {width height x y : Int32}

/-- The quotient of the source, over the integers. -/
theorem toInt_quotient {a b c : Int32} (hc : 0 < c.toInt) :
    (a * b / c).toInt = ((a.toInt * b.toInt).bmod (2 ^ 32)).tdiv c.toInt := by
  have hne : c ≠ -1 := by
    rintro rfl
    exact absurd hc (by decide)
  rw [Int32.toInt_div_of_ne_right _ _ hne, Int32.toInt_mul]

/-- The size that is set keeps the shape exactly under the condition. -/
theorem keeps_fitted_iff (hW : 0 ≤ width.toInt) (hH : 0 ≤ height.toInt) (hx : 0 < x.toInt)
    (hy : 0 < y.toInt) :
    Keeps width.toInt height.toInt x.toInt y.toInt (fitted width height x y).width.toInt
      (fitted width height x y).height.toInt ↔
      Decided width.toInt height.toInt x.toInt y.toInt := by
  have hy' := Int32.toInt_lt y
  have hgreater : width > height * x / y ↔
      ((height.toInt * x.toInt).bmod (2 ^ 32)).tdiv y.toInt < width.toInt := by
    rw [gt_iff_lt, Int32.lt_iff_toInt_lt, toInt_quotient hy]
  unfold fitted Decided
  by_cases h : width > height * x / y
  · rw [if_pos h]
    rw [hgreater] at h
    rw [toInt_quotient hy, keeps_height_iff hH hx hy hy' h, or_iff_left (by omega)]
  · rw [if_neg h]
    rw [hgreater, not_lt] at h
    rw [toInt_quotient hx]
    exact iff_of_true (keeps_width hW hH hx hy h) (.inr h)

variable {prefs : SharedPreferences} {mMeasuredWidth mMeasuredHeight : UInt32} {r : Measured}

/-- What `getDimensionsFromSettings` gives is like the view already, so nothing changes places a
second time. -/
theorem adjusted_dimensions {adjust : Bool} {p : Int32 × Int32}
    (hsize : getDimensionsFromSettings prefs mMeasuredWidth mMeasuredHeight = .ok p)
    (hadjust : adjustResolution.getBoolean prefs = .ok adjust) :
    adjusted adjust (getMeasured mMeasuredWidth) (getMeasured mMeasuredHeight) p = p := by
  obtain ⟨x, y⟩ := p
  apply if_neg
  rintro ⟨hon, hturned⟩
  rw [getDimensionsFromSettings] at hsize
  cases hswitch : switchMode prefs (getMeasured mMeasuredWidth) (getMeasured mMeasuredHeight) with
  | error e =>
    rw [hswitch] at hsize
    cases hsize
  | ok size =>
    obtain ⟨w, h⟩ := size
    rw [hswitch, hadjust] at hsize
    simp only [bind, Except.bind, pure, Except.pure, hon, true_and] at hsize
    simp only [gt_iff_lt, Int32.lt_iff_toInt_lt] at hsize hturned
    split at hsize
    case isTrue hswapped =>
      obtain ⟨rfl, rfl⟩ := Prod.mk.inj (Except.ok.inj hsize)
      omega
    case isFalse hsame =>
      obtain ⟨rfl, rfl⟩ := Prod.mk.inj (Except.ok.inj hsize)
      exact hsame hturned

theorem exists_of_bind {α β : Type} {e : Except Thrown α} {f : α → Except Thrown β} {b : β}
    (h : (e >>= f) = .ok b) :
    ∃ a, e = .ok a ∧ f a = .ok b := by
  cases e with
  | error thrown => cases h
  | ok a => exact ⟨a, rfl, h⟩

/-- What is set, when something is. -/
theorem of_onMeasure (h : onMeasure prefs mMeasuredWidth mMeasuredHeight = .ok (some r)) :
    ∃ p, getDimensionsFromSettings prefs mMeasuredWidth mMeasuredHeight = .ok p ∧ 0 < p.1.toInt ∧
      0 < p.2.toInt ∧
      r = fitted (getMeasured mMeasuredWidth) (getMeasured mMeasuredHeight) p.1 p.2 := by
  obtain ⟨stretch, -, h⟩ := exists_of_bind h
  split at h
  case isTrue => cases h
  case isFalse =>
    obtain ⟨mode, -, h⟩ := exists_of_bind h
    split at h
    case isTrue => cases h
    case isFalse =>
      obtain ⟨p, hp, h⟩ := exists_of_bind h
      split at h
      case isTrue => cases h
      case isFalse harea =>
        obtain ⟨adjust, hadjust, h⟩ := exists_of_bind h
        rw [adjusted_dimensions hp hadjust] at h
        obtain ⟨hx, hy⟩ := not_or.mp harea
        refine ⟨p, hp, ?_, ?_, (Option.some.inj (Except.ok.inj h)).symm⟩
        · rwa [Int32.le_iff_toInt_le, not_le] at hx
        · rwa [Int32.le_iff_toInt_le, not_le] at hy

/-- **The view keeps the shape of the display** if the product that decides is right, or the width
is kept. -/
theorem keeps_onMeasure_iff (h : onMeasure prefs mMeasuredWidth mMeasuredHeight = .ok (some r))
    (hsize : getDimensionsFromSettings prefs mMeasuredWidth mMeasuredHeight = .ok (x, y)) :
    Keeps (getMeasured mMeasuredWidth).toInt (getMeasured mMeasuredHeight).toInt x.toInt y.toInt
      r.width.toInt r.height.toInt ↔
      Decided (getMeasured mMeasuredWidth).toInt (getMeasured mMeasuredHeight).toInt x.toInt
        y.toInt := by
  obtain ⟨p, hp, hx, hy, rfl⟩ := of_onMeasure h
  obtain rfl := Except.ok.inj (hp.symm.trans hsize)
  exact keeps_fitted_iff (toInt_getMeasured _).1 (toInt_getMeasured _).1 hx hy

end

theorem keeps_phone : Keeps 1080 2400 1280 1024 1080 864 := by
  have hmeasured :
      onMeasure (withResolution "1280x1024") 1080 2400 =
        .ok (some ⟨1280, 1024, 1080, 864⟩) := by decide +kernel
  have hsize :
      getDimensionsFromSettings (withResolution "1280x1024") 1080 2400 =
        .ok (1280, 1024) := by decide +kernel
  exact (keeps_onMeasure_iff hmeasured hsize).mpr (by decide)

/-- The product of 2400 and a million is taken for a negative one, and so is the width. -/
theorem not_keeps_million :
    onMeasure (withResolution "1000000x1000000") 1080 2400 =
      .ok (some ⟨1000000, 1000000, -1894, 2400⟩) ∧
      ¬Keeps 1080 2400 1000000 1000000 (-1894) 2400 := by
  refine ⟨by decide +kernel, fun h => ?_⟩
  exact absurd h.width_nonneg (by decide)

end WinEmulator.X11.OnMeasure
