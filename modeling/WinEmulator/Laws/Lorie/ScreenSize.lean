import Mathlib.Data.Int.ModEq
import WinEmulator.Lorie.ConfigureNotify

/-!
# Which sizes a screen can have

The width of a generated mode is a multiple of 8, but for one: 1366, which takes the place of 1360
when the height is 768. Any other width that is asked for is not the one the screen gets, and the
next request to have it changes the screen again.
-/

set_option autoImplicit false

namespace WinEmulator.Lorie.ConfigureNotify

/-- The screen has a size and a frame rate. -/
structure Has (s : State) (width height framerate : Int32) : Prop where
  width : s.width.toInt = width.toInt
  height : s.height.toInt = height.toInt
  framerate : s.root.framerate.toNat = framerate.toInt

theorem has_iff {s : State} {width height framerate : Int32} : Has s width height framerate ↔
    s.width.toInt = width.toInt ∧ s.height.toInt = height.toInt ∧
      s.root.framerate.toNat = framerate.toInt :=
  ⟨fun h => ⟨h.width, h.height, h.framerate⟩, fun h => ⟨h.1, h.2.1, h.2.2⟩⟩

instance (s : State) (width height framerate : Int32) : Decidable (Has s width height framerate) :=
  decidable_of_iff' _ has_iff

/-- The screen has what was asked for, and asking again sets no mode and no pixmap. -/
def Exact (s : State) (width height framerate : Int32) (name_size : UInt64)
    (name : Option (List UInt8)) : Prop :=
  let s' := lorieConfigureNotify s width height framerate name_size name
  Has s' width height framerate ∧
    (lorieConfigureNotify s' width height framerate name_size name).calls = s'.calls ∧
    (lorieConfigureNotify s' width height framerate name_size name).screenPixmap = s'.screenPixmap

/-- The mode that is made for a size has that size. -/
def Generated (width height : Int32) : Prop :=
  (8 ∣ width.toInt ∧ ¬(width = 1360 ∧ height = 768)) ∨ (width = 1366 ∧ height = 768)

variable {s : State} {width height framerate : Int32} {name_size : UInt64}
  {name : Option (List UInt8)}

/-! ## Modes -/

/-- A number that is not negative is the same without a sign. -/
theorem toNat_toUInt32 {n : Int32} (h : 0 ≤ n.toInt) : (n.toUInt32.toNat : Int) = n.toInt := by
  have hcond : n.toInt = if 2 * n.toUInt32.toNat < 2 ^ 32 then (n.toUInt32.toNat : Int)
      else (n.toUInt32.toNat : Int) - ((2 ^ 32 : Nat) : Int) :=
        BitVec.toInt_eq_toNat_cond n.toUInt32.toBitVec
  have hlt := n.toUInt32.toNat_lt
  split at hcond
  · exact hcond.symm
  · omega

theorem toInt_toInt16 {u : UInt16} (h : u.toNat < 2 ^ 15) : u.toInt16.toInt = u.toNat :=
  BitVec.toInt_eq_toNat_of_lt (by show 2 * u.toNat < _; omega)

/-- The size of a mode. -/
theorem lorieCvt_eq (hwidth : 0 ≤ width.toInt) (hwidth' : width.toInt ≤ 32767)
    (hheight : 0 ≤ height.toInt)
    (hheight' : height.toInt ≤ 32767) :
    ((lorieCvt width height).width.toInt16.toInt =
      if width.toInt - width.toInt % 8 = 1360 ∧
        height.toInt = 768 then 1366 else width.toInt - width.toInt % 8) ∧
    (lorieCvt width height).height.toInt16.toInt = height.toInt := by
  have hw := toNat_toUInt32 hwidth
  have hh := toNat_toUInt32 hheight
  have hmod : (width.toUInt32 % 8).toNat = width.toUInt32.toNat % 8 := UInt32.toNat_mod _ _
  have hrnd :
      (width.toUInt32 - width.toUInt32 % 8).toNat =
        width.toUInt32.toNat - width.toUInt32.toNat % 8 := by
    rw [UInt32.toNat_sub_of_le _ _ (UInt32.le_iff_toNat_le.mpr (by omega)), hmod]
  have hhack : (width.toUInt32 - width.toUInt32 % 8 = 1360 ∧ height.toUInt32 = 768) ↔
      (width.toInt - width.toInt % 8 = 1360 ∧ height.toInt = 768) := by
    rw [← UInt32.toNat_inj, ← UInt32.toNat_inj, hrnd]
    show _ = 1360 ∧ _ = 768 ↔ _
    omega
  rw [lorieCvt, libxcvt_gen_mode_info]
  by_cases h : width.toInt - width.toInt % 8 = 1360 ∧ height.toInt = 768
  · rw [if_pos h, if_pos (hhack.mpr h)]
    exact ⟨rfl, h.2.symm⟩
  · rw [if_neg h, if_neg (hhack.not.mpr h)]
    have hw16 :
        (width.toUInt32 - width.toUInt32 % 8).toUInt16.toNat =
          width.toUInt32.toNat - width.toUInt32.toNat % 8 := by
      rw [UInt32.toNat_toUInt16, hrnd]
      omega
    have hh16 : height.toUInt32.toUInt16.toNat = height.toUInt32.toNat := by
      rw [UInt32.toNat_toUInt16]
      omega
    refine ⟨?_, ?_⟩
    · show (width.toUInt32 - width.toUInt32 % 8).toUInt16.toInt16.toInt = _
      rw [toInt_toInt16 (by omega), hw16]
      omega
    · show height.toUInt32.toUInt16.toInt16.toInt = _
      rw [toInt_toInt16 (by omega), hh16, hh]

/-- The generated mode has the width that was asked for in these cases only. -/
theorem lorieCvt_eq_iff (hwidth : 0 ≤ width.toInt) (hwidth' : width.toInt ≤ 32767)
    (hheight : 0 ≤ height.toInt)
    (hheight' : height.toInt ≤ 32767) :
    (lorieCvt width height).width.toInt16.toInt = width.toInt ↔ Generated width height := by
  rw [(lorieCvt_eq hwidth hwidth' hheight hheight').1, Generated, ← Int32.toInt_inj,
    ← Int32.toInt_inj, ← Int32.toInt_inj]
  show _ ↔ (_ ∧ ¬(_ = 1360 ∧ _ = 768)) ∨ (_ = 1366 ∧ _ = 768)
  split
  · omega
  · omega

/-! ## The screen -/

/-- The name is all that a request changes first. -/
def named (s : State) (name_size : UInt64) (name : Option (List UInt8)) : State :=
  match name with
  | some name => if s.output.isSome then setName s name_size name else s
  | none => s

/-- What holds of the screen as it is, and with any name, holds of it after that. -/
theorem named_induction {P : State → Prop} (h : P s)
    (hset : ∀ name', P (setName s name_size name')) :
    P (named s name_size name) := by
  unfold named
  cases name with
  | none => exact h
  | some name' =>
    show P (if s.output.isSome then setName s name_size name' else s)
    split
    · exact hset name'
    · exact h

@[simp] theorem has_named :
    Has (named s name_size name) width height framerate ↔ Has s width height framerate :=
  named_induction (P := fun s' => Has s' width height framerate ↔ Has s width height framerate)
      Iff.rfl fun _ =>
    has_iff.trans (has_iff (s := s)).symm

@[simp] theorem isSome_output_named : (named s name_size name).output.isSome = s.output.isSome :=
  named_induction (P := fun s' => s'.output.isSome = s.output.isSome) rfl fun _ => Option.isSome_map

@[simp] theorem calls_named : (named s name_size name).calls = s.calls :=
  named_induction (P := fun s' => s'.calls = s.calls) rfl fun _ => rfl

@[simp] theorem screenPixmap_named : (named s name_size name).screenPixmap = s.screenPixmap :=
  named_induction (P := fun s' => s'.screenPixmap = s.screenPixmap) rfl fun _ => rfl

/-- The source's comparison tells a screen of another size from one of this size. -/
theorem differs_iff (hwidth : 0 < width.toInt) (hheight : 0 < height.toInt)
    (hframerate : 0 < framerate.toInt) :
    Differs s width height framerate ↔ ¬Has s width height framerate := by
  have hwidth' : width ≠ 0 := by
    rintro rfl
    exact lt_irrefl 0 hwidth
  have hheight' : height ≠ 0 := by
    rintro rfl
    exact lt_irrefl 0 hheight
  have hrate := toNat_toUInt32 hframerate.le
  have hhas : Has s width height framerate ↔
      s.width.toInt32 = width ∧ s.height.toInt32 = height ∧
          s.root.framerate = framerate.toUInt32 := by
    rw [has_iff, ← Int32.toInt_inj, ← Int32.toInt_inj, ← UInt32.toNat_inj, Int16.toInt_toInt32,
      Int16.toInt_toInt32]
    omega
  rw [hhas, Differs]
  tauto

/-- A request, to an output for a screen that has something else, sets a mode. -/
theorem lorieConfigureNotify_eq (hwidth : 0 < width.toInt) (hheight : 0 < height.toInt)
    (hframerate : 0 < framerate.toInt) :
    lorieConfigureNotify s width height framerate name_size name =
      if s.output.isSome ∧
        ¬Has s width height framerate then setMode (named s name_size name) width height framerate
      else named s name_size name := by
  have hrate : framerate ≠ 0 := by
    rintro rfl
    exact lt_irrefl 0 hframerate
  have hdiffers := differs_iff (s := named s name_size name) hwidth hheight hframerate
  rw [has_named] at hdiffers
  unfold lorieConfigureNotify
  rw [if_neg hrate]
  show (if (named s name_size name).output.isSome ∧
    Differs (named s name_size name) width height framerate then _ else _) = _
  rw [isSome_output_named]
  exact if_congr (and_congr_right fun _ => hdiffers) rfl rfl

/-- Setting the mode gives the size that was asked for if and only if the generator can. -/
theorem has_setMode_iff (hwidth : 0 < width.toInt) (hwidth' : width.toInt ≤ 32767)
    (hheight : 0 < height.toInt)
    (hheight' : height.toInt ≤ 32767) (hframerate : 0 < framerate.toInt) :
    Has (setMode s width height framerate) width height framerate ↔ Generated width height := by
  rw [← lorieCvt_eq_iff hwidth.le hwidth' hheight.le hheight']
  constructor
  · exact fun h => h.width
  · exact fun h =>
      ⟨h, (lorieCvt_eq hwidth.le hwidth' hheight.le hheight').2, toNat_toUInt32 hframerate.le⟩

/-- What has the size that is asked for is left as it is, but for the name. -/
theorem idle_of_has (hwidth : 0 < width.toInt) (hheight : 0 < height.toInt)
    (hframerate : 0 < framerate.toInt)
    (h : Has s width height framerate) :
    (lorieConfigureNotify s width height framerate name_size name).calls = s.calls ∧
      (lorieConfigureNotify s width height framerate name_size name).screenPixmap =
        s.screenPixmap := by
  rw [lorieConfigureNotify_eq hwidth hheight hframerate, if_neg fun hnot => hnot.2 h]
  exact ⟨calls_named, screenPixmap_named⟩

/-- **A request is exact** if the screen has what it asks for, or an output and the size of the mode
that is made. -/
theorem exact_iff (hwidth : 0 < width.toInt) (hwidth' : width.toInt ≤ 32767)
    (hheight : 0 < height.toInt)
    (hheight' : height.toInt ≤ 32767) (hframerate : 0 < framerate.toInt) :
    Exact s width height framerate name_size name ↔
      Has s width height framerate ∨ (s.output.isSome ∧ Generated width height) := by
  have hexact : Exact s width height framerate name_size name ↔
      Has (lorieConfigureNotify s width height framerate name_size name) width height framerate :=
    and_iff_left_of_imp (idle_of_has hwidth hheight hframerate)
  rw [hexact, lorieConfigureNotify_eq hwidth hheight hframerate]
  by_cases h : s.output.isSome ∧ ¬Has s width height framerate
  · rw [if_pos h, has_setMode_iff hwidth hwidth' hheight hheight' hframerate, or_iff_right h.2,
      and_iff_right h.1]
  · rw [if_neg h, has_named]
    constructor
    · exact .inl
    · rintro (hhas | ⟨hsome, -⟩)
      · exact hhas
      · by_contra hnot
        exact h ⟨hsome, hnot⟩

/-- `lorieScreen` as it is at first, with an output. -/
def first : State where
  width := 1280
  height := 1024
  root := ⟨1280, 1024, [], 30⟩
  drawableWidth := 1280
  drawableHeight := 1024
  output := some ⟨[], [⟨1280, 1024⟩]⟩
  screenPixmap := ⟨0, 1280, 1024⟩
  nextPixmap := 1
  vblank_interval := 33333
  cursorMoved := false
  calls := []

theorem exact_1366 : Exact first 1366 768 60 0 none :=
  (exact_iff (by decide) (by decide) (by decide) (by decide) (by decide)).mpr
    (.inr ⟨rfl, .inr ⟨rfl, rfl⟩⟩)

/-- The width of a phone that is no multiple of 8: the screen gets 1168, and another pixmap when it
is asked again. -/
theorem not_exact_1170 :
    ¬Exact first 1170 2532 60 0 none ∧
      (lorieConfigureNotify first 1170 2532 60 0 none).width = 1168 ∧
    (lorieConfigureNotify (lorieConfigureNotify first 1170 2532 60 0 none) 1170 2532 60 0
      none).screenPixmap.id = 2 := by
  refine ⟨fun h => ?_, by decide, by decide⟩
  exact absurd h.1.width (by decide)

end WinEmulator.Lorie.ConfigureNotify
