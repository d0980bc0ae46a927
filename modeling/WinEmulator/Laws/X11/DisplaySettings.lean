import WinEmulator.Laws.App.ImportSettings
import WinEmulator.Laws.X11.ChangePreference
import WinEmulator.X11.DisplaySettings

/-!
# Which stored resolutions can be displayed

The three writers check less than the reader needs. A text of the settings may have a zero in it, an
imported file any text at all, and a request any scale and any two numbers. The reader in turn
catches the exception of a part that is no number, but not that of a part that is missing.
-/

set_option autoImplicit false

namespace WinEmulator.X11.DisplaySettings

open WinEmulator.Lib
open WinEmulator.Lib.JavaString (JString text split parseInt)
open WinEmulator.App
open WinEmulator.App.SettingsFile (general_resolution)
open WinEmulator.X11.LoriePreferences

/-- The size is set, and it is positive if the view has one that is. -/
def Displayed (prefs : SharedPreferences) (mMeasuredWidth mMeasuredHeight : UInt32) : Prop :=
  ∃ w h, getDimensionsFromSettings prefs mMeasuredWidth mMeasuredHeight = .ok (w, h) ∧
    (0 < getMeasured mMeasuredWidth → 0 < getMeasured mMeasuredHeight → 0 < w ∧ 0 < h)

/-- What a custom resolution has to be: a first part that is no number, or two parts, of which one
is no number or both are positive. -/
def Shown (resolution : JString) : Prop :=
  match split resolution (unit 'x') with
  | [] => False
  | [w] => parseInt w = none
  | w :: h :: _ =>
    ∀ width height, parseInt w = some width → parseInt h = some height → 0 < width ∧ 0 < height

/-- What the store has to hold, by its mode. -/
structure Displayable (prefs : SharedPreferences) : Prop where
  scaled : displayResolutionMode.getString prefs = .ok (text "scaled") →
    ∀ scale, displayScale.getInt prefs = .ok scale → 1 ≤ scale ∧ scale ≤ 100
  custom : displayResolutionMode.getString prefs = .ok (text "custom") →
    ∀ resolution, displayResolutionCustom.getString prefs = .ok resolution → Shown resolution

def Positive : Except Thrown (Int32 × Int32) → Prop
  | .ok (w, h) => 0 < w ∧ 0 < h
  | .error _ => False

instance : DecidablePred Positive
  | .ok (w, h) => inferInstanceAs (Decidable (0 < w ∧ 0 < h))
  | .error _ => inferInstanceAs (Decidable False)

/-- Only a custom resolution is stored. -/
def withResolution (resolution : String) : SharedPreferences :=
  SharedPreferences.put (fun _ => none) displayResolutionCustom.key (.string (text resolution))

variable {prefs : SharedPreferences}

/-! ## Scales -/

/-- A measured size is never negative. -/
theorem toInt_getMeasured (mMeasured : UInt32) :
    0 ≤ (getMeasured mMeasured).toInt ∧ (getMeasured mMeasured).toInt ≤ 0x00FFFFFF := by
  have hle : (mMeasured &&& 0x00FFFFFF).toNat ≤ 0x00FFFFFF := by
    rw [UInt32.toNat_and]
    exact Nat.and_le_right
  rw [getMeasured, Int32.toInt_ofNat_of_lt (by omega)]
  omega

/-- A size is so small that a hundred times as much is no overflow. -/
theorem toInt_hundred (mMeasured : UInt32) :
    (getMeasured mMeasured * 100).toInt = (getMeasured mMeasured).toInt * 100 := by
  obtain ⟨hlow, hhigh⟩ := toInt_getMeasured mMeasured
  rw [Int32.toInt_mul, Int.bmod_eq_of_le]
  · rfl
  · simp
    omega
  · simp
    omega

/-- The scaled size, over the integers. -/
theorem toInt_scaled (mMeasured : UInt32) (scale : Int32) :
    (getMeasured mMeasured * 100 / scale).toInt =
    ((getMeasured mMeasured).toInt * 100).tdiv scale.toInt := by
  have hne : getMeasured mMeasured * 100 ≠ Int32.minValue := by
    intro heq
    have htoInt := congrArg Int32.toInt heq
    rw [toInt_hundred, Int32.toInt_minValue] at htoInt
    have hlow := (toInt_getMeasured mMeasured).1
    omega
  rw [Int32.toInt_div_of_ne_left _ _ hne, toInt_hundred]

/-- A scale from 1 to 100 leaves a positive size. -/
theorem scaled_pos {mMeasured : UInt32} {scale : Int32} (hlow : 1 ≤ scale) (hhigh : scale ≤ 100)
    (hpos : 0 < getMeasured mMeasured) : 0 < getMeasured mMeasured * 100 / scale := by
  rw [Int32.le_iff_toInt_le] at hlow hhigh
  rw [Int32.lt_iff_toInt_lt] at hpos ⊢
  have hone : (1 : Int32).toInt = 1 := rfl
  have hhundred : (100 : Int32).toInt = 100 := rfl
  have hzero : (0 : Int32).toInt = 0 := rfl
  rw [toInt_scaled, Int.tdiv_eq_ediv_of_nonneg (by omega)]
  have hquotient : 1 ≤ (getMeasured mMeasured).toInt * 100 / scale.toInt :=
    (Int.le_ediv_iff_mul_le (by omega)).mpr (by omega)
  omega

/-- The smallest view shows which scales are too large. -/
theorem scale_of_scaled_pos {scale : Int32} (h : 0 < getMeasured 1 * 100 / scale) :
    1 ≤ scale ∧ scale ≤ 100 := by
  rw [Int32.lt_iff_toInt_lt, toInt_scaled] at h
  rw [Int32.le_iff_toInt_le, Int32.le_iff_toInt_le]
  have hmeasured : (getMeasured 1).toInt * 100 = 100 := by decide
  have hone : (1 : Int32).toInt = 1 := rfl
  have hhundred : (100 : Int32).toInt = 100 := rfl
  have hzero : (0 : Int32).toInt = 0 := rfl
  rw [hmeasured, hzero] at h
  rw [hone, hhundred]
  rcases lt_or_ge scale.toInt 1 with hsmall | hlow
  · have hnonpos : Int.tdiv 100 scale.toInt ≤ 0 :=
      Int.tdiv_nonpos_of_nonneg_of_nonpos (by omega) (by omega)
    omega
  · refine ⟨hlow, ?_⟩
    rw [Int.tdiv_eq_ediv_of_nonneg (by omega)] at h
    have := (Int.le_ediv_iff_mul_le (a := 1) (b := 100) (by omega : 0 < scale.toInt)).mp h
    omega

/-! ## Resolutions -/

/-- The size that a custom resolution makes. -/
def customSize (resolution : JString) : Except Thrown (Int32 × Int32) :=
  match parseResolution resolution with
  | .error (.numberFormat _) => pure (1280, 1024)
  | size => size

/-- The texts that give a positive size. -/
theorem positive_customSize (resolution : JString) :
    Positive (customSize resolution) ↔ Shown resolution := by
  unfold customSize parseResolution Shown
  cases hparts : split resolution (unit 'x') with
  | nil => exact Iff.rfl
  | cons w parts =>
    cases hw : parseInt w with
    | none =>
      cases parts with
      | nil => simp [hw, Except.bind, Positive, pure, Except.pure]
      | cons h parts => simp [hw, Except.bind, Positive, pure, Except.pure]
    | some width =>
      cases parts with
      | nil => simp [hw, Except.bind, Except.map, Positive]
      | cons h parts =>
        cases hh : parseInt h with
        | none => simp [hw, hh, Except.bind, Except.map, Positive, pure, Except.pure]
        | some height => simp [hw, hh, Except.bind, Except.map, Positive]

instance : DecidablePred Shown :=
  fun resolution => decidable_of_iff _ (positive_customSize resolution)

/-- Every resolution of the list is positive. -/
theorem positive_displayResolution :
    ∀ resolution ∈ displayResolution.strings, Positive (parseResolution resolution) := by
  decide +kernel

/-- The separator is no digit. -/
theorem separator_not_mem {supplementary : Char → Bool} {cs : List Char}
    (h : ∀ c ∈ cs, isDigit supplementary c = true) :
    unit 'x' ∉ Utf16.encode cs := by
  intro hmem
  obtain ⟨c, hc, hplain, hunit⟩ := Utf16.of_mem_encode (by decide) hmem
  have hdigit := h c hc
  rw [isDigit, if_pos hplain, unit, ← hunit] at hdigit
  exact absurd hdigit (by decide)

/-- What the pattern matches is two runs of digits. -/
theorem of_matchResolution {supplementary : Char → Bool} {s' : JString} {w h : List Char}
    (hmatch : matchResolution supplementary s' = some (w, h)) :
    (∀ c ∈ w, isDigit supplementary c = true) ∧ (∀ c ∈ h, isDigit supplementary c = true) ∧ w ≠
    [] ∧ h ≠ [] := by
  simp only [matchResolution] at hmatch
  split at hmatch
  case isTrue hall =>
    obtain ⟨rfl, rfl⟩ := Prod.mk.inj (Option.some.inj hmatch)
    exact ⟨fun c hc => List.mem_takeWhile_imp hc, List.all_eq_true.mp hall.2.2.2, hall.1,
      hall.2.2.1⟩
  case isFalse => cases hmatch

theorem split_format {supplementary : Char → Bool} {s' : JString} {w h : List Char}
    (hmatch : matchResolution supplementary s' = some (w, h)) :
    split (Utf16.encode (w ++ 'x' :: h)) (unit 'x') = [Utf16.encode w, Utf16.encode h] := by
  obtain ⟨hw, hh, -, hne⟩ := of_matchResolution hmatch
  rw [Utf16.encode_append, Utf16.encode_cons]
  exact JavaString.split_middle (separator_not_mem hw) (separator_not_mem hh) fun hnil =>
    hne (Utf16.encode_eq_nil.mp hnil)

/-- Two runs of digits with a separator between them. -/
theorem shown_format {supplementary : Char → Bool} {s' : JString} {w h : List Char}
    (hmatch : matchResolution supplementary s' = some (w, h)) :
    Shown (Utf16.encode (w ++ 'x' :: h)) ↔ ∀ width height, parseInt (Utf16.encode w) = some width →
      parseInt (Utf16.encode h) = some height → 0 < width ∧ 0 < height := by
  unfold Shown
  rw [split_format hmatch]

/-! ## The modes -/

section

variable {mode : JString} {width height : Int32}

/-- The size in mode `scaled`. -/
theorem switchMode_scaled {scale : Int32}
    (hmode : displayResolutionMode.getString prefs = .ok (text "scaled"))
    (hscale : displayScale.getInt prefs = .ok scale) :
    switchMode prefs width height = if scale = 0 then .error .arithmetic else .ok
      (width * 100 / scale, height * 100 / scale) := by
  by_cases hzero : scale = 0
  · simp only [switchMode, hmode, hscale, divide, hzero, bind, Except.bind, if_true]
  · simp only [switchMode, hmode, hscale, divide, hzero, bind, Except.bind, pure, Except.pure,
      if_true, if_false]

/-- The size in mode `exact`. -/
theorem switchMode_exact {resolution : JString}
    (hmode : displayResolutionMode.getString prefs = .ok (text "exact"))
    (hexact : displayResolutionExact.getString prefs = .ok resolution) :
    switchMode prefs width height = parseResolution resolution := by
  have hscaled : text "exact" ≠ text "scaled" := by simp
  simp only [switchMode, hmode, hexact, hscaled, bind, Except.bind, if_true, if_false]

/-- The size in mode `custom`. -/
theorem switchMode_custom {resolution : JString}
    (hmode : displayResolutionMode.getString prefs = .ok (text "custom"))
    (hcustom : displayResolutionCustom.getString prefs = .ok resolution) :
    switchMode prefs width height = customSize resolution := by
  have hscaled : text "custom" ≠ text "scaled" := by simp
  have hexact : text "custom" ≠ text "exact" := by simp
  simp only [switchMode, hmode, hcustom, hscaled, hexact, bind, Except.bind, if_true, if_false]
  rfl

/-- The size in every other mode. -/
theorem switchMode_native (hmode : displayResolutionMode.getString prefs = .ok mode)
    (hscaled : mode ≠ text "scaled")
    (hexact : mode ≠ text "exact") (hcustom : mode ≠ text "custom") :
    switchMode prefs width height = .ok (width, height) := by
  simp only [switchMode, hmode, hscaled, hexact, hcustom, bind, Except.bind, pure, Except.pure,
    if_false]

end

/-- Fitting a size to the orientation changes nothing of it but the order. -/
theorem displayed_iff (h : WellTyped prefs) (mMeasuredWidth mMeasuredHeight : UInt32) :
    Displayed prefs mMeasuredWidth mMeasuredHeight ↔
      (∃ size, switchMode prefs (getMeasured mMeasuredWidth) (getMeasured mMeasuredHeight) =
        .ok size) ∧
        (0 < getMeasured mMeasuredWidth → 0 < getMeasured mMeasuredHeight →
          Positive (switchMode prefs (getMeasured mMeasuredWidth)
            (getMeasured mMeasuredHeight))) := by
  obtain ⟨adjust, hadjust⟩ : ∃ adjust, adjustResolution.getBoolean prefs = .ok adjust :=
    exists_getBoolean h mem_adjustResolution
  unfold Displayed getDimensionsFromSettings
  cases hsize : switchMode prefs (getMeasured mMeasuredWidth) (getMeasured mMeasuredHeight) with
  | error e => simp [hsize, bind, Except.bind]
  | ok size =>
    obtain ⟨w, h⟩ := size
    simp only [hsize, hadjust, bind, Except.bind, pure, Except.pure, Positive]
    split
    · simp [and_comm]
    · simp

theorem getMeasured_one : 0 < getMeasured 1 := by
  decide

/-- A size that does not depend on the view. -/
theorem displayed_iff_positive {size : Except Thrown (Int32 × Int32)} (h : WellTyped prefs)
    (hsize : ∀ width height, switchMode prefs width height = size) :
    (∀ mMeasuredWidth mMeasuredHeight, Displayed prefs mMeasuredWidth mMeasuredHeight) ↔
      Positive size := by
  simp only [displayed_iff h, hsize]
  refine ⟨fun hall => (hall 1 1).2 getMeasured_one getMeasured_one,
    fun hpos _ _ => ⟨?_, fun _ _ => hpos⟩⟩
  cases size with
  | error e => exact hpos.elim
  | ok size => exact ⟨size, rfl⟩

/-- A scale that always shows something is from 1 to 100. -/
theorem displayed_scaled_iff {scale : Int32} (h : WellTyped prefs)
    (hmode : displayResolutionMode.getString prefs = .ok (text "scaled"))
    (hscale : displayScale.getInt prefs = .ok scale) :
    (∀ mMeasuredWidth mMeasuredHeight, Displayed prefs mMeasuredWidth mMeasuredHeight) ↔
      1 ≤ scale ∧ scale ≤ 100 := by
  simp only [displayed_iff h, switchMode_scaled hmode hscale]
  constructor
  · intro hall
    have hpos := (hall 1 1).2 getMeasured_one getMeasured_one
    split at hpos
    case isTrue => exact hpos.elim
    case isFalse => exact scale_of_scaled_pos hpos.1
  · rintro ⟨hlow, hhigh⟩ mMeasuredWidth mMeasuredHeight
    have hne : scale ≠ 0 := by
      rintro rfl
      exact absurd hlow (by decide)
    rw [if_neg hne]
    exact ⟨⟨_, rfl⟩,
      fun hwidth hheight => ⟨scaled_pos hlow hhigh hwidth, scaled_pos hlow hhigh hheight⟩⟩

/-- **What can be displayed** in every view. -/
theorem displayable_iff (h : WellTyped prefs) :
    (∀ mMeasuredWidth mMeasuredHeight, Displayed prefs mMeasuredWidth mMeasuredHeight) ↔
      Displayable prefs := by
  obtain ⟨mode, -, hmode⟩ :
      ∃ mode ∈ displayResolutionVariants.strings,
        displayResolutionMode.getString prefs = .ok mode :=
    exists_getString_list h mem_displayResolutionMode
  have hother {name : JString} (hne : mode ≠ name) :
      displayResolutionMode.getString prefs ≠ .ok name := fun heq =>
    hne (Except.ok.inj (hmode.symm.trans heq))
  by_cases hscaled : mode = text "scaled"
  · subst hscaled
    obtain ⟨scale, hscale⟩ : ∃ scale, displayScale.getInt prefs = .ok scale :=
      exists_getInt h mem_displayScale
    rw [displayed_scaled_iff h hmode hscale]
    refine ⟨fun hfits => ⟨fun _ stored hstored => ?_, fun heq => absurd heq (hother (by simp))⟩,
        fun hfits =>
      hfits.scaled hmode scale hscale⟩
    exact Except.ok.inj (hscale.symm.trans hstored) ▸ hfits
  by_cases hexact : mode = text "exact"
  · subst hexact
    obtain ⟨resolution, hmem, hresolution⟩ :
        ∃ resolution ∈ displayResolution.strings,
            displayResolutionExact.getString prefs = .ok resolution :=
      exists_getString_list h mem_displayResolutionExact
    rw [displayed_iff_positive h fun _ _ => switchMode_exact hmode hresolution]
    refine iff_of_true (positive_displayResolution resolution hmem)
      ⟨fun heq => absurd heq (hother hscaled), fun heq => ?_⟩
    exact absurd heq (hother (by simp))
  by_cases hcustom : mode = text "custom"
  · subst hcustom
    obtain ⟨resolution, hresolution⟩ :
        ∃ resolution, displayResolutionCustom.getString prefs = .ok resolution :=
      exists_getString h mem_displayResolutionCustom
    rw [displayed_iff_positive h fun _ _ => switchMode_custom hmode hresolution,
      positive_customSize]
    refine ⟨fun hshown => ⟨fun heq => absurd heq (hother hscaled), fun _ stored hstored => ?_⟩,
        fun hfits =>
      hfits.custom hmode resolution hresolution⟩
    exact Except.ok.inj (hresolution.symm.trans hstored) ▸ hshown
  · refine iff_of_true (fun mMeasuredWidth mMeasuredHeight => ?_)
      ⟨fun heq => absurd heq (hother hscaled), fun heq => absurd heq (hother hcustom)⟩
    rw [displayed_iff h, switchMode_native hmode hscaled hexact hcustom]
    exact ⟨⟨_, rfl⟩, fun hwidth hheight => ⟨hwidth, hheight⟩⟩

/-! ## Steps -/

/-- What keeps the store that the view reads one that can be displayed. The digits of a text in the
right form are no zeros if they are in the range of an integer. The resolution in the data store can
be shown when the activity is created, and so can what an accepted request makes of the store, and
the store that is chosen when the view's preferences choose again. -/
def Keeps (supplementary : Char → Bool) (s : State) : Action → Prop
  | .onChangeResolutionText s' _ =>
    displayResolutionMode.getString s.prefs = .ok (text "custom") →
      ∀ w h, matchResolution supplementary s' = some (w, h) →
        ∀ width height, parseInt (Utf16.encode w) = some width →
          parseInt (Utf16.encode h) = some height →
          0 < width ∧ 0 < height
  | .onCreate _ =>
    ∀ resolution, general_resolution.get s.dataStore = some (.string resolution) → Shown resolution
  | .onReceive device isExternalDisplay extras =>
    recheckStoringSecondaryDisplayPreferences s.stores isExternalDisplay =
      .ok s.isSecondaryDisplayPreferences →
      Receiver.Accepts device extras → Displayable (Receiver.requested device s.prefs extras)
  | .recheck isExternalDisplay =>
    ∀ secondary, recheckStoringSecondaryDisplayPreferences s.stores isExternalDisplay =
      .ok secondary →
      Displayable (s.stores.get secondary)
  | .edited _ | .importSettings _ => True

/-- Both stores are well typed. -/
def Typed (s : State) : Prop := ∀ secondary, WellTyped (s.stores.get secondary)

section

variable {supplementary : Char → Bool} {json : SettingsFile.Kotlinx} {s s' : State} {a : Action}

theorem prefs_put (secondary : Bool) (preferences : SharedPreferences) :
    { s with stores := s.stores.put secondary preferences }.prefs =
      if s.isSecondaryDisplayPreferences = secondary then preferences else s.prefs :=
  s.stores.get_put secondary s.isSecondaryDisplayPreferences preferences

theorem typed_put {secondary : Bool} {preferences : SharedPreferences} (h : Typed s)
    (hwell : WellTyped preferences) :
    ∀ read, WellTyped ((s.stores.put secondary preferences).get read) := by
  intro read
  rw [Stores.get_put]
  split
  · exact hwell
  · exact h read

theorem wellTyped_created {resolution : JString} (h : WellTyped prefs) :
    WellTyped (created prefs resolution) := by
  refine wellTyped_put hideCutout ?_ (by simp [keys]) trivial
  refine wellTyped_put showAdditionalKbd ?_ (by simp [keys]) trivial
  refine wellTyped_put displayResolutionCustom ?_ mem_displayResolutionCustom trivial
  refine wellTyped_put displayResolutionMode h mem_displayResolutionMode ?_
  exact fits_default displayResolutionMode mem_displayResolutionMode

/-- The store that `onReceive` leaves. -/
theorem wellTyped_onReceive (device : Device) (builtIn : SharedPreferences)
    (extras : LinkedMap (Option JString) (Option JString))
    (h : WellTyped prefs) : WellTyped (Receiver.onReceive device builtIn prefs extras).2 := by
  by_cases haccepts : Receiver.Accepts device extras
  · obtain ⟨edit, hedit, hwell, -⟩ := Receiver.onReceive_of_accepts builtIn prefs haccepts
    rw [hedit]
    exact hwell h
  · rw [Receiver.onReceive_of_not_accepts haccepts]
    exact h

/-- Another store is chosen, and nothing is stored. -/
theorem recheck_cases {isExternalDisplay : Bool} (h : recheck s isExternalDisplay = some s') :
    ∃ secondary, recheckStoringSecondaryDisplayPreferences s.stores isExternalDisplay =
      .ok secondary ∧
      { s with isSecondaryDisplayPreferences := secondary } = s' := by
  unfold recheck at h
  split at h
  case h_1 secondary hsecondary => exact ⟨secondary, hsecondary, Option.some.inj h⟩
  case h_2 => cases h

/-- **Step lemma.** Every step keeps the stores well typed. -/
theorem typed_step (h : Typed s) (hstep : step supplementary json s a = some s') : Typed s' := by
  cases a with
  | onChangeResolutionText text forceFormat =>
    obtain rfl := Option.some.inj hstep
    unfold onChangeResolutionText
    split
    case h_1 formatted _ =>
      exact typed_put h
        (wellTyped_put displayResolutionCustom (h _) mem_displayResolutionCustom trivial)
    case h_2 => exact h
  | edited formatted =>
    simp only [step] at hstep
    split at hstep
    case isTrue =>
      obtain rfl := Option.some.inj hstep
      exact h
    case isFalse => cases hstep
  | importSettings file =>
    obtain rfl := Option.some.inj hstep
    exact h
  | onCreate isExternalDisplay =>
    simp only [step, onCreate] at hstep
    split at hstep
    case h_1 =>
      obtain rfl := Option.some.inj hstep
      exact typed_put h (wellTyped_created (h _))
    case h_2 => cases hstep
  | onReceive device isExternalDisplay extras =>
    obtain rfl := Option.some.inj hstep
    unfold onReceive
    split
    case h_1 => exact typed_put h (wellTyped_onReceive device _ extras (h _))
    case h_2 => exact h
  | recheck isExternalDisplay =>
    obtain ⟨secondary, -, rfl⟩ := recheck_cases hstep
    exact h

end

/-! ## What a step makes of what can be displayed -/

/-- Only three preferences matter. -/
theorem displayable_congr {other : SharedPreferences}
    (hmode : prefs displayResolutionMode.key = other displayResolutionMode.key)
    (hscale : prefs displayScale.key = other displayScale.key)
    (hcustom : prefs displayResolutionCustom.key = other displayResolutionCustom.key) :
    Displayable prefs ↔ Displayable other := by
  have hmode := Preference.getString_congr hmode
  have hscale := Preference.getInt_congr hscale
  have hcustom := Preference.getString_congr hcustom
  constructor
  · rintro ⟨hscaled, hshown⟩
    rw [hmode, hscale] at hscaled
    rw [hmode, hcustom] at hshown
    exact ⟨hscaled, hshown⟩
  · rintro ⟨hscaled, hshown⟩
    rw [← hmode, ← hscale] at hscaled
    rw [← hmode, ← hcustom] at hshown
    exact ⟨hscaled, hshown⟩

theorem getString_put_custom (resolution : JString) :
    displayResolutionCustom.getString (prefs.put displayResolutionCustom.key (.string resolution)) =
      .ok resolution := by
  have hstored :=
    prefs.put_apply displayResolutionCustom.key (.string resolution) displayResolutionCustom.key
  rw [if_pos rfl] at hstored
  rw [Preference.getString_congr (q := fun _ => some (.string resolution)) hstored]
  rfl

/-- A resolution that is stored matters in its mode. -/
theorem displayable_put_custom {resolution : JString} (h : Displayable prefs) :
    Displayable (prefs.put displayResolutionCustom.key (.string resolution)) ↔
      (displayResolutionMode.getString prefs = .ok (text "custom") → Shown resolution) := by
  have hmodeKey : displayResolutionMode.key ≠ displayResolutionCustom.key := by simp
  have hscaleKey : displayScale.key ≠ displayResolutionCustom.key := by simp
  have hmode :
      displayResolutionMode.getString (prefs.put displayResolutionCustom.key (.string resolution)) =
      displayResolutionMode.getString prefs :=
    Preference.getString_congr (by rw [SharedPreferences.put_apply, if_neg hmodeKey])
  have hscale : displayScale.getInt (prefs.put displayResolutionCustom.key (.string resolution)) =
      displayScale.getInt prefs :=
    Preference.getInt_congr (by rw [SharedPreferences.put_apply, if_neg hscaleKey])
  constructor
  · intro hput hcustom
    exact hput.custom (hmode.trans hcustom) resolution (getString_put_custom resolution)
  · intro hshown
    constructor
    · rw [hmode, hscale]
      exact h.scaled
    · rw [hmode, getString_put_custom]
      intro hcustom stored hstored
      exact Except.ok.inj hstored ▸ hshown hcustom

theorem created_apply (key resolution : JString) :
    created prefs resolution key =
      if key = hideCutout.key then some (.boolean false)
      else if key = showAdditionalKbd.key then some (.boolean false)
      else if key = displayResolutionCustom.key then some (.string resolution)
      else if key = displayResolutionMode.key then some (.string (text "custom"))
      else prefs key := by
  simp only [created, SharedPreferences.put_apply]

/-- At the start the mode is that of a custom resolution. -/
theorem displayable_created (resolution : JString) :
    Displayable (created prefs resolution) ↔ Shown resolution := by
  have hmode : displayResolutionMode.getString (created prefs resolution) =
      .ok (text "custom") := by
    rw [Preference.getString_congr (q := fun _ => some (.string (text "custom")))]
    · rfl
    · rw [created_apply, if_neg (by simp), if_neg (by simp), if_neg (by simp), if_pos rfl]
  have hcustom : displayResolutionCustom.getString (created prefs resolution) = .ok resolution := by
    rw [Preference.getString_congr (q := fun _ => some (.string resolution))]
    · rfl
    · rw [created_apply, if_neg (by simp), if_neg (by simp), if_pos rfl]
  constructor
  · exact fun h => h.custom hmode resolution hcustom
  · refine fun h => ⟨fun hscaled => ?_, fun _ stored hstored => ?_⟩
    · exact absurd (Except.ok.inj (hmode.symm.trans hscaled)) (by simp)
    · exact Except.ok.inj (hcustom.symm.trans hstored) ▸ h

/-- A request keeps the settings displayable exactly when the requested ones are. -/
theorem displayable_onReceive (device : Device) (builtIn : SharedPreferences)
    (extras : LinkedMap (Option JString) (Option JString))
    (h : Displayable prefs) :
    Displayable (Receiver.onReceive device builtIn prefs extras).2 ↔
      (Receiver.Accepts device extras → Displayable (Receiver.requested device prefs extras)) := by
  by_cases haccepts : Receiver.Accepts device extras
  · obtain ⟨edit, hedit, -, hkeys⟩ := Receiver.onReceive_of_accepts builtIn prefs haccepts
    rw [hedit, displayable_congr (hkeys displayResolutionMode.key (by simp))
      (hkeys displayScale.key (by simp)) (hkeys displayResolutionCustom.key (by simp))]
    exact ⟨fun hrequested _ => hrequested, fun hrequested => hrequested haccepts⟩
  · rw [Receiver.onReceive_of_not_accepts haccepts]
    exact iff_of_true h fun hisAccepted => absurd hisAccepted haccepts

theorem shown_defaultResolution : Shown defaultResolution := by
  decide +kernel

section

variable {supplementary : Char → Bool} {json : SettingsFile.Kotlinx} {s : State} {a : Action}

/-- The condition on an edit of the text, in terms of what it leaves. -/
theorem keeps_onChangeResolutionText {s' : JString} {forceFormat : Bool} (h : Displayable s.prefs) :
    Keeps supplementary s (.onChangeResolutionText s' forceFormat) ↔
      Displayable (onChangeResolutionText supplementary s s' forceFormat).prefs := by
  simp only [Keeps, onChangeResolutionText, saved, formatResolution]
  cases hmatch : matchResolution supplementary s' with
  | some size =>
    obtain ⟨w, h⟩ := size
    show _ ↔ Displayable { s with stores := s.stores.put _ _ }.prefs
    rw [prefs_put, if_pos rfl, displayable_put_custom ‹_›, shown_format hmatch]
    simp
  | none =>
    cases forceFormat with
    | false => exact iff_of_true (fun _ _ _ hnone => nomatch hnone) h
    | true =>
      show _ ↔ Displayable { s with stores := s.stores.put _ _ }.prefs
      rw [prefs_put, if_pos rfl, displayable_put_custom h]
      exact iff_of_true (fun _ _ _ hnone => nomatch hnone) fun _ => shown_defaultResolution

/-- In well-typed stores the recheck succeeds. -/
theorem exists_recheck (h : Typed s) (isExternalDisplay : Bool) :
    ∃ secondary, recheckStoringSecondaryDisplayPreferences s.stores isExternalDisplay =
      .ok secondary := by
  obtain ⟨separately, hseparately⟩ :
      ∃ separately,
        storeSecondaryDisplayPreferencesSeparately.getBoolean s.stores.builtInDisplayPreferences =
        .ok separately :=
          exists_getBoolean (h false)
            (show storeSecondaryDisplayPreferencesSeparately ∈ keys by simp [keys])
  exact ⟨separately && isExternalDisplay, congrArg (Except.map _) hseparately⟩

/-- The condition on a creation, in terms of what it leaves. -/
theorem keeps_onCreate (htyped : Typed s) (isExternalDisplay : Bool) :
    Keeps supplementary s (.onCreate isExternalDisplay) ↔
      ∀ s', onCreate s isExternalDisplay = some s' → Displayable s'.prefs := by
  obtain ⟨secondary, hsecondary⟩ := exists_recheck htyped isExternalDisplay
  simp only [Keeps, onCreate, hsecondary]
  split
  case h_1 resolution hok hresolution =>
    obtain rfl := Except.ok.inj hok
    have hprefs : { s with
        stores := s.stores.put secondary (created (s.stores.get secondary) resolution)
        isSecondaryDisplayPreferences :=
            secondary }.prefs = created (s.stores.get secondary) resolution := by
      show (s.stores.put secondary _).get secondary = _
      rw [Stores.get_put, if_pos rfl]
    simp only [hresolution, Option.some.injEq, SettingsFile.PrefValue.string.injEq, forall_eq']
    rw [hprefs, displayable_created]
  case h_2 hnone =>
    refine iff_of_true (fun resolution hresolution => ?_) fun s' heq => nomatch heq
    exact absurd hresolution (hnone secondary resolution rfl)

/-- The condition on a request, in terms of what it leaves. -/
theorem keeps_onReceive (htyped : Typed s) (h : Displayable s.prefs) (device : Device)
    (isExternalDisplay : Bool)
    (extras : LinkedMap (Option JString) (Option JString)) :
    Keeps supplementary s (.onReceive device isExternalDisplay extras) ↔
      Displayable (onReceive s device isExternalDisplay extras).prefs := by
  obtain ⟨secondary, hsecondary⟩ := exists_recheck htyped isExternalDisplay
  simp only [Keeps, onReceive, hsecondary, Except.ok.injEq]
  rw [prefs_put]
  by_cases hsame : s.isSecondaryDisplayPreferences = secondary
  · subst hsame
    rw [if_pos rfl]
    simp only [forall_const]
    exact (displayable_onReceive device _ extras h).symm
  · rw [if_neg hsame]
    exact iff_of_true (fun heq => absurd heq.symm hsame) h

/-- The condition on a recheck, in terms of what it leaves. -/
theorem keeps_recheck (isExternalDisplay : Bool) :
    Keeps supplementary s (.recheck isExternalDisplay) ↔
      ∀ s', recheck s isExternalDisplay = some s' → Displayable s'.prefs := by
  constructor
  · intro hkeeps s' hrecheck
    obtain ⟨secondary, hsecondary, rfl⟩ := recheck_cases hrecheck
    exact hkeeps secondary hsecondary
  · intro hnext secondary hsecondary
    refine hnext { s with isSecondaryDisplayPreferences := secondary } ?_
    rw [recheck, hsecondary]

/-- The next store that the view reads can be displayed exactly if the step keeps it so. -/
theorem keeps_step (json : SettingsFile.Kotlinx) (htyped : Typed s) (h : Displayable s.prefs) :
    Keeps supplementary s a ↔ ∀ s', step supplementary json s a = some s' →
      Displayable s'.prefs := by
  cases a with
  | onChangeResolutionText text forceFormat =>
    rw [keeps_onChangeResolutionText h]
    simp [step]
  | edited formatted =>
    refine iff_of_true trivial fun s' hstep => ?_
    simp only [step] at hstep
    split at hstep
    case isTrue =>
      obtain rfl := Option.some.inj hstep
      exact h
    case isFalse => cases hstep
  | importSettings file =>
    refine iff_of_true trivial fun s' hstep => ?_
    obtain rfl := Option.some.inj hstep
    exact h
  | onCreate isExternalDisplay => exact keeps_onCreate htyped isExternalDisplay
  | onReceive device isExternalDisplay extras =>
    rw [keeps_onReceive htyped h]
    simp [step]
  | recheck isExternalDisplay => exact keeps_recheck isExternalDisplay

theorem typed_start : Typed start := fun secondary _ _ _ hstored => by
  cases secondary <;> cases hstored

theorem displayable_start : Displayable start.prefs := by
  refine ⟨fun hscaled => absurd (Except.ok.inj hscaled) (by simp),
    fun _ resolution hresolution => ?_⟩
  obtain rfl := Except.ok.inj hresolution
  decide +kernel

/-- **Every stored resolution can be displayed** exactly as long as every step keeps it so, a choice
of the store among them. -/
theorem displayed_iff_keeps (as : List Action) :
    (∀ bs s, bs <+: as → run (step supplementary json) start bs = some s →
        ∀ mMeasuredWidth mMeasuredHeight, Displayed s.prefs mMeasuredWidth mMeasuredHeight) ↔
      Meets (step supplementary json) (Keeps supplementary) start as := by
  refine always_iff typed_step (fun htyped hdisplayed => ?_) typed_start
    ((displayable_iff (typed_start _)).mpr displayable_start) as
  rw [keeps_step json htyped ((displayable_iff (htyped _)).mp hdisplayed)]
  exact forall_congr' fun s' => forall_congr' fun hstep =>
    (displayable_iff (typed_step htyped hstep _)).symm

end

/-- A width without a height, and a start. -/
def widthOnly : List Action :=
  [.importSettings "\x7b\"general_resolution\":\"1280\"\x7d".toList, .onCreate false]

theorem widthOnly_not_displayed :
    ¬∀ as s, run (step (fun _ => false) SettingsFile.flatJson) start as = some s →
      ∀ mMeasuredWidth mMeasuredHeight, Displayed s.prefs mMeasuredWidth mMeasuredHeight := by
  intro hall
  have hthrown : (run (step (fun _ => false) SettingsFile.flatJson) start widthOnly).map
      (fun s => getDimensionsFromSettings s.prefs 1080 1920) =
          some (.error (.arrayIndexOutOfBounds 1 1)) := by
    decide +kernel
  obtain ⟨s, hrun, hsize⟩ := Option.map_eq_some_iff.mp hthrown
  obtain ⟨w, h, hok, -⟩ := hall widthOnly s hrun 1080 1920
  exact absurd (hsize.symm.trans hok) nofun

end WinEmulator.X11.DisplaySettings
