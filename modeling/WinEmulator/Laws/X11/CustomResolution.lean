import WinEmulator.Laws.X11.DisplaySettings
import WinEmulator.X11.WindowChange

/-!
# Which custom resolutions arrive

A text of two numbers is taken with any digits and of any length. Numbers with digits beyond the
Basic Multilingual Plane, or too large for an `int`, are read as the resolution to fall back to, and
the event keeps the low sixteen bits.
-/

set_option autoImplicit false

namespace WinEmulator.X11.WindowChange

open WinEmulator.Lib
open WinEmulator.Lib.JavaString (JString text parseInt parseDigits digit)
open WinEmulator.Lorie
open WinEmulator.X11.DisplaySettings
open WinEmulator.X11.LoriePreferences

/-- The value of a digit, of one beyond the Basic Multilingual Plane as Unicode says. -/
def digitValue (supplementary : Char → Option Nat) (c : Char) : Option Nat :=
  if Utf16.Plain c then digit (unit c) else supplementary c

/-- The number that digits are. -/
def number (supplementary : Char → Option Nat) (cs : List Char) : Nat :=
  cs.foldl (fun n c => 10 * n + (digitValue supplementary c).getD 0) 0

/-- A size is given to `lorieConfigureNotify` as it is. -/
def Arrives (W H : Nat) (configured : Except Thrown (Option Configure)) : Prop :=
  ∃ c, configured = .ok (some c) ∧ c.width.toInt = W ∧ c.height.toInt = H

/-- `parseInt` reads the number. -/
def Read (supplementary : Char → Option Nat) (cs : List Char) : Prop :=
  (∀ c ∈ cs, Utf16.Plain c) ∧ number supplementary cs < 2 ^ 31

/-- The number is read, and the event has room for it. -/
def Wired (supplementary : Char → Option Nat) (cs : List Char) : Prop :=
  (∀ c ∈ cs, Utf16.Plain c) ∧ number supplementary cs < 2 ^ 16

instance (supplementary : Char → Option Nat) (cs : List Char) :
    Decidable (Wired supplementary cs) :=
  @instDecidableAnd _ _ (List.decidableBAll _ cs) (Nat.decLt _ _)

theorem Wired.read {supplementary : Char → Option Nat} {cs : List Char}
    (h : Wired supplementary cs) :
    Read supplementary cs := ⟨h.1, lt_trans h.2 (by decide)⟩

section

variable {supplementary : Char → Option Nat} {cs w h : List Char} {n : Int32}

/-! ## Numbers -/

theorem isDigit_eq (supplementary : Char → Option Nat) (c : Char) :
    isDigit (fun c => (supplementary c).isSome) c = (digitValue supplementary c).isSome := by
  unfold isDigit digitValue
  split
  · rfl
  · rfl

/-- A surrogate is no digit. -/
theorem digit_surrogate {u : Utf16.Unit16} (hlow : 0xD800 ≤ u.toNat) (hhigh : u.toNat < 0xE000) :
    digit u = none := by
  have hzeros : ∀ first ∈ JavaString.zeros, first + 10 ≤ 0xD800 ∨ 0xE000 ≤ first := by decide
  rw [digit, Option.map_eq_none_iff, List.find?_eq_none]
  intro first hfirst
  rw [decide_eq_true_eq]
  have := hzeros first hfirst
  omega

theorem foldl_none (us : JString) :
    us.foldl (fun n u => n.bind fun n => (digit u).map (10 * n + ·)) none =
      (none : Option Nat) := by
  induction us with
  | nil => rfl
  | cons u us ih => rw [List.foldl_cons, Option.bind_none, ih]

/-- Reading the units of plain digits gives the number. -/
theorem foldl_encode (hdigits : ∀ c ∈ cs, (digitValue supplementary c).isSome)
    (hplain : ∀ c ∈ cs, Utf16.Plain c) (n : Nat) :
    (Utf16.encode cs).foldl (fun n u => n.bind fun n => (digit u).map (10 * n + ·)) (some n) =
      some (cs.foldl (fun n c => 10 * n + (digitValue supplementary c).getD 0) n) := by
  induction cs generalizing n with
  | nil => rfl
  | cons c cs ih =>
    have hc := hplain c List.mem_cons_self
    obtain ⟨d, hd⟩ := Option.isSome_iff_exists.mp (hdigits c List.mem_cons_self)
    have hunit : digit (UInt16.ofNat c.toNat) = some d := by
      rw [digitValue, if_pos hc] at hd
      exact hd
    rw [Utf16.encode_cons, Utf16.encodeChar, if_pos hc, List.singleton_append, List.foldl_cons,
      Option.bind_some, hunit,
      Option.map_some, ih (fun c hmem => hdigits c (List.mem_cons_of_mem _ hmem))
        (fun c hmem => hplain c (List.mem_cons_of_mem _ hmem)), List.foldl_cons, hd,
          Option.getD_some]

/-- A digit of two units is not read. -/
theorem foldl_encode_none (hplain : ¬∀ c ∈ cs, Utf16.Plain c) (n : Option Nat) :
    (Utf16.encode cs).foldl (fun n u => n.bind fun n => (digit u).map (10 * n + ·)) n = none := by
  induction cs generalizing n with
  | nil => exact absurd (fun c hmem => absurd hmem List.not_mem_nil) hplain
  | cons c cs ih =>
    rw [Utf16.encode_cons, List.foldl_append]
    by_cases hc : Utf16.Plain c
    · refine ih (fun hall => hplain fun d hd => ?_) _
      rcases List.mem_cons.mp hd with rfl | hmem
      · exact hc
      · exact hall d hmem
    · have hge : 0x10000 ≤ c.toNat := Nat.le_of_not_lt hc
      have hvalid := Utf16.toNat_valid c
      have hfirst : digit (UInt16.ofNat (0xD800 + (c.toNat - 0x10000) / 0x400)) = none := by
        have hnat :
            (UInt16.ofNat (0xD800 + (c.toNat - 0x10000) / 0x400)).toNat =
              0xD800 + (c.toNat - 0x10000) / 0x400 :=
          UInt16.toNat_ofNat_of_lt' (by show _ < 65536; omega)
        exact digit_surrogate (by omega) (by omega)
      rw [Utf16.encodeChar, if_neg hc, List.foldl_cons, hfirst]
      have hnone : (n.bind fun n => (none : Option Nat).map (10 * n + ·)) = none := by
        cases n with
        | none => rfl
        | some n => rfl
      rw [hnone, foldl_none, foldl_none]

/-- Digits are a number of their own if each is one unit. -/
theorem parseDigits_encode (hne : cs ≠ []) (hdigits : ∀ c ∈ cs, (digitValue supplementary c).isSome)
    (hplain : ∀ c ∈ cs, Utf16.Plain c) :
    parseDigits (Utf16.encode cs) = some (number supplementary cs) := by
  have hvalue := foldl_encode hdigits hplain 0
  cases hunits : Utf16.encode cs with
  | nil => exact absurd (Utf16.encode_eq_nil.mp hunits) hne
  | cons u us =>
    rw [hunits] at hvalue
    exact hvalue

theorem parseDigits_encode_none (hplain : ¬∀ c ∈ cs, Utf16.Plain c) :
    parseDigits (Utf16.encode cs) = none := by
  have hvalue := foldl_encode_none hplain (some 0)
  cases hunits : Utf16.encode cs with
  | nil => rfl
  | cons u us =>
    rw [hunits] at hvalue
    exact hvalue

/-- The first unit of digits is no sign. -/
theorem sign_ne (hdigits : ∀ c ∈ cs, (digitValue supplementary c).isSome) {u : Utf16.Unit16}
    {us : JString}
    (hunits : Utf16.encode cs = u :: us) : u ≠ 0x2D ∧ u ≠ 0x2B := by
  have hfirst (sign : Utf16.Unit16) (hlow : sign.toNat < 0xD800) (hsign : digit sign = none) :
      u ≠ sign := by
    rintro rfl
    obtain ⟨c, hc, hplain, rfl⟩ := Utf16.of_mem_encode hlow (hunits ▸ List.mem_cons_self)
    have hdigit := hdigits c hc
    rw [digitValue, if_pos hplain, unit, hsign] at hdigit
    cases hdigit
  exact ⟨hfirst 0x2D (by decide) (by decide), hfirst 0x2B (by decide) (by decide)⟩

/-- A number without a sign. -/
theorem parseInt_encode (hdigits : ∀ c ∈ cs, (digitValue supplementary c).isSome) :
    parseInt (Utf16.encode cs) =
      ((parseDigits (Utf16.encode cs)).filter fun n => n < 2 ^ 31).map Int32.ofNat := by
  have hrange (n : Nat) :
      ((some (n : Int)).filter fun n => -2 ^ 31 ≤ n ∧ n < 2 ^ 31).map Int32.ofInt =
      ((some n).filter fun n => n < 2 ^ 31).map Int32.ofNat := by
    rw [Option.filter_some, Option.filter_some]
    by_cases hn : n < 2 ^ 31
    · rw [if_pos (decide_eq_true ⟨by omega, by omega⟩), if_pos (decide_eq_true hn), Option.map_some,
        Option.map_some]
      rfl
    · rw [if_neg (by simp; omega), if_neg (by simp; omega)]
      rfl
  cases hunits : Utf16.encode cs with
  | nil => rfl
  | cons u us =>
    obtain ⟨hminus, hplus⟩ := sign_ne hdigits hunits
    simp only [parseInt, if_neg hminus, if_neg hplus]
    cases parseDigits (u :: us) with
    | none => rfl
    | some n => exact hrange n

/-- The numbers that are read. -/
theorem parseInt_eq_some (hne : cs ≠ []) (hdigits : ∀ c ∈ cs, (digitValue supplementary c).isSome)
    (h : Read supplementary cs) :
    parseInt (Utf16.encode cs) = some (Int32.ofNat (number supplementary cs)) := by
  rw [parseInt_encode hdigits, parseDigits_encode hne hdigits h.1, Option.filter_some,
    if_pos (decide_eq_true h.2),
    Option.map_some]

/-- The digits that are not read as a number. -/
theorem parseInt_eq_none (hne : cs ≠ []) (hdigits : ∀ c ∈ cs, (digitValue supplementary c).isSome)
    (h : ¬Read supplementary cs) : parseInt (Utf16.encode cs) = none := by
  rw [parseInt_encode hdigits]
  by_cases hplain : ∀ c ∈ cs, Utf16.Plain c
  · rw [parseDigits_encode hne hdigits hplain, Option.filter_some,
      if_neg (by simpa using fun hlt => h ⟨hplain, hlt⟩)]
    rfl
  · rw [parseDigits_encode_none hplain]
    rfl

/-! ## The size -/

/-- The size is read from the parts on both sides of the `x`. -/
theorem customSize_of_parts (hsplit : JavaString.split (Utf16.encode (w ++ 'x' :: h)) (unit 'x') =
    [Utf16.encode w, Utf16.encode h]) : customSize (Utf16.encode (w ++ 'x' :: h)) =
      match parseInt (Utf16.encode w), parseInt (Utf16.encode h) with
      | some width, some height => .ok (width, height)
      | _, _ => .ok (1280, 1024) := by
  unfold customSize parseResolution
  rw [hsplit]
  cases hw : parseInt (Utf16.encode w) with
  | none => simp [hw, Except.bind, pure, Except.pure]
  | some width =>
    cases hh : parseInt (Utf16.encode h) with
    | none => simp [hw, hh, Except.bind, Except.map, pure, Except.pure]
    | some height => simp [hw, hh, Except.bind, Except.map]

/-- The event keeps sixteen bits. -/
theorem toNat_toUInt16_ofNat (n : Nat) : (toUInt16 (Int32.ofNat n)).toNat = n % 2 ^ 16 := by
  have hnat : (Int32.ofNat n).toUInt32.toNat = n % 2 ^ 32 := rfl
  rw [toUInt16, UInt32.toNat_toUInt16, hnat]
  exact Nat.mod_mod_of_dvd n (by decide)

theorem toInt_wire (n : Nat) :
    (Int32.ofNat (toUInt16 (Int32.ofNat n)).toNat).toInt = (n % 2 ^ 16 : Nat) := by
  rw [toNat_toUInt16_ofNat, Int32.toInt_ofNat_of_lt (by omega)]

variable {android_to_linux_keycode : Int32 → Int32} {junk : LorieEvent} {framerate : Int32}
  {name : JStringUTF}

/-- The X server reads the members of the event. -/
theorem received_changed (android_to_linux_keycode : Int32 → Int32) (junk : LorieEvent)
    (framerate : Int32)
    (name : JStringUTF) (c : Changed) :
    ∃ name', received android_to_linux_keycode junk (changed framerate name c) =
      some (sendConfigureNotify
        ⟨toUInt16 c.screenWidth, toUInt16 c.screenHeight, toUInt16 framerate,
        nameSize (windowName c.screenWidth c.screenHeight (some name))⟩ name') := by
  rw [received, changed, ActivityMessage.event, Option.bind_some, handleScreenSize, route,
    LorieEvent.type_ofScreenSize,
    EventType.ofCode_code]
  simp only [LorieEvent.screenSize_ofScreenSize]
  by_cases hname : nameSize (windowName c.screenWidth c.screenHeight (some name)) = 0
  · rw [if_pos hname]
    exact ⟨[], rfl⟩
  · rw [if_neg hname]
    exact ⟨_, rfl⟩

variable {prefs : SharedPreferences} {mMeasuredWidth mMeasuredHeight : UInt32}
  {resolution : JString}

/-- What is stored in the mode `custom` is what the display has. -/
theorem getDimensions_custom (mMeasuredWidth mMeasuredHeight : UInt32)
    (hmode : displayResolutionMode.getString prefs = .ok (text "custom"))
    (hcustom : displayResolutionCustom.getString prefs = .ok resolution)
    (hadjust : adjustResolution.getBoolean prefs = .ok false) :
    getDimensionsFromSettings prefs mMeasuredWidth mMeasuredHeight = customSize resolution := by
  rw [getDimensionsFromSettings, switchMode_custom hmode hcustom, hadjust]
  cases customSize resolution with
  | error e => rfl
  | ok size => rfl

/-- The number of a size that is read and sent. -/
theorem arrives_ofNat {width height : Int32} {W H W' H' : Nat} (hwidth : width = Int32.ofNat W')
    (hheight : height = Int32.ofNat H')
    (hsize : getDimensionsFromSettings prefs mMeasuredWidth mMeasuredHeight = .ok (width, height)) :
    Arrives W H (configured android_to_linux_keycode junk prefs mMeasuredWidth mMeasuredHeight
      framerate name) ↔
      W' % 2 ^ 16 = W ∧ H' % 2 ^ 16 = H := by
  subst hwidth hheight
  obtain ⟨name', hname⟩ := received_changed android_to_linux_keycode junk framerate name
    ⟨getMeasured mMeasuredWidth, getMeasured mMeasuredHeight, Int32.ofNat W', Int32.ofNat H'⟩
  rw [Arrives, configured, surfaceChanged, hsize, Except.map, Except.map, hname]
  constructor
  · rintro ⟨c, hc, hcw, hch⟩
    obtain rfl := Option.some.inj (Except.ok.inj hc)
    exact ⟨Int.ofNat_inj.mp ((toInt_wire W').symm.trans hcw),
      Int.ofNat_inj.mp ((toInt_wire H').symm.trans hch)⟩
  · rintro ⟨hw, hh⟩
    exact ⟨_, rfl, (toInt_wire W').trans (congrArg Int.ofNat hw),
      (toInt_wire H').trans (congrArg Int.ofNat hh)⟩

/-- **A custom resolution arrives** if its numbers are read and fit into the event, or are what is
fallen back to. -/
theorem arrives_iff {s formatted : JString}
    (hmatch : matchResolution (fun c => (supplementary c).isSome) s = some (w, h))
    (hformat : formatResolution (fun c => (supplementary c).isSome) s = some formatted)
    (hmode : displayResolutionMode.getString prefs = .ok (text "custom"))
    (hcustom : displayResolutionCustom.getString prefs = .ok formatted)
    (hadjust : adjustResolution.getBoolean prefs = .ok false) :
    Arrives (number supplementary w) (number supplementary h)
        (configured android_to_linux_keycode junk prefs mMeasuredWidth mMeasuredHeight
          framerate name) ↔
      (Wired supplementary w ∧ Wired supplementary h) ∨
        (number supplementary w = 1280 ∧ number supplementary h = 1024) := by
  rw [formatResolution, hmatch] at hformat
  obtain rfl := Option.some.inj hformat
  obtain ⟨hw, hh, hnew, hneh⟩ := of_matchResolution hmatch
  have hdigits {cs : List Char}
    (hcs : ∀ c ∈ cs, isDigit (fun c => (supplementary c).isSome) c = true) :
      ∀ c ∈ cs, (digitValue supplementary c).isSome :=
        fun c hc => isDigit_eq supplementary c ▸ hcs c hc
  have hsize := getDimensions_custom mMeasuredWidth mMeasuredHeight hmode hcustom hadjust
  rw [customSize_of_parts (split_format hmatch)] at hsize
  by_cases hread : Read supplementary w ∧ Read supplementary h
  · obtain ⟨hreadw, hreadh⟩ := hread
    rw [parseInt_eq_some hnew (hdigits hw) hreadw, parseInt_eq_some hneh (hdigits hh) hreadh]
      at hsize
    rw [arrives_ofNat rfl rfl hsize]
    constructor
    · rintro ⟨hmodw, hmodh⟩
      exact .inl ⟨⟨hreadw.1, by omega⟩, hreadh.1, by omega⟩
    · rintro (⟨⟨-, hw⟩, -, hh⟩ | ⟨hw, hh⟩)
      · exact ⟨Nat.mod_eq_of_lt hw, Nat.mod_eq_of_lt hh⟩
      · exact ⟨Nat.mod_eq_of_lt (by omega), Nat.mod_eq_of_lt (by omega)⟩
  · -- one of the two is not read
    have hfallback :
        getDimensionsFromSettings prefs mMeasuredWidth mMeasuredHeight = .ok (1280, 1024) := by
      rw [hsize]
      rcases not_and_or.mp hread with hnot | hnot
      · rw [parseInt_eq_none hnew (hdigits hw) hnot]
      · rw [parseInt_eq_none hneh (hdigits hh) hnot]
        cases parseInt (Utf16.encode w) with
        | none => rfl
        | some width => rfl
    rw [arrives_ofNat (show (1280 : Int32) = Int32.ofNat 1280 from rfl)
      (show (1024 : Int32) = Int32.ofNat 1024 from rfl) hfallback]
    constructor
    · rintro ⟨hw, hh⟩
      exact .inr ⟨hw.symm, hh.symm⟩
    · rintro (⟨hw, hh⟩ | ⟨hw, hh⟩)
      · exact absurd ⟨hw.read, hh.read⟩ hread
      · exact ⟨hw.symm, hh.symm⟩

end

def zeroed : LorieEvent := ⟨List.replicate sizeofLorieEvent 0, List.length_replicate⟩

/-- Digits that are no ASCII are read too. -/
theorem arrives_fullHd :
    Arrives (number (fun _ => none) "１９２０".toList) (number (fun _ => none) "1080".toList)
    (configured (fun _ => 0) zeroed (withResolution "１９２０x1080") 1000 2000 60 ⟨[], by decide⟩) := by
  let supplementary : Char → Option Nat := fun _ => none
  have hmatch : matchResolution (fun c => (supplementary c).isSome) (text " １９２０*1080") =
      some ("１９２０".toList, "1080".toList) := by decide +kernel
  have hformat : formatResolution (fun c => (supplementary c).isSome) (text " １９２０*1080") =
      some (text "１９２０x1080") := by decide +kernel
  exact (arrives_iff hmatch hformat (by decide) (by decide) (by decide)).mpr
    (.inl ⟨by decide, by decide⟩)

/-- The event keeps 4464 of 70000. -/
theorem not_arrives_70000 :
    matchResolution (fun _ => false) (text "70000x1080") = some ("70000".toList, "1080".toList) ∧
      formatResolution (fun _ => false) (text "70000x1080") = some (text "70000x1080") ∧
        ¬Arrives (number (fun _ => none) "70000".toList) (number (fun _ => none) "1080".toList)
          (configured (fun _ => 0) zeroed (withResolution "70000x1080") 1000 2000 60
            ⟨[], by decide⟩) := by
  refine ⟨by decide +kernel, by decide +kernel, ?_⟩
  have hsize :
      getDimensionsFromSettings (withResolution "70000x1080") 1000 2000 =
        .ok (Int32.ofNat 70000, Int32.ofNat 1080) := by
    decide +kernel
  rw [arrives_ofNat rfl rfl hsize]
  decide

end WinEmulator.X11.WindowChange
