import Mathlib.Algebra.Group.Nat.Defs
import WinEmulator.App.SettingsFile
import WinEmulator.Lib.Machine
import WinEmulator.X11.LoriePreferences

/-!
# From the stored resolution to the size of the display

`getDimensionsFromSettings` of `LorieView.java` makes a size of what is stored and of the size of
the view. What is stored comes from the settings of the app, as text that `onChangeResolutionText`
of `SettingViewModel.kt` takes or as a file that is imported and read at the next start (`onCreate`
of `MainEmuActivity.kt`), and from requests to change a preference.

An edit of the data store that is launched comes at some later time. The preferences of the view
choose their store when the activity is created, and again with each broadcast that the activity
receives and with each change of the window focus. The receiver of requests sends such a broadcast
for every extra that it accepts, which is delivered at some later time, and has preferences of its
own, which choose their store at each request.
-/

set_option autoImplicit false

namespace WinEmulator.X11.DisplaySettings

open WinEmulator.Lib
open WinEmulator.Lib.JavaString (JString text)
open WinEmulator.App
open WinEmulator.App.SettingsFile (general_resolution)
open WinEmulator.X11.LoriePreferences

/-! ## `LorieView.java` -/

/-- `getMeasuredWidth` and `getMeasuredHeight`, which leave out the bits of the state. -/
def getMeasured (mMeasured : UInt32) : Int32 := Int32.ofNat (mMeasured &&& 0x00FFFFFF).toNat

def divide (n scale : Int32) : Except Thrown Int32 :=
  if scale = 0 then .error .arithmetic else .ok (n / scale)

/-- The size before it is fitted to the orientation. -/
def switchMode (prefs : SharedPreferences) (width height : Int32) : Except Thrown (Int32 × Int32) :=
    do
  let mode ← displayResolutionMode.getString prefs
  if mode = text "scaled" then do
    let scale ← displayScale.getInt prefs
    let w ← divide (width * 100) scale
    let h ← divide (height * 100) scale
    pure (w, h)
  else if mode = text "exact" then do
    parseResolution (← displayResolutionExact.getString prefs)
  else if mode = text "custom" then do
    match parseResolution (← displayResolutionCustom.getString prefs) with
    | .error (.numberFormat _) => pure (1280, 1024)
    | resolution => resolution
  else pure (width, height)

/-- What `p` is set to. -/
def getDimensionsFromSettings (prefs : SharedPreferences)
    (mMeasuredWidth mMeasuredHeight : UInt32) :
    Except Thrown (Int32 × Int32) := do
  let width := getMeasured mMeasuredWidth
  let height := getMeasured mMeasuredHeight
  let (w, h) ← switchMode prefs width height
  let adjust ← adjustResolution.getBoolean prefs
  if adjust ∧ ((width < height ∧ w > h) ∨ (width > height ∧ w < h)) then pure (h, w)
  else pure (w, h)

/-! ## `SettingViewModel.kt` -/

/-- `\d`, with the digits beyond the Basic Multilingual Plane, of which new versions of Unicode have
more. -/
def isDigit (supplementary : Char → Bool) (c : Char) : Bool :=
  if Utf16.Plain c then (JavaString.digit (unit c)).isSome else supplementary c

/-- The width and the height in the text of a resolution. -/
def matchResolution (supplementary : Char → Bool) (s : JString) : Option (List Char × List Char) :=
  let cs := trim (Utf16.decode s)
  let w := cs.takeWhile (isDigit supplementary)
  let rest := cs.dropWhile (isDigit supplementary)
  let between := rest.takeWhile fun c => !isDigit supplementary c
  let h := rest.dropWhile fun c => !isDigit supplementary c
  if w ≠ [] ∧ between ≠ [] ∧ h ≠ [] ∧ h.all (isDigit supplementary) = true then some (w, h)
  else none

def formatResolution (supplementary : Char → Bool) (s : JString) : Option JString :=
  (matchResolution supplementary s).map fun (w, h) => Utf16.encode (w ++ 'x' :: h)

/-- `Pref.general_resolution.default`. -/
def defaultResolution : JString :=
  match general_resolution.default with
  | .string value => value
  | _ => []

/-- What is saved of a text. -/
def saved (supplementary : Char → Bool) (s : JString) (forceFormat : Bool) : Option JString :=
  match formatResolution supplementary s with
  | some formatted => some formatted
  | none => if forceFormat then some defaultResolution else none

/-! ## The app -/

structure State where
  dataStore : SettingsFile.Preferences
  /-- The edits of `general_resolution` that were launched. -/
  pending : List JString
  stores : Stores
  isSecondaryDisplayPreferences : Bool

/-- The store of `MainActivity.prefs`. -/
def State.prefs (s : State) : SharedPreferences := s.stores.get s.isSecondaryDisplayPreferences

inductive Action
  | onChangeResolutionText (s : JString) (forceFormat : Bool)
  | edited (formatted : JString)
  | importSettings (file : Text)
  | onCreate (isExternalDisplay : Bool)
  | onReceive (device : Device) (isExternalDisplay : Bool)
      (extras : LinkedMap (Option JString) (Option JString))
  /-- `MainActivity` receives a broadcast, or its window gains or loses the focus. -/
  | recheck (isExternalDisplay : Bool)

section

variable (supplementary : Char → Bool) (json : SettingsFile.Kotlinx)

def onChangeResolutionText (s : State) (text : JString) (forceFormat : Bool) : State :=
  match saved supplementary text forceFormat with
  | some formatted =>
    { s with
      pending := s.pending ++ [formatted]
      stores := s.stores.put s.isSecondaryDisplayPreferences
        (s.prefs.put displayResolutionCustom.key (.string formatted)) }
  | none => s

/-- What `onCreate` puts. -/
def created (prefs : SharedPreferences) (resolution : JString) : SharedPreferences :=
  (((prefs.put displayResolutionMode.key (.string (text "custom"))).put displayResolutionCustom.key
    (.string resolution)).put showAdditionalKbd.key (.boolean false)).put hideCutout.key
      (.boolean false)

/-- None if an exception ends the app. -/
def onCreate (s : State) (isExternalDisplay : Bool) : Option State :=
  match recheckStoringSecondaryDisplayPreferences s.stores isExternalDisplay,
    general_resolution.get s.dataStore with
  | .ok secondary, some (.string resolution) =>
    some { s with
      stores := s.stores.put secondary (created (s.stores.get secondary) resolution)
      isSecondaryDisplayPreferences := secondary }
  | _, _ => none

def onReceive (s : State) (device : Device) (isExternalDisplay : Bool)
    (extras : LinkedMap (Option JString) (Option JString)) : State :=
  match recheckStoringSecondaryDisplayPreferences s.stores isExternalDisplay with
  | .ok secondary =>
    { s with
      stores := s.stores.put secondary
        (Receiver.onReceive device s.stores.builtInDisplayPreferences
          (s.stores.get secondary) extras).2 }
  | .error _ => s

/-- `MainActivity.prefs` chooses its store again; none if an exception ends the app. -/
def recheck (s : State) (isExternalDisplay : Bool) : Option State :=
  match recheckStoringSecondaryDisplayPreferences s.stores isExternalDisplay with
  | .ok secondary => some { s with isSecondaryDisplayPreferences := secondary }
  | .error _ => none

def step (s : State) : Action → Option State
  | .onChangeResolutionText text forceFormat =>
    some (onChangeResolutionText supplementary s text forceFormat)
  | .edited formatted =>
    if formatted ∈ s.pending then
      some { s with
        dataStore := Function.update s.dataStore general_resolution.name (some (.string formatted))
        pending := s.pending.erase formatted }
    else none
  | .importSettings file =>
    some { s with dataStore := SettingsFile.importSettings json file s.dataStore }
  | .onCreate isExternalDisplay => onCreate s isExternalDisplay
  | .onReceive device isExternalDisplay extras => some (onReceive s device isExternalDisplay extras)
  | .recheck isExternalDisplay => recheck s isExternalDisplay

end

/-- Nothing was stored yet. -/
def start : State where
  dataStore _ := none
  pending := []
  stores := ⟨fun _ => none, fun _ => none⟩
  isSecondaryDisplayPreferences := false

end WinEmulator.X11.DisplaySettings

/-! ## The size of the view

`onMeasure` of `LorieView.java` gives the view the shape of the display, in the size it was measured
with. In the modes that take the size of the layout, and for a display without an area, it sets
nothing. -/

namespace WinEmulator.X11.OnMeasure

open WinEmulator.Lib.JavaString (text)
open WinEmulator.X11.DisplaySettings
open WinEmulator.X11.LoriePreferences

def displayStretch : Preference := .boolean (text "displayStretch") false

/-- What `setFixedSize` and `setMeasuredDimension` are called with. -/
structure Measured where
  x : Int32
  y : Int32
  width : Int32
  height : Int32
deriving DecidableEq

/-- The height and the width change places, to be like the view. -/
def adjusted (adjust : Bool) (width height : Int32) (p : Int32 × Int32) : Int32 × Int32 :=
  if adjust ∧ ((width < height ∧ p.1 > p.2) ∨ (width > height ∧ p.1 < p.2)) then (p.2, p.1) else p

/-- The size that is set, in the `int`s of Java. -/
def fitted (width height x y : Int32) : Measured :=
  if width > height * x / y then ⟨x, y, height * x / y, height⟩ else ⟨x, y, width, width * y / x⟩

def onMeasure (prefs : SharedPreferences) (mMeasuredWidth mMeasuredHeight : UInt32) :
    Except Thrown (Option Measured) := do
  if ← displayStretch.getBoolean prefs then pure none
  else
    let mode ← displayResolutionMode.getString prefs
    if mode = text "native" ∨ mode = text "scaled" then pure none
    else
      let p ← getDimensionsFromSettings prefs mMeasuredWidth mMeasuredHeight
      if p.1 ≤ 0 ∨ p.2 ≤ 0 then pure none
      else
        let width := getMeasured mMeasuredWidth
        let height := getMeasured mMeasuredHeight
        let (x, y) := adjusted (← adjustResolution.getBoolean prefs) width height p
        pure (some (fitted width height x y))

end WinEmulator.X11.OnMeasure
