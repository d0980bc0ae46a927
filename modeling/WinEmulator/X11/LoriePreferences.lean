import Mathlib.Logic.Function.Basic
import WinEmulator.Lib.JavaString
import WinEmulator.Lib.LinkedMap

/-!
# `LoriePreferences.java`: the preferences of the X11 view and their change from outside

`Prefs` is generated from `preferences.xml`: a preference for each setting, with its type and its
default, over one of two stores. `Receiver.onReceive` answers `CHANGE_PREFERENCE`. The changes of a
request are collected and committed at the end; what is sent about each of them to the other parts
of the app is left out, and so is what stops the key interceptor.
-/

set_option autoImplicit false

namespace WinEmulator.X11.LoriePreferences

open WinEmulator.Lib
open WinEmulator.Lib.JavaString

/-! ## Stores -/

inductive PrefValue
  | boolean (value : Bool)
  | int (value : Int32)
  | string (value : JString)
deriving DecidableEq

abbrev SharedPreferences := JString → Option PrefValue

/-- The exceptions. -/
inductive Thrown
  | numberFormat (s : JString)
  | arrayIndexOutOfBounds (length index : Nat)
  | arithmetic
  | classCast
deriving DecidableEq

namespace SharedPreferences

variable (preferences : SharedPreferences) (key : JString)

def getBoolean (defValue : Bool) : Except Thrown Bool :=
  match preferences key with
  | none => .ok defValue
  | some (.boolean value) => .ok value
  | some _ => .error .classCast

def getInt (defValue : Int32) : Except Thrown Int32 :=
  match preferences key with
  | none => .ok defValue
  | some (.int value) => .ok value
  | some _ => .error .classCast

def getString (defValue : JString) : Except Thrown JString :=
  match preferences key with
  | none => .ok defValue
  | some (.string value) => .ok value
  | some _ => .error .classCast

def put (value : PrefValue) : SharedPreferences := Function.update preferences key (some value)

end SharedPreferences

/-! ## `arrays.xml` -/

/-- A reference stands for the strings of the array it refers to. -/
inductive ArrayItem
  | string (value : JString)
  | array (strings : List JString)
deriving DecidableEq

/-- An array of strings among the resources; its name is its identifier. -/
structure StringArray where
  name : JString
  items : List ArrayItem
deriving DecidableEq

namespace StringArray

def ofStrings (name : String) (items : List String) : StringArray :=
  ⟨text name, items.map fun item => .string (text item)⟩

/-- `getArrayItems`. -/
def strings (a : StringArray) : List JString :=
  a.items.flatMap fun
    | .string value => [value]
    | .array strings => strings

/-- `Resources.getStringArray`, with null for a reference to an array. -/
def getStringArray (a : StringArray) : List (Option JString) :=
  a.items.map fun
    | .string value => some value
    | .array _ => none

end StringArray

def touchscreenInputModesEntries : StringArray :=
  .ofStrings "touchscreenInputModesEntries" ["Trackpad", "Simulated touchscreen", "Direct touch"]

def touchscreenInputModesValues : StringArray :=
  .ofStrings "touchscreenInputModesValues" ["1", "2", "3"]

def transformCapturedPointerEntries : StringArray :=
  .ofStrings "transformCapturedPointerEntries"
    ["No", "Clockwise", "Counter clockwise", "Upside down",
    "Automatic (for touchpad)"]

def transformCapturedPointerValues : StringArray :=
  .ofStrings "transformCapturedPointerValues" ["no", "c", "cc", "ud", "at"]

def displayResolutionVariants : StringArray :=
  .ofStrings "displayResolutionVariants" ["native", "scaled", "exact", "custom"]

def displayResolution : StringArray :=
  .ofStrings "displayResolution"
    ["320x200", "320x240", "352x288", "400x240", "640x350", "640x480", "800x480",
    "800x600", "1024x768", "1280x720", "1280x960", "1280x1024", "1400x1050", "1600x1024",
      "1600x1200", "1366x768",
    "1680x1050", "1920x1080", "1920x1200", "2048x1536", "2560x1600", "2560x2048", "3840x2160",
      "7680x4320"]

def userActionsValues : StringArray :=
  .ofStrings "userActionsValues" ["no action", "toggle soft keyboard", "toggle additional key bar",
    "open preferences", "release pointer and keyboard capture", "toggle fullscreen",
      "restart activity", "exit"]

def userActionsVolumeDownValues : StringArray :=
  ⟨text "userActionsVolumeDownValues",
    [.array userActionsValues.strings, .string (text "send volume down")]⟩

def userActionsVolumeUpValues : StringArray :=
  ⟨text "userActionsVolumeUpValues",
    [.array userActionsValues.strings, .string (text "send volume up")]⟩

def userActionsMediaKeyValues : StringArray :=
  ⟨text "userActionsMediaKeyValues",
    [.array userActionsValues.strings, .string (text "send media action")]⟩

def forceOrientationVariants : StringArray :=
  .ofStrings "forceOrientationVariants"
    ["auto", "portrait", "landscape", "reverse portrait", "reverse landscape"]

/-! ## `PrefsProto` -/

inductive Preference
  | string (key defValue : JString)
  | int (key : JString) (defValue : Int32)
  | boolean (key : JString) (defValue : Bool)
  | list (key defValue : JString) (entries values : StringArray)
deriving DecidableEq

def Preference.key : Preference → JString
  | .string key _ | .int key _ | .boolean key _ | .list key _ _ _ => key

namespace Preference

/-- `get` of a `StringPreference` or a `ListPreference`. -/
def getString (pref : Preference) (preferences : SharedPreferences) : Except Thrown JString :=
  match pref with
  | .string key defValue | .list key defValue _ _ => preferences.getString key defValue
  | .int _ _ | .boolean _ _ => .error .classCast

/-- `get` of an `IntPreference`. -/
def getInt (pref : Preference) (preferences : SharedPreferences) : Except Thrown Int32 :=
  match pref with
  | .int key defValue => preferences.getInt key defValue
  | .string _ _ | .boolean _ _ | .list _ _ _ _ => .error .classCast

/-- `get` of a `BooleanPreference` that is not the one which says which store it is. -/
def getBoolean (pref : Preference) (preferences : SharedPreferences) : Except Thrown Bool :=
  match pref with
  | .boolean key defValue => preferences.getBoolean key defValue
  | .string _ _ | .int _ _ | .list _ _ _ _ => .error .classCast

end Preference

structure Stores where
  builtInDisplayPreferences : SharedPreferences
  secondaryDisplayPreferences : SharedPreferences

namespace Stores

def get (stores : Stores) (isSecondaryDisplayPreferences : Bool) : SharedPreferences :=
  if isSecondaryDisplayPreferences then stores.secondaryDisplayPreferences
  else stores.builtInDisplayPreferences

def put (stores : Stores) (isSecondaryDisplayPreferences : Bool) (preferences : SharedPreferences) :
    Stores :=
  if isSecondaryDisplayPreferences then { stores with secondaryDisplayPreferences := preferences }
  else { stores with builtInDisplayPreferences := preferences }

end Stores

/-! ## `Prefs` -/

def displayResolutionMode : Preference :=
  .list (text "displayResolutionMode") (text "custom") displayResolutionVariants
    displayResolutionVariants

def displayScale : Preference := .int (text "displayScale") 100

def displayResolutionExact : Preference :=
  .list (text "displayResolutionExact") (text "1280x1024") displayResolution displayResolution

def displayResolutionCustom : Preference :=
  .string (text "displayResolutionCustom") (text "1280x1024")

def adjustResolution : Preference := .boolean (text "adjustResolution") false

def hideCutout : Preference := .boolean (text "hideCutout") false

def showAdditionalKbd : Preference := .boolean (text "showAdditionalKbd") false

def additionalKbdVisible : Preference := .boolean (text "additionalKbdVisible") true

def enableAccessibilityServiceAutomatically : Preference :=
  .boolean (text "enableAccessibilityServiceAutomatically") false

def storeSecondaryDisplayPreferencesSeparately : Preference :=
  .boolean (text "storeSecondaryDisplayPreferencesSeparately") false

def extra_keys_config : Preference :=
  .string (text "extra_keys_config")
    (text "[['ESC','/',\x7bkey: '-', popup: '|'\x7d,'HOME','UP','END','PGUP','PREFERENCES'], " ++
      text "['TAB','CTRL','ALT','LEFT','DOWN','RIGHT','PGDN','KEYBOARD']]")

def keys : List Preference :=
  [displayResolutionMode,
    displayScale,
    displayResolutionExact,
    displayResolutionCustom,
    adjustResolution,
    .boolean (text "displayStretch") false,
    .boolean (text "Reseed") true,
    .boolean (text "PIP") false,
    .boolean (text "fullscreen") true,
    .list (text "forceOrientation") (text "auto") forceOrientationVariants forceOrientationVariants,
    hideCutout,
    .boolean (text "keepScreenOn") true,
    .list (text "touchMode") (text "1") touchscreenInputModesEntries touchscreenInputModesValues,
    .boolean (text "scaleTouchpad") true,
    .boolean (text "showStylusClickOverride") false,
    .boolean (text "stylusIsMouse") false,
    .boolean (text "stylusButtonContactModifierMode") false,
    .boolean (text "showMouseHelper") false,
    .boolean (text "pointerCapture") false,
    .list (text "transformCapturedPointer") (text "no") transformCapturedPointerEntries
      transformCapturedPointerValues,
    .int (text "capturedPointerSpeedFactor") 100,
    .boolean (text "tapToMove") false,
    showAdditionalKbd,
    additionalKbdVisible,
    .boolean (text "showIMEWhileExternalConnected") true,
    .boolean (text "preferScancodes") false,
    .boolean (text "hardwareKbdScancodesWorkaround") true,
    .boolean (text "dexMetaKeyCapture") false,
    enableAccessibilityServiceAutomatically,
    .boolean (text "pauseKeyInterceptingWithEsc") false,
    .boolean (text "filterOutWinkey") false,
    .boolean (text "enforceCharBasedInput") false,
    .boolean (text "clipboardEnable") true,
    storeSecondaryDisplayPreferencesSeparately,
    .boolean (text "adjustHeightForEK") false,
    .boolean (text "useTermuxEKBarBehaviour") false,
    .int (text "opacityEKBar") 100,
    .list (text "swipeUpAction") (text "no action") userActionsValues userActionsValues,
    .list (text "swipeDownAction") (text "toggle additional key bar") userActionsValues
      userActionsValues,
    .list (text "volumeUpAction") (text "no action") userActionsVolumeUpValues
      userActionsVolumeUpValues,
    .list (text "volumeDownAction") (text "no action") userActionsVolumeDownValues
      userActionsVolumeDownValues,
    .list (text "backButtonAction") (text "toggle soft keyboard") userActionsValues
      userActionsValues,
    .list (text "notificationTapAction") (text "open preferences") userActionsValues
      userActionsValues,
    .list (text "notificationButton0Action") (text "open preferences") userActionsValues
      userActionsValues,
    .list (text "notificationButton1Action") (text "exit") userActionsValues userActionsValues,
    .list (text "mediaKeysAction") (text "no action") userActionsMediaKeyValues
      userActionsMediaKeyValues,
    extra_keys_config]

/-- Whether `preferences` is the secondary store. -/
def recheckStoringSecondaryDisplayPreferences (stores : Stores) (isExternalDisplay : Bool) :
    Except Thrown Bool :=
  (stores.builtInDisplayPreferences.getBoolean storeSecondaryDisplayPreferencesSeparately.key
    false).map
    fun separately => separately && isExternalDisplay

/-! ## Values of booleans -/

/-- The two stores and the one in use, on a display. -/
structure PrefsProto where
  stores : Stores
  isSecondaryDisplayPreferences : Bool
  isExternalDisplay : Bool

namespace PrefsProto

variable (p : PrefsProto) (k : JString)

/-- `preferences`. -/
def get : SharedPreferences := p.stores.get p.isSecondaryDisplayPreferences

/-- `preferences.edit().putBoolean(k, v).commit()`. -/
def put (v : Bool) : PrefsProto :=
  { p with stores := p.stores.put p.isSecondaryDisplayPreferences (p.get.put k (.boolean v)) }

/-- The same for `builtInDisplayPreferences`. -/
def putBuiltIn (v : Bool) : PrefsProto :=
  { p with stores := p.stores.put false (p.stores.builtInDisplayPreferences.put k (.boolean v)) }

/-- Choose the store again. -/
def recheck : Except Thrown PrefsProto :=
  (recheckStoringSecondaryDisplayPreferences p.stores p.isExternalDisplay).map fun secondary =>
    { p with isSecondaryDisplayPreferences := secondary }

def putBoolean (v : Bool) : Except Thrown PrefsProto :=
  if k = storeSecondaryDisplayPreferencesSeparately.key then (p.putBuiltIn k v).recheck
  else .ok (p.put k v)

def getBoolean (d : Bool) : Except Thrown Bool :=
  if k = storeSecondaryDisplayPreferencesSeparately.key then
    p.stores.builtInDisplayPreferences.getBoolean k d
  else p.get.getBoolean k d

end PrefsProto

namespace BooleanPreference

variable (p : PrefsProto) (key : JString)

def get (defValue : Bool) : Except Thrown Bool :=
  if key = storeSecondaryDisplayPreferencesSeparately.key then
    p.stores.builtInDisplayPreferences.getBoolean key defValue
  else p.get.getBoolean key defValue

def put (v : Bool) : Except Thrown PrefsProto :=
  if key = storeSecondaryDisplayPreferencesSeparately.key then
    (p.putBuiltIn key v).recheck.map fun p => p.put key v
  else .ok (p.put key v)

end BooleanPreference

/-! ## `Receiver` -/

/-- What `sendResponse` is called with. -/
structure Response where
  status : Int
  oldStatus : Int
  text : JString
deriving DecidableEq

/-- What the receiver finds around it. -/
structure Device where
  hostPkgName : JString
  /-- The permission `WRITE_SECURE_SETTINGS`. -/
  writeSecureSettings : Bool
  toString : Thrown → JString
  /-- `p.keys.values()`, in the order of the hash map. -/
  keysValues : List Preference
  perm : keysValues.Perm keys

def unit (c : Char) : Utf16.Unit16 := UInt16.ofNat c.toNat

/-- `split("x")` and `parseInt` of the first two parts. -/
def parseResolution (resolution : JString) : Except Thrown (Int32 × Int32) :=
  let parts := split resolution (unit 'x')
  let part (index : Nat) : Except Thrown Int32 :=
    match parts[index]? with
    | none => .error (.arrayIndexOutOfBounds parts.length index)
    | some s =>
      match parseInt s with
      | none => .error (.numberFormat s)
      | some n => .ok n
  (part 0).bind fun w => (part 1).map fun h => (w, h)

def ofInt (n : Int32) : JString := text (toString n.toInt)

def ofBool (b : Bool) : JString := text (toString b)

/-- `Arrays.toString`. -/
def arraysToString (strings : List JString) : JString :=
  text "[" ++ (text ", ").intercalate strings ++ text "]"

namespace Receiver

variable (device : Device)

/-- The text of a preference in the answer to `list`. -/
def listed (builtInDisplayPreferences preferences : SharedPreferences) :
    Preference → Except Thrown JString
  | .string key defValue => preferences.getString key defValue
  | .int key defValue => (preferences.getInt key defValue).map ofInt
  | .boolean key defValue =>
    if key = storeSecondaryDisplayPreferencesSeparately.key then
      (builtInDisplayPreferences.getBoolean key defValue).map ofBool
    else (preferences.getBoolean key defValue).map ofBool
  | .list key defValue entries values =>
    (preferences.getString key defValue).bind fun value =>
      let index := values.getStringArray.idxOf (some value)
      if index < values.getStringArray.length then
        match entries.getStringArray[index]? with
        | none => .error (.arrayIndexOutOfBounds entries.getStringArray.length index)
        | some entry => .ok (entry.getD (text "null"))
      else .ok value

/-- A line of the answer. -/
def line (key value : JString) : JString := text "\"" ++ key ++ text "\"=\"" ++ value ++ text "\""

def list (builtInDisplayPreferences preferences : SharedPreferences) : Except Thrown JString :=
  (device.keysValues.mapM fun pref =>
      (listed builtInDisplayPreferences preferences pref).map fun value =>
    line pref.key value ++ text "\n").map fun lines => lines.flatten.dropLast

/-- The index of a new value among the values of a list. -/
def indexOf (entries values : StringArray) (newValue : JString) : Option Nat :=
  if newValue ∈ entries.strings then some (entries.strings.idxOf newValue)
  else if entries.name ≠ values.name ∧ newValue ∈ values.strings then
    some (values.strings.idxOf newValue)
  else none

/-- What is put under a key for a new value, or the answer that ends the request. An exception that
nothing here catches ends it too. -/
def newPreference (key newValue : JString) : Except Response PrefValue :=
  if key = displayResolutionCustom.key then
    match parseResolution newValue with
    | .ok _ => .ok (.string newValue)
    | .error (.numberFormat _) =>
      .error ⟨1, 1, text "displayResolutionCustom: Wrong resolution format."⟩
    | .error e => .error ⟨1, 4, device.toString e⟩
  else if key = enableAccessibilityServiceAutomatically.key then
    if newValue = text "true" ∧ device.writeSecureSettings = false then
      .error ⟨1, 1,
        text "Permission denied.\nAndroid requires WRITE_SECURE_SETTINGS permission to change "
        ++ text "\x60enableAccessibilityServiceAutomatically\x60 setting.\n"
        ++ text "Please, launch this command using ADB:\nadb shell pm grant "
        ++ device.hostPkgName ++ text " android.permission.WRITE_SECURE_SETTINGS"⟩
    else .ok (.boolean (newValue = text "true"))
  else if key = extra_keys_config.key then .ok (.string newValue)
  else
    match keys.find? fun pref => pref.key = key with
    | some (.boolean _ _) => .ok (.boolean (newValue = text "true"))
    | some (.int _ _) =>
      match parseInt newValue with
      | some n => .ok (.int n)
      | none =>
        .error ⟨1, 4,
          key ++ text ": failed to parse integer: " ++ device.toString (.numberFormat newValue)⟩
    | some (.list _ _ entries values) =>
      match indexOf entries values newValue with
      | some index =>
        match values.strings[index]? with
        | some value => .ok (.string value)
        | none =>
          .error ⟨1, 4, device.toString (.arrayIndexOutOfBounds values.strings.length index)⟩
      | none =>
        .error ⟨1, 1,
          key ++ text ": can not be set to \"" ++ newValue ++ text "\", possible options are "
          ++ arraysToString entries.strings
          ++ if entries.name ≠ values.name then text " or " ++ arraysToString values.strings
            else []⟩
    | _ => .error ⟨1, 4, key ++ text ": unrecognised option"⟩

/-- One extra that has a string. -/
def change (edit : SharedPreferences) (key newValue : JString) :
    Except Response SharedPreferences :=
  (newPreference device key newValue).map fun value =>
    if key = showAdditionalKbd.key ∧ newValue = text "true" then
      (edit.put key value).put additionalKbdVisible.key (.boolean true)
    else edit.put key value

/-- The loop over the extras; a key without a string is skipped. -/
def changes :
    SharedPreferences → List (Option JString × Option JString) → Except Response SharedPreferences
  | edit, [] => .ok edit
  | edit, (some key, some newValue) :: extras =>
    (change device edit key newValue).bind fun edit => changes edit extras
  | edit, (_, _) :: extras => changes edit extras

/-- The answer and the store `p` after it, which is only then another one if all changes were
accepted. -/
def onReceive (builtInDisplayPreferences p : SharedPreferences)
    (extras : LinkedMap (Option JString) (Option JString)) : Response × SharedPreferences :=
  if (extras.get (some (text "list"))).join.isSome then
    match list device builtInDisplayPreferences p with
    | .ok result => (⟨0, 2, result⟩, p)
    | .error e => (⟨1, 4, device.toString e⟩, p)
  else
    match changes device p extras.entries with
    | .ok edit => (⟨0, 2, text "Done"⟩, edit)
    | .error response => (response, p)

end Receiver

/-- A request that is answered with these preferences, which choose no store again. -/
def PrefsProto.onReceive (device : Device) (extras : LinkedMap (Option JString) (Option JString))
    (p : PrefsProto) :
    Response × PrefsProto :=
  let answer := Receiver.onReceive device p.stores.builtInDisplayPreferences p.get extras
  (answer.1, { p with stores := p.stores.put p.isSecondaryDisplayPreferences answer.2 })

end WinEmulator.X11.LoriePreferences
