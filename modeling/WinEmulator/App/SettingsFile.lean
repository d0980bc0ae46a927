import Mathlib.Data.List.Dedup
import WinEmulator.App.Proot
import WinEmulator.Lib.JavaString
import WinEmulator.Lib.LinkedMap

/-!
# Settings as a file

`exportSettings` of `SettingViewModel.kt` writes the preferences of `Consts.Pref` to a file and
`importSettings` reads them back. Between the two stand the codec `Utils.Pref` and `Utils.Files`.

A string of Kotlin is its code units, and a file is its text, since it is written and read as UTF-8.
A store is what it holds for a name, which is all that `Preferences.Key` compares. What
`kotlinx.serialization` does is `Kotlinx`; of its lexer and of the numbers nothing is assumed.
-/

set_option autoImplicit false

namespace WinEmulator.App.SettingsFile

open WinEmulator.Lib
open WinEmulator.Lib.JavaString (text)

abbrev KString := JavaString.JString

/-- A string without a surrogate that stands alone. -/
def WellFormed (s : KString) : Prop := Utf16.encode (Utf16.decode s) = s

instance : DecidablePred WellFormed :=
  fun s => inferInstanceAs (Decidable (Utf16.encode (Utf16.decode s) = s))

/-- A set of strings in the order of its iterator. -/
structure StringSet where
  elements : List KString
  nodup : elements.Nodup
deriving DecidableEq

/-- `Iterable.toSet`. -/
def toSet (elements : List KString) : StringSet :=
  ⟨elements.reverse.dedup.reverse, List.nodup_reverse.mpr (List.nodup_dedup _)⟩

/-- What a preference can hold; numbers with a fraction by their bits. -/
inductive PrefValue
  | boolean (value : Bool)
  | string (value : KString)
  | int (value : Int32)
  | float (value : UInt32)
  | long (value : Int64)
  | double (value : UInt64)
  | stringSet (value : StringSet)
deriving DecidableEq

/-- The types of the keys. -/
inductive Kind
  | boolean
  | string
  | int
  | float
  | long
  | double
  | stringSet
deriving DecidableEq, Repr

def PrefValue.kind : PrefValue → Kind
  | .boolean _ => .boolean
  | .string _ => .string
  | .int _ => .int
  | .float _ => .float
  | .long _ => .long
  | .double _ => .double
  | .stringSet _ => .stringSet

/-! ## `kotlinx.serialization` -/

/-- `JsonElement`. A literal is a `JsonPrimitive` without quotes, `null` too. -/
inductive JsonElement
  | literal (content : KString)
  | string (content : KString)
  | array (elements : List JsonElement)
  | object (members : List (KString × JsonElement))

/-- `Json` with a `MapSerializer`, the numbers it writes and reads, and `String.toInt` and
`String.toLong` of Kotlin. What is none is an exception, or null where the name says so. -/
structure Kotlinx where
  encodeToString : List (KString × JsonElement) → KString
  decodeFromString : Text → Option (List (KString × JsonElement))
  ofInt : Int32 → KString
  ofLong : Int64 → KString
  ofFloat : UInt32 → Option KString
  ofDouble : UInt64 → Option KString
  booleanOrNull : KString → Option Bool
  intOrNull : KString → Option Int32
  floatOrNull : KString → Option UInt32
  longOrNull : KString → Option Int64
  doubleOrNull : KString → Option UInt64
  toInt : KString → Option Int32
  toLong : KString → Option Int64

/-! ## `Utils.Pref` -/

namespace PrefValueSerializer

variable (json : Kotlinx)

def serialize : PrefValue → Option JsonElement
  | .boolean value => some (.literal (text (if value then "true" else "false")))
  | .string value => some (.string value)
  | .int value => some (.literal (json.ofInt value))
  | .float value => (json.ofFloat value).map .literal
  | .long value => some (.literal (json.ofLong value))
  | .double value => (json.ofDouble value).map .literal
  | .stringSet value => some (.array (value.elements.map .string))

/-- `(item as JsonPrimitive).takeIf { it.isString }!!.content`. -/
def stringContent : JsonElement → Option KString
  | .string content => some content
  | .literal _ | .array _ | .object _ => none

def deserialize : JsonElement → Option PrefValue
  | .string content => some (.string content)
  | .literal content =>
    match json.booleanOrNull content with
    | some value => some (.boolean value)
    | none =>
      if (json.intOrNull content).isSome then (json.toInt content).map .int
      else
        match json.floatOrNull content with
        | some value => some (.float value)
        | none =>
          if (json.longOrNull content).isSome then (json.toLong content).map .long
          else
            match json.doubleOrNull content with
            | some value => some (.double value)
            | none => some (.string content)
  | .array elements => (elements.mapM stringContent).map fun contents => .stringSet (toSet contents)
  | .object _ => none

end PrefValueSerializer

/-- A function on the values of entries that can throw. -/
def mapValues {α β : Type} (f : α → Option β) (entries : List (KString × α)) :
    Option (List (KString × β)) :=
  entries.mapM fun entry => (f entry.2).map fun value => (entry.1, value)

/-- An exception gives the empty string. -/
def serializeFromMapToJson (json : Kotlinx) (map : LinkedMap KString PrefValue) : KString :=
  match mapValues (PrefValueSerializer.serialize json) map.entries with
  | some members => json.encodeToString members
  | none => []

/-- An exception gives the empty map. -/
def deserializeFromJsonToMap (json : Kotlinx) (text : Text) : LinkedMap KString PrefValue :=
  if trim text = [] then .empty
  else
    match (json.decodeFromString (trim text)).bind
      (mapValues (PrefValueSerializer.deserialize json)) with
    | some values => .ofList values
    | none => .empty

/-! ## `Utils.Files` -/

/-- The file that is written. -/
def writeToUri (content : KString) : Text := Utf16.decode content

/-- `IOUtils.readLines`, with the line so far. -/
def readLines : Text → Text → List Text
  | line, [] => if line = [] then [] else [line]
  | line, '\r' :: '\n' :: cs => line :: readLines [] cs
  | line, c :: cs =>
    if c = '\r' ∨ c = '\n' then line :: readLines [] cs else readLines (line ++ [c]) cs

/-- The lines with nothing between them. -/
def readFromUri (file : Text) : Text := (readLines [] file).flatten

/-! ## `Consts.Pref` -/

structure Item where
  name : KString
  default : PrefValue
deriving DecidableEq

def Item.kind (item : Item) : Kind := item.default.kind

/-- `item(name, default)`, with the default of `prefInAssets` if that has the type. -/
def item (prefInAssets : LinkedMap KString PrefValue) (name : KString) (default : PrefValue) :
    Item :=
  ⟨name, ((prefInAssets.get name).filter fun value => value.kind = default.kind).getD default⟩

/-- The file `preferences.json` of the assets is empty. -/
def prefInAssets : LinkedMap KString PrefValue := .empty

def general_resolution : Item :=
  item prefInAssets (text "general_resolution") (.string (text "1280x720"))

def general_rootfs_lang : Item :=
  item prefInAssets (text "general_rootfs_lang") (.string (text "en_US.utf8"))

def general_shared_ext_path : Item :=
  item prefInAssets (text "shared_ext_path")
    (.stringSet (toSet [text "/storage/emulated/0/Download"]))

def proot_bool_options : Item :=
  item prefInAssets (text "proot_bool_options")
    (.stringSet (toSet [text "-L", text "--link2symlink", text "--sysvipc", text "--kill-on-exit"]))

def proot_startup_cmd : Item := item prefInAssets (text "proot_startup_cmd") (.string (text ""))

def allItems : List Item :=
  [general_resolution, general_rootfs_lang, general_shared_ext_path, proot_bool_options,
    proot_startup_cmd]

namespace Local

def curr_rootfs_name : Item := item prefInAssets (text "local_curr_rootfs_name") (.string (text ""))

def rootfs_login_user_json : Item :=
  item prefInAssets (text "local_rootfs_login_user") (.string (text "\x7b\x7d"))

def skip_permissions : Item := item prefInAssets (text "skip_permissions") (.boolean false)

def items : List Item := [curr_rootfs_name, rootfs_login_user_json, skip_permissions]

end Local

/-! ## `SettingViewModel.kt` -/

abbrev Preferences := KString → Option PrefValue

/-- `preference[item.key] ?: item.default`. -/
def Item.effective (item : Item) (preference : Preferences) : PrefValue :=
  (preference item.name).getD item.default

/-- `item.get()`; none is a `ClassCastException`. -/
def Item.get (item : Item) (preference : Preferences) : Option PrefValue :=
  if (item.effective preference).kind = item.kind then some (item.effective preference) else none

/-- One entry of the map. -/
def importEntry (preference : Preferences) (entry : KString × PrefValue) : Preferences :=
  match allItems.find? fun item => item.name = entry.1 with
  | some item => Function.update preference item.name (some entry.2)
  | none => preference

def importSettings (json : Kotlinx) (file : Text) (preference : Preferences) : Preferences :=
  (deserializeFromJsonToMap json (readFromUri file)).entries.foldl importEntry preference

def exportSettings (json : Kotlinx) (preference : Preferences) : Text :=
  let map := LinkedMap.ofList (allItems.map fun item => (item.name, item.effective preference))
  writeToUri (serializeFromMapToJson json map)

end WinEmulator.App.SettingsFile

/-! ## `Utils.Pref` on strings

The codec without the file in between: `deserializeFromJsonToMap` is given any string of Kotlin,
also one that no file can hold, and `Json.decodeFromString` is a function of such strings. -/

namespace WinEmulator.App.PreferenceCodec

open WinEmulator.Lib
open WinEmulator.App.SettingsFile

/-- `Char.isWhitespace`; no surrogate is. -/
def isWhitespace (u : Utf16.Unit16) : Bool := App.isWhitespace (Char.ofNat u.toNat)

/-- `String.trim`. -/
def trim (s : KString) : KString := (s.dropWhile isWhitespace).rdropWhile isWhitespace

/-- `Json.decodeFromString` with the `MapSerializer`; none is an exception. -/
abbrev Decoder := KString → Option (List (KString × JsonElement))

/-- An exception gives the empty map. -/
def deserializeFromJsonToMap (json : Kotlinx) (decodeFromString : Decoder) (s : KString) :
    LinkedMap KString PrefValue :=
  if trim s = [] then .empty
  else
    match (decodeFromString (trim s)).bind (mapValues (PrefValueSerializer.deserialize json)) with
    | some values => .ofList values
    | none => .empty

end WinEmulator.App.PreferenceCodec
