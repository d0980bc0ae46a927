import WinEmulator.X11.LoriePreferences

/-!
# The command line of the preferences

`Receiver.main` of `LoriePreferences.java` makes a request of the lines of its standard input and of
its arguments, and prints the answer. What it prints is written as UTF-8.
-/

set_option autoImplicit false

namespace WinEmulator.X11.LoriePreferences

open WinEmulator.Lib
open WinEmulator.Lib.JavaString

/-- `get` of each kind of preference. -/
def PrefsProto.value (p : PrefsProto) : Preference → Except Thrown PrefValue
  | .string key defValue => (p.get.getString key defValue).map .string
  | .int key defValue => (p.get.getInt key defValue).map .int
  | .boolean key defValue => (BooleanPreference.get p key defValue).map .boolean
  | .list key defValue _ _ => (p.get.getString key defValue).map .string

/-- `Scanner`'s ends of a line, one of which is a pair. -/
def isLineSeparator (u : Utf16.Unit16) : Bool :=
  u ∈ ([0x0A, 0x0D, 0x2028, 0x2029, 0x85] : List Utf16.Unit16)

/-- The lines after what is there of the first one; what follows the last end is a line if it is not
empty. -/
def nextLines (afterReturn : Bool) (line : JString) : JString → List JString
  | [] => if line = [] then [] else [line]
  | u :: us =>
    if afterReturn ∧ u = 0x0A then nextLines false line us
    else if isLineSeparator u then line :: nextLines (u = 0x0D) [] us
    else nextLines false (line ++ [u]) us

namespace Receiver

abbrev Extras := LinkedMap (Option JString) (Option JString)

/-- Why there is no request. -/
inductive Ended
  | help
  | arrayIndexOutOfBounds
  | stringIndexOutOfBounds
deriving DecidableEq

/-- A part without its quotes. -/
def unquote (v : JString) : Except Ended JString :=
  if v.head? = some (unit '"') ∧ v.getLast? = some (unit '"') then
    if v.length < 2 then .error .stringIndexOutOfBounds else .ok v.tail.dropLast
  else .ok v

def putLine (i : Extras) (line : JString) : Except Ended Extras :=
  if unit '=' ∉ line then .error .help
  else
    match split line (unit '=') with
    | [] => .error .arrayIndexOutOfBounds
    | [key] => (unquote key).bind fun _ => .error .arrayIndexOutOfBounds
    | key :: newValue :: _ =>
      (unquote key).bind fun key => (unquote newValue).map fun newValue =>
        i.set (some key) (some (some newValue))

def putArg (i : Extras) (a : JString) : Except Ended Extras :=
  if a = text "list" then .ok (i.set (some (text "list")) (some (some [])))
  else if unit ':' ∈ a then
    match split a (unit ':') with
    | key :: newValue :: _ => .ok (i.set (some key) (some (some newValue)))
    | _ => .error .arrayIndexOutOfBounds
  else .error .help

/-- The extras of the request. The one without a key is what the answer comes to; there is no input
on a terminal. -/
def main (input : Option JString) (args : List JString) : Except Ended Extras :=
  (((input.map (nextLines false [])).getD []).foldlM putLine
      (LinkedMap.empty.set none (some none))).bind fun i =>
    args.foldlM putArg i

/-- What is printed for an answer, as it is read by whoever reads it. -/
def println (output : JString) : JString := Utf16.written (output ++ text "\n")

end Receiver

end WinEmulator.X11.LoriePreferences
