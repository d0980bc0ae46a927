import Mathlib.Algebra.Group.Int.Defs
import Mathlib.Algebra.Group.Nat.Defs
import Mathlib.Data.List.Lex
import Mathlib.Data.List.Sort

/-!
# `ProotRootfs.kt`: the users of a rootfs

`getUserInfos` lists the users of `/etc/passwd` that can log in, and `getPreferredUser` chooses one
of them. A string is the list of its characters here. `digit` is `Character.digit(c, 10)`, which
knows the decimal digits of every script.
-/

set_option autoImplicit false

namespace WinEmulator.App

abbrev Text := List Char

structure UserInfo where
  name : Text
  uid : Int
  gid : Int
  home : Text
  shell : Text
deriving DecidableEq

/-- `UserInfo.ROOT`. -/
def UserInfo.ROOT : UserInfo := ⟨"root".toList, 0, 0, "/root".toList, "/bin/sh".toList⟩

/-- The code units of a character. -/
def utf16 (c : Char) : List Nat :=
  if c.toNat < 0x10000 then [c.toNat]
  else [0xD800 + (c.toNat - 0x10000) / 0x400, 0xDC00 + (c.toNat - 0x10000) % 0x400]

/-- `String.compareTo`, by code units. -/
def compareLe (a b : Text) : Bool := a.flatMap utf16 ≤ b.flatMap utf16

/-- `Character.digit` on ASCII. -/
def asciiDigit (c : Char) : Option Nat :=
  if '0' ≤ c ∧ c ≤ '9' then some (c.toNat - '0'.toNat) else none

namespace ProotRootfs

variable (digit : Char → Option Nat)

/-- The value of a run of digits; `none` if it is empty or has anything else in it. -/
def digits : Text → Option Nat
  | [] => none
  | cs => cs.foldl (fun n c => n.bind fun n => (digit c).map (10 * n + ·)) (some 0)

/-- `String.toLong`; `none` is the `NumberFormatException`. -/
def toLong (s : Text) : Option Int :=
  let value : Option Int :=
    match s with
    | '-' :: cs => (digits digit cs).map fun n => -(n : Int)
    | '+' :: cs => (digits digit cs).map fun n => (n : Int)
    | cs => (digits digit cs).map fun n => (n : Int)
  value.filter fun n => -2 ^ 63 ≤ n ∧ n < 2 ^ 63

/-- What a line of `/etc/passwd` gives: a user, nothing, or (`none`) an exception. -/
def parseLine (line : Text) : Option (Option UserInfo) :=
  match line.splitOn ':' with
  | [name, _, uid, gid, _, home, shell] =>
    match toLong digit uid with
    | none => none
    | some uid =>
      if uid < 1000 ∧ uid ≠ 0 then some none
      else if uid = 65534 then some none
      else (toLong digit gid).map fun gid => some ⟨name, uid, gid, home, shell⟩
  | _ => some none

/-- `getUserInfos`. `passwd` is the lines of the file, `none` if it cannot be read; an exception
anywhere leaves no user but root. -/
def getUserInfos (passwd : Option (List Text)) : List UserInfo :=
  let parsed :=
    ((passwd.bind fun lines => lines.mapM (parseLine digit)).map (·.reduceOption)).getD []
  let withRoot := if parsed.any (·.name = "root".toList) then parsed else parsed ++ [.ROOT]
  (withRoot.filter fun info => !("aid_".toList.isPrefixOf info.name)).insertionSort
    fun a b => compareLe a.name b.name

/-- `getPreferredUser(lastSelectedUserName, allUsers)`. -/
def getPreferredUser (lastSelectedUserName : Option Text) (allUsers : List UserInfo) : UserInfo :=
  match allUsers.find? fun info => some info.name = lastSelectedUserName with
  | some info => info
  | none =>
    match allUsers.find? fun info => info.name ≠ "root".toList with
    | some info => info
    | none =>
      match allUsers.find? fun info => info.name = "root".toList with
      | some info => info
      | none => .ROOT

end ProotRootfs

end WinEmulator.App
