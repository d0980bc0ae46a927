import WinEmulator.Lib.FileSystem

/-!
# `java.io.File` over a file system

The calls of `java.io.File` and of the Apache file utilities that are more than one system call. A
file is its path; what a path does not resolve to, the calls leave alone and answer `false`.
-/

set_option autoImplicit false

namespace WinEmulator.Lib.JavaFile

open Fs

/-- The components of a path string, without the empty ones. -/
def components (s : List Char) : List Name := (s.splitOn '/').filter (· ≠ [])

/-- `File.getAbsolutePath` of a path that is not empty. -/
def absolutePath (p : Path) : List Char := List.intercalate ['/'] ([] :: p)

/-- `File(parent, child)` for a child that is a name or empty. -/
def child (parent : Path) (name : Name) : Path := if name = [] then parent else parent ++ [name]

/-- `File.getName`. -/
def getName (p : Path) : Name := p.getLast?.getD []

theorem getName_concat (p : Path) (c : Name) : getName (p ++ [c]) = c := by
  rw [getName, List.getLast?_concat, Option.getD_some]

/-- `File.exists`. -/
def exists_ (fs : FileSystem) (p : Path) : Bool := (resolve fs false p).isSome

theorem not_exists_of_none {fs : FileSystem} {p : Path} (h : resolve fs false p = none) :
    ¬ exists_ fs p = true := by
  rw [exists_, h]
  exact Bool.false_ne_true

/-- `Files.isSymbolicLink`. -/
def isSymbolicLink (fs : FileSystem) (p : Path) : Bool :=
  match (place fs p).bind fs.get with
  | some (.link _) => true
  | _ => false

/-- The content of a file that can be read. -/
def read (fs : FileSystem) (p : Path) : Option (List UInt8) :=
  (resolve fs false p).bind fun l =>
    match fs.get l with
    | some (.file content m) => if grants m .read then some content else none
    | _ => none

/-- Take the dots out of a path; a double dot takes back the name before it. -/
def collapse : Loc → List Name → Loc
  | cur, [] => cur
  | cur, c :: cs =>
    if c = [] ∨ c = dot then collapse cur cs
    else if c = dotdot then collapse cur.dropLast cs
    else collapse (cur ++ [c]) cs

/-- Resolve the first `k` components, or as many of them as lead somewhere, and collapse the
rest. -/
def canonicalTake (fs : FileSystem) (p : Path) : Nat → Loc
  | 0 => collapse [] p
  | k + 1 =>
    match resolve fs false (p.take (k + 1)) with
    | some l => collapse l (p.drop (k + 1))
    | none => canonicalTake fs p k

/-- `File.getCanonicalFile`. -/
def canonical (fs : FileSystem) (p : Path) : Loc := canonicalTake fs p p.length

/-- `File.mkdirs` with a bound on its depth: make the directory, or else first its canonical parent
and then the canonical directory. -/
def mkdirsWith : Nat → Disk → Path → Disk × Bool
  | 0, d, _ => (d, false)
  | n + 1, d, p =>
    if exists_ d.fs p then (d, false)
    else
      match mkdirEffect d.fs p with
      | some e => (d.apply e, true)
      | none =>
        let c := canonical d.fs p
        if c = [] then (d, false)
        else
          let r := mkdirsWith n d c.dropLast
          if r.2 || exists_ r.1.fs c.dropLast then
            match mkdirEffect r.1.fs c with
            | some e => (r.1.apply e, true)
            | none => (r.1, false)
          else (r.1, false)

/-- `File.mkdirs`. -/
def mkdirs (d : Disk) (p : Path) : Disk × Bool := mkdirsWith ((canonical d.fs p).length + 2) d p

/-- `File.delete`. -/
def delete (d : Disk) (p : Path) : Disk := d.perform (removeEffect d.fs p)

/-- `FileUtils.deleteDirectory`: a link goes itself, a directory after everything in it. -/
def deleteDirectory (d : Disk) (p : Path) : Disk :=
  if exists_ d.fs p then
    match place d.fs p with
    | none => d
    | some l =>
      match d.fs.get l with
      | some (.link _) => delete d p
      | some (.dir m) =>
        if grants m .read then
          let r := removeAll (removeTree true (height d.fs + 1)) l d (children d.fs l)
          if r.2 then delete r.1 p else r.1
        else d
      | _ => d
  else d

end WinEmulator.Lib.JavaFile
