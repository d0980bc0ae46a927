import Mathlib.Data.List.Basic
import WinEmulator.Lib.LinkedMap

/-!
# A POSIX file system, as one of its users sees it

A file system is a map from locations to nodes. A location is the list of names from the root, so no
location runs through a symbolic link; a path is any list of components, with dots and double dots,
and is resolved to a location one component at a time. All files belong to the user, so the owner's
permission bits decide.

A system call that changes something changes one location, and what it would do is an `Effect`. A
`Disk` is a file system together with the effects that made it.
-/

set_option autoImplicit false

namespace WinEmulator.Lib.Fs

abbrev Name := List Char

/-- What decides whether a name is among others. -/
theorem lawfulBEq_name : LawfulBEq Name := inferInstance

/-- The names from the root to a node. -/
abbrev Loc := List Name

/-- The components of an absolute path. -/
abbrev Path := List Name

/-- The permission bits with the set-id and sticky bits. -/
abbrev Mode := BitVec 12

inductive Node
  | dir (mode : Mode)
  | file (content : List UInt8) (mode : Mode)
  | link (target : List Char)
deriving DecidableEq

abbrev FileSystem := LinkedMap Loc Node

inductive Access
  | read
  | write
  | search
deriving DecidableEq

/-- The bit that grants an access to the owner. -/
def Access.bit : Access → Nat
  | .read => 8
  | .write => 7
  | .search => 6

def grants (m : Mode) (a : Access) : Bool := m.getLsbD a.bit

def Node.isDir : Node → Bool
  | .dir _ => true
  | _ => false

def Node.isLink : Node → Bool
  | .link _ => true
  | _ => false

def Node.chmod (m : Mode) : Node → Node
  | .dir _ => .dir m
  | .file content _ => .file content m
  | .link target => .link target

/-- What an app creates: its umask takes everything from the others. -/
def newDirMode : Mode := 0o700
def newFileMode : Mode := 0o600

/-- The node at a location. The root is a directory of the system's. -/
def node (fs : FileSystem) (l : Loc) : Option Node := if l = [] then some (.dir 0o555) else fs.get l

/-- The location is a directory that grants the access. -/
def dirGrants (fs : FileSystem) (l : Loc) (a : Access) : Bool :=
  match node fs l with
  | some (.dir m) => grants m a
  | _ => false

/-- The names in a directory. -/
def children (fs : FileSystem) (l : Loc) : List Name :=
  (fs.entries.map Prod.fst).filterMap fun l' => if l'.dropLast = l then l'.getLast? else none

/-! ## Paths -/

def dot : Name := ['.']
def dotdot : Name := ['.', '.']

/-- The components of the target of a link; an empty one is a dot. -/
def targetPath (target : List Char) : List Name := target.splitOn '/'

/-- Resolve a path from a directory on; `follow` goes on after a link. With `create`, the last
component need not exist. -/
def walkWith (fs : FileSystem) (create : Bool) (follow : Loc → List Name → Option Loc) :
    Loc → List Name → Option Loc
  | cur, [] => some cur
  | cur, c :: cs =>
    if dirGrants fs cur .search then
      if c = [] ∨ c = dot then walkWith fs create follow cur cs
      else if c = dotdot then walkWith fs create follow cur.dropLast cs
      else
        match fs.get (cur ++ [c]) with
        | some (.dir _) => walkWith fs create follow (cur ++ [c]) cs
        | some (.file _ _) => if cs = [] then some (cur ++ [c]) else none
        | some (.link target) =>
          follow (if target.head? = some '/' then [] else cur) (targetPath target ++ cs)
        | none => if create ∧ cs = [] then some (cur ++ [c]) else none
    else none

/-- Resolve with at most so many links on the way. -/
def walk (fs : FileSystem) (create : Bool) : Nat → Loc → List Name → Option Loc
  | 0 => walkWith fs create fun _ _ => none
  | n + 1 => walkWith fs create (walk fs create n)

def maxLinks : Nat := 40

/-- The location of a path, links at its end followed too. -/
def resolve (fs : FileSystem) (create : Bool) (p : Path) : Option Loc :=
  walk fs create maxLinks [] p

/-- The location where the last component of a path stands, be it a link, a file or nothing. -/
def place (fs : FileSystem) (p : Path) : Option Loc :=
  p.getLast?.bind fun c =>
    if c = [] ∨ c = dot ∨ c = dotdot then none
    else
      (resolve fs false p.dropLast).bind fun parent =>
        if dirGrants fs parent .search then some (parent ++ [c]) else none

/-! ## System calls -/

/-- What becomes of one location. -/
abbrev Effect := Loc × Option Node

/-- A new node where nothing is, in a directory that can be written. -/
def createEffect (fs : FileSystem) (p : Path) (n : Node) : Option Effect :=
  (place fs p).bind fun l =>
    if fs.get l = none ∧ dirGrants fs l.dropLast .write then some (l, some n) else none

def mkdirEffect (fs : FileSystem) (p : Path) : Option Effect := createEffect fs p (.dir newDirMode)

/-- A link has to point somewhere. -/
def symlinkEffect (fs : FileSystem) (target : List Char) (p : Path) : Option Effect :=
  if target = [] then none else createEffect fs p (.link target)

/-- `remove`: unlink a file or a link, or remove an empty directory. -/
def removeEffect (fs : FileSystem) (p : Path) : Option Effect :=
  (place fs p).bind fun l =>
    match fs.get l with
    | none => none
    | some (.dir _) =>
      if children fs l = [] ∧ dirGrants fs l.dropLast .write then some (l, none) else none
    | some _ => if dirGrants fs l.dropLast .write then some (l, none) else none

def chmodEffect (fs : FileSystem) (p : Path) (m : Mode) : Option Effect :=
  (resolve fs false p).bind fun l => (fs.get l).map fun n => (l, some (n.chmod m))

/-- Open for writing, create or truncate, and write. -/
def writeEffect (fs : FileSystem) (p : Path) (content : List UInt8) : Option Effect :=
  (resolve fs true p).bind fun l =>
    match fs.get l with
    | none =>
      if dirGrants fs l.dropLast .write then some (l, some (.file content newFileMode)) else none
    | some (.file _ m) => if grants m .write then some (l, some (.file content m)) else none
    | some _ => none

/-- The names `opendir` and `readdir` give. -/
def list (fs : FileSystem) (p : Path) : Option (List Name) :=
  (resolve fs false p).bind fun l => if dirGrants fs l .read then some (children fs l) else none

/-! ## Disks -/

structure Disk where
  fs : FileSystem
  log : List Effect

namespace Disk

def apply (d : Disk) (e : Effect) : Disk := ⟨d.fs.set e.1 e.2, d.log ++ [e]⟩

/-- Make a system call; one that fails changes nothing. -/
def perform (d : Disk) : Option Effect → Disk
  | some e => d.apply e
  | none => d

end Disk

/-! ## Moving a tree -/

/-- Every node of a tree gets a new place. -/
def moveEffects (fs : FileSystem) (l l' : Loc) : List Effect :=
  let tree := fs.entries.filter fun e => l.isPrefixOf e.1
  (tree.map fun e => (e.1, none)) ++ tree.map fun e => (l' ++ e.1.drop l.length, some e.2)

/-- Whether the one may take the other's place. -/
def mayReplace (fs : FileSystem) (n : Node) (l' : Loc) : Bool :=
  match n, fs.get l' with
  | _, none => true
  | .dir _, some (.dir _) => children fs l' = []
  | .dir _, some _ => false
  | _, some (.dir _) => false
  | _, some _ => true

/-- `rename`: a directory that moves to another one has to be writable itself. `none` if it
fails. -/
def rename (d : Disk) (p q : Path) : Option Disk :=
  (place d.fs p).bind fun l => (place d.fs q).bind fun l' => (d.fs.get l).bind fun n =>
    let movable : Bool :=
      match n with
      | .dir m => l.dropLast = l'.dropLast || grants m .write
      | _ => true
    if dirGrants d.fs l.dropLast .write ∧ dirGrants d.fs l'.dropLast .write ∧ movable
        ∧ ¬ l.isPrefixOf l' ∧ mayReplace d.fs n l' then
      some ((moveEffects d.fs l l').foldl Disk.apply d)
    else if l = l' then some d
    else none

/-! ## Removing a tree -/

/-- No location is longer. -/
def height (fs : FileSystem) : Nat := (fs.entries.map fun e => e.1.length).foldr max 0

/-- Remove the nodes of the given names from a directory and go on after a failure; also whether all
of them were removed. -/
def removeAll (remove : Disk → Loc → Disk × Bool) (l : Loc) (d : Disk) : List Name → Disk × Bool
  | [] => (d, true)
  | c :: cs =>
    let r := remove d (l ++ [c])
    let rest := removeAll remove l r.1 cs
    (rest.1, r.2 && rest.2)

/-- Remove what a location holds, a directory after everything in it; also whether everything was
removed. With `force` a directory that cannot be written is made so. The number bounds the depth. -/
def removeTree (force : Bool) : Nat → Disk → Loc → Disk × Bool
  | 0, d, _ => (d, false)
  | n + 1, d, l =>
    let removable :=
      force || (dirGrants d.fs l.dropLast .write && dirGrants d.fs l.dropLast .search)
    match d.fs.get l with
    | none => (d, false)
    | some (.dir m) =>
      if grants m .read then
        let r := removeAll (removeTree force n) l d (children d.fs l)
        if r.2 && removable then (r.1.apply (l, none), true) else (r.1, false)
      else (d, false)
    | some _ => if removable then (d.apply (l, none), true) else (d, false)

/-! ## Well-formed file systems -/

/-- The root is not a node, every name is a proper one, and every node stands in a directory. -/
structure Closed (fs : FileSystem) : Prop where
  root : fs.get [] = none
  names : ∀ l c, fs.get (l ++ [c]) ≠ none → c ≠ [] ∧ c ≠ dot ∧ c ≠ dotdot ∧ '/' ∉ c
  parents : ∀ l c, fs.get (l ++ [c]) ≠ none → ∃ m, node fs l = some (.dir m)

end WinEmulator.Lib.Fs
