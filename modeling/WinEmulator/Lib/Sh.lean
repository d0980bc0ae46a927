import Mathlib.Data.List.Basic
import WinEmulator.Lib.Pathnames

/-!
# Words of a POSIX shell command

What `sh -c` makes of a string that is one simple command: tokenisation, quoting, tilde and
parameter expansion, field splitting, pathname expansion and quote removal, in one pass over the
characters. A semicolon or a newline may end the command. Two things are left out on purpose and
answered with `none`: strings that are more than one simple command (operators, substitutions,
assignments, reserved words), and spellings to which POSIX gives no meaning (an open quote at the
end, a dollar sign before nothing that can follow it, an unknown user after a tilde).

What surrounds the shell is an `Env`, the values of its parameters and the home directories it
knows, and the `Files` its patterns match.
-/

set_option autoImplicit false

namespace WinEmulator.Lib.Sh

/-- What surrounds the shell. -/
structure Env where
  /-- The variables, and the parameters that depend on how and where the shell was started. -/
  param : List Char → Option (List Char)
  /-- The directory for a tilde and a login name; the empty name is the user's own. -/
  home : List Char → Option (List Char)

/-- The value of a parameter. The shell has no arguments, and no command has run in it. -/
def Env.value (env : Env) (n : List Char) : List Char :=
  if n = ['#'] ∨ n = ['?'] then ['0']
  else if n = ['@'] ∨ n = ['*'] ∨ n = ['!'] ∨ n ≠ ['0'] ∧ n.all Char.isDigit then []
  else (env.param n).getD []

def apostrophe : Char := Char.ofNat 39
def quotation : Char := Char.ofNat 34
def backslash : Char := Char.ofNat 92
def grave : Char := Char.ofNat 96

/-- What an unquoted character is to the tokeniser. -/
inductive CharClass
  | blank
  | terminator
  | operator
  | apostrophe
  | quotation
  | backslash
  | dollar
  | ordinary
deriving DecidableEq

def classOf (c : Char) : CharClass :=
  if c = ' ' ∨ c = '\t' then .blank
  else if c = ';' ∨ c = '\n' then .terminator
  else if c ∈ ['&', '|', '(', ')', '<', '>', grave] then .operator
  else if c = apostrophe then .apostrophe
  else if c = quotation then .quotation
  else if c = backslash then .backslash
  else if c = '$' then .dollar
  else .ordinary

def isNameStart (c : Char) : Bool := c.isAlpha || c = '_'

def isNameChar (c : Char) : Bool := c.isAlphanum || c = '_'

/-- Where the tokeniser is. `dq` says that a parameter stands in double quotes. -/
inductive Mode
  | unquoted
  | escape
  | single
  | double
  | doubleEscape
  | dollar (dq : Bool)
  | name (dq : Bool) (n : List Char)
  | brace (dq : Bool) (n : List Char)
  | tilde (n : List Char)
  | comment
  /-- After the command. -/
  | ended
deriving DecidableEq

/-- The fields so far, the one being built if there is one, and where the tokeniser is. -/
structure State where
  mode : Mode
  done : List Field
  cur : Option Field
deriving DecidableEq

namespace State

def start : State := ⟨.unquoted, [], none⟩

def goto (s : State) (m : Mode) : State := { s with mode := m }

def push (s : State) (c : Char) (quoted : Bool) : State :=
  { s with cur := some (s.cur.getD [] ++ [(c, quoted)]) }

/-- A quotation makes a field even if nothing is in it. -/
def openField (s : State) : State := { s with cur := some (s.cur.getD []) }

/-- End the field being built. -/
def flush (s : State) : State :=
  match s.cur with
  | none => s
  | some f => { s with done := s.done ++ [f], cur := none }

/-- A character of the value of a parameter: quoted as it is, unquoted split at blanks. -/
def put (dq : Bool) (s : State) (c : Char) : State :=
  if !dq && (c = ' ' || c = '\t' || c = '\n') then s.flush else s.push c dq

/-- Put the value of a parameter in place. -/
def expand (s : State) (env : Env) (dq : Bool) (n : List Char) : State :=
  (env.value n).foldl (put dq) s

/-- Put a home directory in place of a tilde. -/
def expandHome (s : State) (env : Env) (n : List Char) : Option State :=
  (env.home n).map fun dir => dir.foldl (fun s c => s.push c true) s

end State

open State

/-- The end of the command, if there is one. -/
def terminate (s : State) : Option State :=
  if s.flush.done = [] then none else some (s.flush.goto .ended)

/-- An unquoted character. -/
def unquoted (s : State) (c : Char) : Option State :=
  match classOf c with
  | .blank => some (s.flush.goto .unquoted)
  | .terminator => terminate s
  | .operator => none
  | .apostrophe => some (s.openField.goto .single)
  | .quotation => some (s.openField.goto .double)
  | .backslash => some (s.goto .escape)
  | .dollar => some (s.goto (.dollar false))
  | .ordinary =>
    if s.cur = none ∧ c = '#' then some (s.goto .comment)
    else if s.cur = none ∧ c = '~' then some (s.goto (.tilde []))
    else some ((s.push c false).goto .unquoted)

/-- A character in double quotes. -/
def doubleQuoted (s : State) (c : Char) : Option State :=
  if c = quotation then some (s.goto .unquoted)
  else if c = backslash then some (s.goto .doubleEscape)
  else if c = '$' then some (s.goto (.dollar true))
  else if c = grave then none
  else some ((s.push c true).goto .double)

/-- Back to where a parameter stood, with the character that ended its name. -/
def resume (dq : Bool) (s : State) (c : Char) : Option State :=
  if dq then doubleQuoted s c else unquoted s c

/-- After a dollar sign: the name of a parameter, a special parameter, or a brace. -/
def afterDollar (env : Env) (dq : Bool) (s : State) (c : Char) : Option State :=
  if isNameStart c then some (s.goto (.name dq [c]))
  else if c.isDigit || c ∈ ['@', '*', '#', '?', '-', '$', '!'] then
    some ((s.expand env dq [c]).goto (if dq then .double else .unquoted))
  else if c = '{' then some (s.goto (.brace dq []))
  else none

/-- In a tilde prefix. A quoted or special character in it is not covered. -/
def afterTilde (env : Env) (s : State) (n : List Char) (c : Char) : Option State :=
  if c = '/' then (s.expandHome env n).map fun s => (s.push '/' false).goto .unquoted
  else
    match classOf c with
    | .blank => (s.expandHome env n).map fun s => s.flush.goto .unquoted
    | .ordinary => some (s.goto (.tilde (n ++ [c])))
    | _ => none

def step (env : Env) (s : State) (c : Char) : Option State :=
  match s.mode with
  | .unquoted => unquoted s c
  | .escape => if c = '\n' then some (s.goto .unquoted) else some ((s.push c true).goto .unquoted)
  | .single => if c = apostrophe then some (s.goto .unquoted) else some (s.push c true)
  | .double => doubleQuoted s c
  | .doubleEscape =>
    if c = '\n' then some (s.goto .double)
    else if c ∈ ['$', grave, quotation, backslash] then some ((s.push c true).goto .double)
    else some (((s.push backslash true).push c true).goto .double)
  | .dollar dq => afterDollar env dq s c
  | .name dq n =>
    if isNameChar c then some (s.goto (.name dq (n ++ [c])))
    else resume dq (s.expand env dq n) c
  | .brace dq n =>
    if c = '}' then
      if n = [] then none else some ((s.expand env dq n).goto (if dq then .double else .unquoted))
    else if isNameChar c then some (s.goto (.brace dq (n ++ [c])))
    else none
  | .tilde n => afterTilde env s n c
  | .comment => if c = '\n' then terminate s else some s
  | .ended =>
    if c = ' ' ∨ c = '\t' ∨ c = '\n' then some s
    else if c = '#' then some (s.goto .comment)
    else none

def steps (env : Env) : State → List Char → Option State
  | s, [] => some s
  | s, c :: cs => (step env s c).bind fun s' => steps env s' cs

/-- The end of the string. -/
def finish (env : Env) (s : State) : Option (List Field) :=
  match s.mode with
  | .unquoted => some s.flush.done
  | .name false n => some (s.expand env false n).flush.done
  | .tilde n => (s.expandHome env n).map fun s => s.flush.done
  | .comment => some s.flush.done
  | .ended => some s.flush.done
  | _ => none

def fields (env : Env) (cs : List Char) : Option (List Field) :=
  (steps env .start cs).bind (finish env)

/-- `name=value` before the command name. -/
def isAssignment (f : Field) : Bool :=
  let name := f.takeWhile fun p => p ≠ ('=', false)
  name.length < f.length && name.head?.any (fun p => isNameStart p.1)
    && name.all fun p => !p.2 && isNameChar p.1

theorem lawfulBEq_text : LawfulBEq (List Char) := inferInstance

attribute [local instance] lawfulBEq_text

def isReserved (f : Field) : Bool :=
  f.all (fun p => !p.2) && text f ∈ ["!", "\x7b", "\x7d", "case", "do", "done", "elif", "else",
    "esac", "fi",
    "for", "if", "in", "then", "until", "while"].map String.toList

/-- The command name and arguments of a string that is one simple command. -/
def simpleCommand (env : Env) (files : Files) (cs : List Char) : Option (List (List Char)) :=
  (fields env cs).bind fun fs =>
    if fs.head?.any fun f => isAssignment f || isReserved f then none
    else some (fs.flatMap (globbed files))

/-- Words with a space between each and the next. -/
def join : List (List Char) → List Char
  | [] => []
  | [w] => w
  | w :: ws => w ++ ' ' :: join ws

/-! ## Plain words -/

/-- A character that means itself anywhere in a word. -/
def Inert (c : Char) : Prop := classOf c = .ordinary ∧ isGlob c = false

instance : DecidablePred Inert := fun c =>
  inferInstanceAs (Decidable (classOf c = .ordinary ∧ isGlob c = false))

/-- A text that means itself after the beginning of a word. -/
def AllInert (t : List Char) : Prop := ∀ c ∈ t, Inert c

instance : DecidablePred AllInert := fun t => List.decidableBAll Inert t

/-- A word the tokeniser takes as it is: a number sign or a tilde has a meaning at its beginning
only. -/
structure Unspecial (w : List Char) : Prop where
  ne_nil : w ≠ []
  ordinary : ∀ c ∈ w, classOf c = .ordinary
  not_comment : w.head? ≠ some '#'
  not_tilde : w.head? ≠ some '~'

/-- The field such a word becomes. -/
def literal (w : List Char) : Field := w.map (·, false)

@[simp] theorem text_literal (w : List Char) : text (literal w) = w := by
  unfold text literal
  rw [List.map_map]
  exact List.map_id w

/-- A word that means itself: one the tokeniser takes as it is, and that matches no pathname but
itself. -/
structure Plain (w : List Char) : Prop where
  unspecial : Unspecial w
  fixed : Fixed (literal w)

/-- A text that means itself at the beginning of a word too; it may be empty. -/
structure Opening (t : List Char) : Prop where
  inert : AllInert t
  not_comment : t.head? ≠ some '#'
  not_tilde : t.head? ≠ some '~'

instance : DecidablePred Opening := fun t =>
  decidable_of_iff (AllInert t ∧ t.head? ≠ some '#' ∧ t.head? ≠ some '~')
    ⟨fun h => ⟨h.1, h.2.1, h.2.2⟩, fun h => ⟨h.1, h.2, h.3⟩⟩

end WinEmulator.Lib.Sh
