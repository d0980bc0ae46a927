import Mathlib.Data.List.Sort

/-!
# Pathname expansion

Patterns of the POSIX shell and the pathnames they match: asterisks, question marks and bracket
expressions, a component of the path at a time. A left bracket that no right one closes before the
end of the component means itself, and so does a quoted character.

Ranges and character classes are those of the POSIX locale. Where POSIX leaves a choice, the one of
Android's shell is taken: a circumflex is an ordinary member of a bracket expression, a period at
the beginning of a name is matched by a period only, and the entries dot and dot-dot of a directory
by no pattern.
-/

set_option autoImplicit false

namespace WinEmulator.Lib.Sh

/-- A character of a field, and whether it was quoted. -/
abbrev Piece := Char × Bool

abbrev Field := List Piece

/-- Quote removal. -/
def text (f : Field) : List Char := f.map Prod.fst

/-! ## Bracket expressions -/

inductive Member
  | char (c : Char)
  | range (lo hi : Char)
  | ofClass (name : List Char)

/-- The character classes of the POSIX locale. -/
def charClasses : List (String × (Char → Bool)) :=
  [("alpha", Char.isAlpha), ("digit", Char.isDigit), ("alnum", Char.isAlphanum),
    ("upper", Char.isUpper),
    ("lower", Char.isLower), ("blank", fun c => c = ' ' || c = '\t'),
    ("space", fun c => c = ' ' || (0x09 ≤ c.toNat && c.toNat ≤ 0x0d)),
    ("cntrl", fun c => c.toNat < 0x20 || c.toNat = 0x7f),
    ("print", fun c => 0x20 ≤ c.toNat && c.toNat < 0x7f),
      ("graph", fun c => 0x20 < c.toNat && c.toNat < 0x7f),
    ("punct", fun c => 0x20 < c.toNat && c.toNat < 0x7f && !c.isAlphanum),
    ("xdigit", fun c => c.isDigit || c ∈ "abcdefABCDEF".toList)]

def Member.holds : Member → Char → Bool
  | .char c, d => c = d
  | .range lo hi, d => lo.toNat ≤ d.toNat && d.toNat ≤ hi.toNat
  | .ofClass name, d => charClasses.any fun k => k.1.toList = name && k.2 d

/-- What stands before the closing `:]`, `.]` or `=]`, and what after it. -/
def upTo (d : Char) : Field → Option (List Char × Field)
  | p :: q :: f =>
    if p = (d, false) ∧ q = (']', false) then some ([], f)
    else (upTo d (q :: f)).map fun r => (p.1 :: r.1, r.2)
  | _ => none

/-- A collating symbol and an equivalence class are one character in the POSIX locale. -/
def collating : List Char → Member
  | [c] => .char c
  | name => .ofClass name

/-- A member that is no range, and what follows it. -/
def item : Field → Option (Member × Field)
  | [] => none
  | p :: f =>
    let other := some (Member.char p.1, f)
    match f with
    | (d, false) :: f' =>
      if p = ('[', false) then
        if d = ':' then ((upTo d f').map fun r => (Member.ofClass r.1, r.2)).or other
        else if d = '.' ∨ d = '=' then ((upTo d f').map fun r => (collating r.1, r.2)).or other
        else other
      else other
    | _ => other

/-- A member. A hyphen makes a range unless it is the last one. -/
def member (f : Field) : Option (Member × Field) :=
  (item f).map fun r =>
    match r.1, r.2 with
    | .char lo, ('-', false) :: f' =>
      if f'.head? = some (']', false) then r
      else
        match item f' with
        | some (.char hi, f'') => (.range lo hi, f'')
        | _ => r
    | _, _ => r

/-- The members up to the right bracket. The number bounds how many there are; the first one may be
a right bracket itself. -/
def members : Nat → Field → Option (List Member × Field)
  | 0, _ => none
  | n + 1, f =>
    (member f).bind fun r =>
      if r.2.head? = some (']', false) then some ([r.1], r.2.tail)
      else (members n r.2).map fun rest => (r.1 :: rest.1, rest.2)

/-! ## Patterns -/

/-- What an element of a pattern matches. -/
inductive Elem
  | char (c : Char)
  | one
  | many
  | bracket (negated : Bool) (ms : List Member)

/-- What follows a left bracket; `none` if nothing closes it. -/
def bracket (f : Field) : Option (Elem × Field) :=
  let negated : Bool := f.head? = some ('!', false)
  let inside := if negated then f.tail else f
  (members inside.length inside).map fun r => (.bracket negated r.1, r.2)

def elemsWith : Nat → Field → List Elem
  | _, [] => []
  | 0, _ => []
  | n + 1, p :: f =>
    if p = ('*', false) then .many :: elemsWith n f
    else if p = ('?', false) then .one :: elemsWith n f
    else if p = ('[', false) then
      match bracket f with
      | some (e, f') => e :: elemsWith n f'
      | none => .char '[' :: elemsWith n f
    else .char p.1 :: elemsWith n f

/-- The elements of a component of a pattern. -/
def elems (f : Field) : List Elem := elemsWith f.length f

def Elem.isChar : Elem → Bool
  | .char _ => true
  | _ => false

/-- Whether an element that stands for one character stands for this one. -/
def Elem.takes : Elem → Char → Bool
  | .char c, d => c = d
  | .one, _ => true
  | .many, _ => false
  | .bracket negated ms, d => (ms.any (·.holds d)) != negated

def accepts : List Elem → List Char → Bool
  | [], n => n.isEmpty
  | .many :: es, n => n.tails.any fun t => accepts es t
  | e :: es, n =>
    match n with
    | [] => false
    | d :: ds => e.takes d && accepts es ds

/-- A component in which nothing has a meaning of its own. -/
def isLiteral (f : Field) : Bool := (elems f).all Elem.isChar

/-- Whether a name matches a component of a pattern. -/
def nameMatches (f : Field) (n : List Char) : Bool :=
  (n.head? ≠ some '.' || f.head?.any (·.1 = '.')) && accepts (elems f) n

/-! ## Pathnames -/

/-- A name a directory may hold, without dot and dot-dot. -/
def IsName (n : List Char) : Prop := n ≠ [] ∧ n ≠ ['.'] ∧ n ≠ ['.', '.'] ∧ '/' ∉ n

instance : DecidablePred IsName := fun n =>
  inferInstanceAs (Decidable (n ≠ [] ∧ n ≠ ['.'] ∧ n ≠ ['.', '.'] ∧ '/' ∉ n))

/-- The files there are. A directory is named by the text in front of the names in it, so by nothing
or by a text that ends with a slash. -/
structure Files where
  /-- The names in a directory; nothing where it cannot be read. -/
  names : List Char → List (List Char)
  exists_ : List Char → Bool
  isName : ∀ p, ∀ n ∈ names p, IsName n
  nodup : ∀ p, (names p).Nodup

def components (f : Field) : List Field := f.splitOnP (·.1 = '/')

/-- The names in a directory that match. -/
def Files.matching (files : Files) (p : List Char) (f : Field) : List (List Char) :=
  (files.names p).filter (nameMatches f)

/-- The pathnames that begin with a text and go on with what the components match. -/
def expandFrom (files : Files) : List Char → List Field → List (List Char)
  | _, [] => []
  | p, [f] =>
    if isLiteral f then if files.exists_ (p ++ text f) then [p ++ text f] else []
    else (files.matching p f).map (p ++ ·)
  | p, f :: f' :: fs =>
    if isLiteral f then expandFrom files (p ++ text f ++ ['/']) (f' :: fs)
    else (files.matching p f).flatMap fun n => expandFrom files (p ++ n ++ ['/']) (f' :: fs)

/-- The order of the POSIX locale. -/
def collates : List Char → List Char → Bool
  | [], _ => true
  | _ :: _, [] => false
  | c :: cs, d :: ds => if c = d then collates cs ds else c.toNat < d.toNat

/-- The pathnames a field matches, in order. -/
def pathnames (files : Files) (f : Field) : List (List Char) :=
  (expandFrom files [] (components f)).insertionSort fun p q => collates p q = true

/-- Pathname expansion: a field becomes the pathnames it matches, and stays if there are none. -/
def globbed (files : Files) (f : Field) : List (List Char) :=
  match pathnames files f with
  | [] => [text f]
  | names => names

end WinEmulator.Lib.Sh
