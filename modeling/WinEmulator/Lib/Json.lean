import Mathlib.Data.List.Basic

/-!
# JSON objects of strings

The text of an object whose values are strings, lists of strings and bare literals such as `true` or
`-12`: a printer that leaves out all white space and escapes what has to be, and a reader of what it
prints (`read_print`). What is printed is one line in braces (`line_printBody`).
-/

set_option autoImplicit false

namespace WinEmulator.Lib.Json

inductive Value
  | string (s : List Char)
  | strings (ss : List (List Char))
  | literal (cs : List Char)
deriving DecidableEq

abbrev Member := List Char × Value

/-! ## The printer -/

def hexDigit (n : Nat) : Char := if n < 10 then Char.ofNat (48 + n) else Char.ofNat (87 + n)

def escapeChar (c : Char) : List Char :=
  if c = '"' then ['\\', '"']
  else if c = '\\' then ['\\', '\\']
  else if c = '\t' then ['\\', 't']
  else if c = '\n' then ['\\', 'n']
  else if c = '\r' then ['\\', 'r']
  else if c = Char.ofNat 8 then ['\\', 'b']
  else if c = Char.ofNat 12 then ['\\', 'f']
  else if c.toNat < 0x20 then
    ['\\', 'u', '0', '0', hexDigit (c.toNat / 16), hexDigit (c.toNat % 16)]
  else [c]

def printString (s : List Char) : List Char := '"' :: (s.flatMap escapeChar ++ ['"'])

/-- The strings of a list that has begun, each after a comma, and the bracket. -/
def printTail : List (List Char) → List Char
  | [] => [']']
  | s :: ss => ',' :: (printString s ++ printTail ss)

def printStrings : List (List Char) → List Char
  | [] => ['[', ']']
  | s :: ss => '[' :: (printString s ++ printTail ss)

def printValue : Value → List Char
  | .string s => printString s
  | .strings ss => printStrings ss
  | .literal cs => cs

def printMember (m : Member) : List Char := printString m.1 ++ ':' :: printValue m.2

/-- What stands before the brace that closes. -/
def printBody : List Member → List Char
  | [] => []
  | m :: ms => printMember m ++ ms.flatMap fun m => ',' :: printMember m

def print (ms : List Member) : List Char := '{' :: (printBody ms ++ ['}'])

/-! ## The reader -/

def hexValue (c : Char) : Option Nat :=
  if '0' ≤ c ∧ c ≤ '9' then some (c.toNat - 48) else if 'a' ≤ c ∧
    c ≤ 'f' then some (c.toNat - 87) else none

def unescape (c : Char) : Option Char :=
  if c = '"' ∨ c = '\\' ∨ c = '/' then some c
  else if c = 't' then some '\t'
  else if c = 'n' then some '\n'
  else if c = 'r' then some '\r'
  else if c = 'b' then some (Char.ofNat 8)
  else if c = 'f' then some (Char.ofNat 12)
  else none

def ofHex (a b c d : Char) : Option Char :=
  (hexValue a).bind fun a => (hexValue b).bind fun b => (hexValue c).bind fun c =>
      (hexValue d).map fun d =>
    Char.ofNat (((a * 16 + b) * 16 + c) * 16 + d)

/-- A string after its opening quote, and what follows. -/
def readString : List Char → Option (List Char × List Char)
  | [] => none
  | '"' :: cs => some ([], cs)
  | '\\' :: 'u' :: a :: b :: c :: d :: cs =>
    (ofHex a b c d).bind fun ch => (readString cs).map fun (s, rest) => (ch :: s, rest)
  | '\\' :: e :: cs =>
    (unescape e).bind fun ch => (readString cs).map fun (s, rest) => (ch :: s, rest)
  | c :: cs => (readString cs).map fun (s, rest) => (c :: s, rest)

/-- With so many strings at most. -/
def readTail : Nat → List Char → Option (List (List Char) × List Char)
  | _, ']' :: cs => some ([], cs)
  | n + 1, ',' :: '"' :: cs =>
    (readString cs).bind fun (s, rest) => (readTail n rest).map fun (ss, rest) => (s :: ss, rest)
  | _, _ => none

def readStrings (n : Nat) : List Char → Option (List (List Char) × List Char)
  | ']' :: cs => some ([], cs)
  | '"' :: cs =>
    (readString cs).bind fun (s, rest) => (readTail n rest).map fun (ss, rest) => (s :: ss, rest)
  | _ => none

/-- A character of a literal. -/
def isLiteral (c : Char) : Bool := c.isAlphanum || c = '-' || c = '+' || c = '.'

def readValue (n : Nat) : List Char → Option (Value × List Char)
  | '"' :: cs => (readString cs).map fun (s, rest) => (.string s, rest)
  | '[' :: cs => (readStrings n cs).map fun (ss, rest) => (.strings ss, rest)
  | cs =>
    if cs.takeWhile isLiteral = [] then none
    else some (.literal (cs.takeWhile isLiteral), cs.dropWhile isLiteral)

def readMember (n : Nat) : List Char → Option (Member × List Char)
  | '"' :: cs =>
    (readString cs).bind fun (key, rest) =>
      match rest with
      | ':' :: rest => (readValue n rest).map fun (value, rest) => ((key, value), rest)
      | _ => none
  | _ => none

/-- The members of an object that has begun. -/
def readMembers (n : Nat) : Nat → List Char → Option (List Member)
  | _, ['}'] => some []
  | k + 1, ',' :: cs => (readMember n cs).bind fun (m, rest) => (readMembers n k rest).map (m :: ·)
  | _, _ => none

def read (text : List Char) : Option (List Member) :=
  match text with
  | ['{', '}'] => some []
  | '{' :: cs =>
    (readMember text.length cs).bind fun (m, rest) =>
      (readMembers text.length text.length rest).map (m :: ·)
  | _ => none

/-! ## What is printed is read -/

variable {s rest : List Char}

/-- An escaped character is read back. -/
theorem readString_escapeChar (c : Char) (cs : List Char) :
    readString (escapeChar c ++ cs) = (readString cs).map fun (s, rest) => (c :: s, rest) := by
  unfold escapeChar
  split
  case isTrue h =>
    subst h
    rfl
  split
  case isTrue h =>
    subst h
    rfl
  split
  case isTrue h =>
    subst h
    rfl
  split
  case isTrue h =>
    subst h
    rfl
  split
  case isTrue h =>
    subst h
    rfl
  split
  case isTrue h =>
    subst h
    rfl
  split
  case isTrue h =>
    subst h
    rfl
  split
  case isTrue hlt =>
    have hdigits :
        ∀ n < 32, ofHex '0' '0' (hexDigit (n / 16)) (hexDigit (n % 16)) =
          some (Char.ofNat n) := by decide
    have hc := hdigits c.toNat hlt
    rw [Char.ofNat_toNat] at hc
    simp only [List.cons_append, List.nil_append, readString, hc, Option.bind_some]
  case isFalse hquote hslash _ _ _ _ _ _ =>
    rw [List.singleton_append, readString]
    all_goals simp_all

/-- So is a printed string. -/
theorem readString_printed (s rest : List Char) :
    readString (s.flatMap escapeChar ++ '"' :: rest) = some (s, rest) := by
  induction s with
  | nil => rfl
  | cons c s ih =>
    rw [List.flatMap_cons, List.append_assoc, readString_escapeChar, ih, Option.map_some]

/-- A literal has to be one. -/
def Value.Printable : Value → Prop
  | .string _ | .strings _ => True
  | .literal cs => cs ≠ [] ∧ ∀ c ∈ cs, isLiteral c = true

/-- How many strings a value is made of. -/
def Value.size : Value → Nat
  | .string _ | .literal _ => 0
  | .strings ss => ss.length

/-- What follows a value. -/
def Follows (rest : List Char) : Prop := ∃ c cs, rest = c :: cs ∧ isLiteral c = false

theorem printString_append (s rest : List Char) :
    printString s ++ rest = '"' :: (s.flatMap escapeChar ++ '"' :: rest) := by
  simp [printString]

theorem readTail_print {n : Nat} {ss : List (List Char)} (hn : ss.length ≤ n) :
    readTail n (printTail ss ++ rest) = some (ss, rest) := by
  induction ss generalizing n with
  | nil => cases n <;> rfl
  | cons s ss ih =>
    cases n with
    | zero => exact absurd hn (Nat.not_succ_le_zero _)
    | succ n =>
      rw [printTail, List.cons_append, List.append_assoc, printString_append, readTail,
        readString_printed,
        Option.bind_some]
      show (readTail n (printTail ss ++ rest)).map _ = _
      rw [ih (Nat.le_of_succ_le_succ hn)]
      rfl

/-- So is a printed array of strings. -/
theorem readStrings_print (rest : List Char) {n : Nat} {ss : List (List Char)}
    (hn : ss.length ≤ n) :
    ∃ cs, printStrings ss ++ rest = '[' :: cs ∧ readStrings n cs = some (ss, rest) := by
  cases ss with
  | nil => exact ⟨']' :: rest, rfl, rfl⟩
  | cons s ss =>
    refine ⟨'"' :: (s.flatMap escapeChar ++ '"' :: (printTail ss ++ rest)), ?_, ?_⟩
    · rw [printStrings, List.cons_append, List.append_assoc, printString_append]
    · rw [readStrings, readString_printed, Option.bind_some]
      show (readTail n (printTail ss ++ rest)).map _ = _
      rw [readTail_print (Nat.le_of_succ_le hn)]
      rfl

theorem readValue_literal {n : Nat} {cs : List Char} (hvalue : (Value.literal cs).Printable)
    (hrest : Follows rest) :
    readValue n (cs ++ rest) = some (.literal cs, rest) := by
  obtain ⟨hnonempty, hall⟩ := hvalue
  obtain ⟨next, after, rfl, hnext⟩ := hrest
  have htake : (cs ++ next :: after).takeWhile isLiteral = cs := by
    rw [List.takeWhile_append_of_pos hall, List.takeWhile_cons_of_neg (by simp [hnext]),
      List.append_nil]
  have hdrop : (cs ++ next :: after).dropWhile isLiteral = next :: after := by
    rw [List.dropWhile_append_of_pos hall, List.dropWhile_cons_of_neg (by simp [hnext])]
  obtain ⟨c, cs, rfl⟩ := List.exists_cons_of_ne_nil hnonempty
  have hfirst : isLiteral c = true := hall c List.mem_cons_self
  unfold readValue
  split
  case h_1 heq =>
    rw [(List.cons.inj heq).1] at hfirst
    exact absurd hfirst (by decide)
  case h_2 heq =>
    rw [(List.cons.inj heq).1] at hfirst
    exact absurd hfirst (by decide)
  case h_3 =>
    rw [htake, hdrop, if_neg hnonempty]

/-- So is a printed value. -/
theorem readValue_print {n : Nat} {value : Value} (hvalue : value.Printable) (hn : value.size ≤ n)
    (hrest : Follows rest) :
    readValue n (printValue value ++ rest) = some (value, rest) := by
  cases value with
  | string s =>
    rw [printValue, printString_append, readValue, readString_printed]
    rfl
  | strings ss =>
    obtain ⟨cs, hprint, hread⟩ := readStrings_print rest hn
    rw [printValue, hprint, readValue, hread]
    rfl
  | literal cs => exact readValue_literal hvalue hrest

/-- So is a printed member. -/
theorem readMember_print {n : Nat} {m : Member} (hvalue : m.2.Printable) (hn : m.2.size ≤ n)
    (hrest : Follows rest) :
    readMember n (printMember m ++ rest) = some (m, rest) := by
  rw [printMember, List.append_assoc, List.cons_append, printString_append, readMember,
    readString_printed,
    Option.bind_some]
  show (readValue n (printValue m.2 ++ rest)).map _ = _
  rw [readValue_print hvalue hn hrest]
  rfl

theorem follows_printed (ms : List Member) :
    Follows ((ms.flatMap fun m => ',' :: printMember m) ++ ['}']) := by
  cases ms with
  | nil => exact ⟨'}', [], rfl, by decide⟩
  | cons m ms => exact ⟨',', _, rfl, by decide⟩

/-- So are the members, one after the other. -/
theorem readMembers_print {n k : Nat} {ms : List Member}
    (hvalues : ∀ m ∈ ms, m.2.Printable ∧ m.2.size ≤ n)
    (hk : ms.length ≤ k) :
    readMembers n k ((ms.flatMap fun m => ',' :: printMember m) ++ ['}']) = some ms := by
  induction ms generalizing k with
  | nil => cases k <;> rfl
  | cons m ms ih =>
    obtain ⟨⟨hvalue, hn⟩, hrest⟩ := List.forall_mem_cons.mp hvalues
    cases k with
    | zero => exact absurd hk (Nat.not_succ_le_zero _)
    | succ k =>
      rw [List.flatMap_cons, List.cons_append, List.cons_append, List.append_assoc, readMembers,
        readMember_print hvalue hn (follows_printed ms), Option.bind_some]
      show (readMembers n k ((ms.flatMap fun m => ',' :: printMember m) ++ ['}'])).map _ = _
      rw [ih hrest (Nat.le_of_succ_le_succ hk)]
      rfl

/-! ### The text is long enough -/

theorem length_le_printTail (ss : List (List Char)) : ss.length ≤ (printTail ss).length := by
  induction ss with
  | nil => exact Nat.zero_le _
  | cons s ss ih =>
    simp only [printTail, List.length_cons, List.length_append]
    omega

theorem size_le_printMember (m : Member) : m.2.size ≤ (printMember m).length := by
  obtain ⟨key, value⟩ := m
  cases value with
  | string s => exact Nat.zero_le _
  | literal cs => exact Nat.zero_le _
  | strings ss =>
    cases ss with
    | nil => exact Nat.zero_le _
    | cons s ss =>
      have hle := length_le_printTail ss
      simp only [Value.size, printMember, printValue, printStrings, List.length_cons,
        List.length_append]
      omega

/-- The text that is read is long enough for the bounds of the reader. -/
theorem printed_long_enough (ms : List Member) :
    ms.length ≤ (ms.flatMap fun m => ',' :: printMember m).length ∧
      ∀ m ∈ ms, m.2.size ≤ (ms.flatMap fun m => ',' :: printMember m).length := by
  induction ms with
  | nil => exact ⟨Nat.le_refl 0, fun m hm => absurd hm List.not_mem_nil⟩
  | cons m ms ih =>
    obtain ⟨hlength, hsizes⟩ := ih
    have hm := size_le_printMember m
    simp only [List.flatMap_cons, List.length_cons, List.length_append]
    refine ⟨by omega, fun other hother => ?_⟩
    rcases List.mem_cons.mp hother with rfl | hin
    · omega
    · have := hsizes other hin
      omega

/-- **What is printed is read back.** -/
theorem read_print {ms : List Member} (hvalues : ∀ m ∈ ms, m.2.Printable) :
    read (print ms) = some ms := by
  cases ms with
  | nil => rfl
  | cons m ms =>
    obtain ⟨hfirst, hrest⟩ := List.forall_mem_cons.mp hvalues
    obtain ⟨hlength, hsizes⟩ := printed_long_enough ms
    have hsize := size_le_printMember m
    have hprint :
        print (m :: ms) =
          '{' :: (printMember m ++ ((ms.flatMap fun m => ',' :: printMember m) ++ ['}'])) := by
      simp [print, printBody]
    have htotal : (print (m :: ms)).length =
        (printMember m).length + (ms.flatMap fun m => ',' :: printMember m).length + 2 := by
      rw [hprint]
      simp only [List.length_cons, List.length_append, List.length_nil]
      omega
    unfold read
    split
    case h_1 heq =>
      rw [heq] at hprint
      exact absurd (List.cons.inj hprint).2 (by simp [printMember, printString])
    case h_2 cs _ heq =>
      rw [hprint] at heq
      obtain rfl := (List.cons.inj heq).2
      generalize (print (m :: ms)).length = n at htotal ⊢
      rw [readMember_print hfirst (by omega) (follows_printed ms), Option.bind_some]
      show (readMembers n n ((ms.flatMap fun m => ',' :: printMember m) ++ ['}'])).map _ = _
      rw [readMembers_print (fun other hother => ⟨hrest other hother, ?_⟩) (by omega)]
      · rfl
      · have := hsizes other hother
        omega
    case h_3 hbrace => exact absurd hprint (hbrace _)

/-! ## The characters of what is printed -/

section Characters

variable {Q : Char → Prop}

/-- All characters of a string as it is printed satisfy `Q`, and all of a literal. -/
def Value.Within (Q : Char → Prop) : Value → Prop
  | .string s => ∀ c ∈ s.flatMap escapeChar, Q c
  | .strings ss => ∀ s ∈ ss, ∀ c ∈ s.flatMap escapeChar, Q c
  | .literal cs => ∀ c ∈ cs, Q c

/-- Over a list, and not over all characters, `decide` has few cases. -/
theorem forall_mem_of_all [DecidablePred Q] {cs : List Char} (h : (cs.all fun c => Q c) = true) :
    ∀ c ∈ cs, Q c := by
  simpa using h

/-- Escaping brings in only ASCII. -/
theorem ascii_or_eq_of_mem_escapeChar {c d : Char} (h : d ∈ escapeChar c) :
    d.toNat < 0x80 ∨ d = c := by
  have hdigit : ∀ n < 16, (hexDigit n).toNat < 0x80 := by decide
  have hascii :
      ∀ {cs : List Char}, (cs.all fun c => c.toNat < 0x80) = true → d ∈ cs → d.toNat < 0x80 ∨
        d = c :=
    fun hall hd => .inl (forall_mem_of_all hall d hd)
  unfold escapeChar at h
  split at h
  · exact hascii (by decide) h
  split at h
  · exact hascii (by decide) h
  split at h
  · exact hascii (by decide) h
  split at h
  · exact hascii (by decide) h
  split at h
  · exact hascii (by decide) h
  split at h
  · exact hascii (by decide) h
  split at h
  · exact hascii (by decide) h
  split at h
  case isTrue hlt =>
    have hhigh := hdigit (c.toNat / 16) (by omega)
    have hlow := hdigit (c.toNat % 16) (by omega)
    simp only [List.mem_cons, List.not_mem_nil, or_false] at h
    rcases h with rfl | rfl | rfl | rfl | rfl | rfl
    · exact .inl (by decide)
    · exact .inl (by decide)
    · exact .inl (by decide)
    · exact .inl (by decide)
    · exact .inl hhigh
    · exact .inl hlow
  case isFalse => exact .inr (List.mem_singleton.mp h)

/-- The characters of the syntax. -/
def punctuation : List Char := ['"', ',', ':', '[', ']']

theorem forall_mem_printString (hpunct : ∀ c ∈ punctuation, Q c) {s : List Char}
    (h : ∀ c ∈ s.flatMap escapeChar, Q c) :
    ∀ c ∈ printString s, Q c := by
  have hquote : Q '"' := hpunct '"' (by decide)
  refine List.forall_mem_cons.mpr ⟨hquote, List.forall_mem_append.mpr ⟨h, ?_⟩⟩
  exact List.forall_mem_singleton.mpr hquote

theorem forall_mem_printTail (hpunct : ∀ c ∈ punctuation, Q c) {ss : List (List Char)}
    (h : ∀ s ∈ ss, ∀ c ∈ s.flatMap escapeChar, Q c) : ∀ c ∈ printTail ss, Q c := by
  induction ss with
  | nil => exact List.forall_mem_singleton.mpr (hpunct ']' (by decide))
  | cons s ss ih =>
    obtain ⟨hfirst, hrest⟩ := List.forall_mem_cons.mp h
    refine List.forall_mem_cons.mpr
      ⟨hpunct ',' (by decide), List.forall_mem_append.mpr ⟨?_, ih hrest⟩⟩
    exact forall_mem_printString hpunct hfirst

theorem forall_mem_printMember (hpunct : ∀ c ∈ punctuation, Q c) {m : Member}
    (hkey : ∀ c ∈ m.1.flatMap escapeChar, Q c) (hvalue : m.2.Within Q) :
    ∀ c ∈ printMember m, Q c := by
  refine List.forall_mem_append.mpr ⟨forall_mem_printString hpunct hkey, ?_⟩
  refine List.forall_mem_cons.mpr ⟨hpunct ':' (by decide), ?_⟩
  obtain ⟨key, value⟩ := m
  cases value with
  | string s => exact forall_mem_printString hpunct hvalue
  | literal cs => exact hvalue
  | strings ss =>
    cases ss with
    | nil =>
      exact List.forall_mem_cons.mpr
        ⟨hpunct '[' (by decide), List.forall_mem_singleton.mpr (hpunct ']' (by decide))⟩
    | cons s ss =>
      obtain ⟨hfirst, hrest⟩ := List.forall_mem_cons.mp hvalue
      refine List.forall_mem_cons.mpr ⟨hpunct '[' (by decide), List.forall_mem_append.mpr ⟨?_, ?_⟩⟩
      · exact forall_mem_printString hpunct hfirst
      · exact forall_mem_printTail hpunct hrest

/-- Between its braces, what is printed has only characters that those of strings and literals are
printed as, and those of the syntax. -/
theorem forall_mem_printBody (hpunct : ∀ c ∈ punctuation, Q c) {ms : List Member}
    (h : ∀ m ∈ ms, (∀ c ∈ m.1.flatMap escapeChar, Q c) ∧ m.2.Within Q) :
    ∀ c ∈ printBody ms, Q c := by
  have hmember : ∀ m ∈ ms, ∀ c ∈ printMember m, Q c := fun m hm =>
    forall_mem_printMember hpunct (h m hm).1 (h m hm).2
  cases ms with
  | nil => exact nofun
  | cons m ms =>
    obtain ⟨hfirst, hrest⟩ := List.forall_mem_cons.mp hmember
    refine List.forall_mem_append.mpr ⟨hfirst, fun c hc => ?_⟩
    obtain ⟨other, hother, hin⟩ := List.mem_flatMap.mp hc
    exact List.forall_mem_cons.mpr ⟨hpunct ',' (by decide), hrest other hother⟩ c hin

end Characters

/-! ## What is printed is one line -/

def Line (cs : List Char) : Prop := ∀ c ∈ cs, c ≠ '\n' ∧ c ≠ '\r'

theorem line_append {as bs : List Char} : Line (as ++ bs) ↔ Line as ∧ Line bs :=
  List.forall_mem_append

theorem line_cons {c : Char} {cs : List Char} : Line (c :: cs) ↔ (c ≠ '\n' ∧ c ≠ '\r') ∧ Line cs :=
  List.forall_mem_cons

/-- Escaped text has no line break. -/
theorem line_escapeChar (c : Char) : Line (escapeChar c) := by
  have hdigit : ∀ n < 16, hexDigit n ≠ '\n' ∧ hexDigit n ≠ '\r' := by decide
  unfold escapeChar
  split
  · simp [Line]
  split
  · simp [Line]
  split
  · simp [Line]
  split
  · simp [Line]
  case isFalse hnewline =>
    split
    · simp [Line]
    case isFalse hreturn =>
      split
      · simp [Line]
      split
      · simp [Line]
      split
      case isTrue hlt =>
        simp [Line, hdigit (c.toNat / 16) (by omega), hdigit (c.toNat % 16) (by omega)]
      case isFalse => simp [Line, hnewline, hreturn]

theorem line_escaped (s : List Char) : Line (s.flatMap escapeChar) := fun c hc => by
  obtain ⟨other, -, hin⟩ := List.mem_flatMap.mp hc
  exact line_escapeChar other c hin

/-- A literal has no line end. -/
theorem line_of_isLiteral {cs : List Char} (h : ∀ c ∈ cs, isLiteral c = true) : Line cs := by
  intro c hc
  constructor
  · intro hnewline
    exact absurd (h c hc) (by rw [hnewline]; decide)
  · intro hreturn
    exact absurd (h c hc) (by rw [hreturn]; decide)

/-- Between its braces, what is printed is one line. -/
theorem line_printBody {ms : List Member} (hvalues : ∀ m ∈ ms, m.2.Printable) :
    Line (printBody ms) := by
  refine forall_mem_printBody (forall_mem_of_all (by decide)) fun m hm => ⟨line_escaped m.1, ?_⟩
  have hvalue := hvalues m hm
  obtain ⟨key, value⟩ := m
  cases value with
  | string s => exact line_escaped s
  | literal cs => exact line_of_isLiteral hvalue.2
  | strings ss => exact fun s _ => line_escaped s

end WinEmulator.Lib.Json
