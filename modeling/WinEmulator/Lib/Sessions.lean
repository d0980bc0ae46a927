import Mathlib.Computability.Language

/-!
# Words of sessions, logs of switches

A session opens, goes on any number of times and closes. A log of sessions one after another, the
last of which may be under way, is the start of a word of `session∗`. It is so exactly when no
letter comes out of order (`inOrder_iff`), which is what a log that grows at its end is checked by.
-/

set_option autoImplicit false

namespace WinEmulator.Lib.Sessions

open scoped Computability

inductive Letter
  | opens
  | goesOn
  | closes
deriving DecidableEq, Repr

/-- Whether a letter is for a session that is open. -/
def Letter.needsOpen : Letter → Bool
  | .opens => false
  | .goesOn | .closes => true

/-- Whether the session is open after a letter. -/
def Letter.leavesOpen : Letter → Bool
  | .opens | .goesOn => true
  | .closes => false

/-- What a session that is open may still be. -/
def rest : Language Letter := {[.goesOn]}∗ * {[.closes]}

def session : Language Letter := {[.opens]} * rest

/-- Whether a session is open after a word. -/
def isOpen (word : List Letter) : Bool := word.foldl (fun _ letter => letter.leavesOpen) false

/-- Each letter is one that the session before it, open or not, allows. -/
def InOrder : Bool → List Letter → Prop
  | _, [] => True
  | isOpen, letter :: word => letter.needsOpen = isOpen ∧ InOrder letter.leavesOpen word

/-- The start of a word of sessions. -/
def StartOfSessions (word : List Letter) : Prop := ∃ more, word ++ more ∈ session∗

instance InOrder.decidable : ∀ isOpen word, Decidable (InOrder isOpen word)
  | _, [] => inferInstanceAs (Decidable True)
  | isOpen, letter :: word =>
    have : Decidable (InOrder letter.leavesOpen word) := InOrder.decidable letter.leavesOpen word
    inferInstanceAs (Decidable (letter.needsOpen = isOpen ∧ InOrder letter.leavesOpen word))

variable {word : List Letter} {letter : Letter}

/-! ## Words that grow at the end -/

@[simp] theorem isOpen_nil : isOpen [] = false := rfl

@[simp] theorem isOpen_snoc : isOpen (word ++ [letter]) = letter.leavesOpen := by
  simp only [isOpen, List.foldl_append, List.foldl_cons, List.foldl_nil]

/-- A word is in order when its parts are, one after the other. -/
theorem inOrder_append {start : Bool} {more : List Letter} :
    InOrder start (word ++ more) ↔
      InOrder start word ∧ InOrder (word.foldl (fun _ letter => letter.leavesOpen) start) more := by
  induction word generalizing start with
  | nil => exact (and_iff_right trivial).symm
  | cons letter word ih => simp only [List.cons_append, InOrder, ih, List.foldl_cons, and_assoc]

/-- A letter at the end must find the session as it needs it. -/
theorem inOrder_snoc :
    InOrder false (word ++ [letter]) ↔ InOrder false word ∧ letter.needsOpen = isOpen word := by
  simp only [inOrder_append, InOrder, and_true, isOpen]

/-! ## Sessions -/

/-- The rest of a session goes on, and then it closes. -/
theorem mem_rest : word ∈ rest ↔ ∃ n, word = List.replicate n .goesOn ++ [.closes] := by
  simp only [rest, Language.mem_mul, Language.mem_kstar]
  constructor
  · rintro ⟨_, ⟨parts, rfl, hparts⟩, _, rfl, rfl⟩
    have hreplicate : parts = List.replicate parts.length [Letter.goesOn] :=
      List.eq_replicate_iff.mpr ⟨rfl, hparts⟩
    refine ⟨parts.length, congrArg (· ++ [Letter.closes]) ?_⟩
    rw [hreplicate, List.length_replicate, List.flatten_replicate_singleton]
  · rintro ⟨n, rfl⟩
    refine ⟨_, ⟨List.replicate n [.goesOn], ?_, fun part hpart => List.eq_of_mem_replicate hpart⟩,
      _, rfl, rfl⟩
    rw [List.flatten_replicate_singleton]

theorem inOrder_rest {more : List Letter} (hrest : word ∈ rest) :
    InOrder true (word ++ more) ↔ InOrder false more := by
  obtain ⟨n, rfl⟩ := mem_rest.mp hrest
  induction n with
  | zero => exact and_iff_right rfl
  | succ n ih => exact (and_iff_right rfl).trans (ih (mem_rest.mpr ⟨n, rfl⟩))

/-- Sessions one after another are in order. -/
theorem inOrder_of_mem (h : word ∈ session∗) : InOrder false word := by
  obtain ⟨sessions, rfl, hsessions⟩ := Language.mem_kstar.mp h
  clear h
  induction sessions with
  | nil => trivial
  | cons first sessions ih =>
    obtain ⟨hfirst, hothers⟩ := List.forall_mem_cons.mp hsessions
    obtain ⟨_, rfl, tail, htail, rfl⟩ := Language.mem_mul.mp hfirst
    have hflat : InOrder false sessions.flatten := ih hothers
    exact ⟨rfl, (inOrder_rest htail).mpr hflat⟩

/-- A word in order is the start of sessions, or of what is left of one and sessions. -/
theorem exists_more (start : Bool) (h : InOrder start word) :
    ∃ more, word ++ more ∈ (bif start then rest * session∗ else session∗) := by
  induction word generalizing start with
  | nil =>
    cases start with
    | false => exact ⟨[], Language.nil_mem_kstar _⟩
    | true =>
      have hlast : [Letter.closes] ∈ rest := mem_rest.mpr ⟨0, rfl⟩
      exact ⟨[.closes], Language.append_mem_mul (b := []) hlast (Language.nil_mem_kstar session)⟩
  | cons letter word ih =>
    obtain ⟨rfl, hword⟩ := h
    obtain ⟨more, hmore⟩ := ih letter.leavesOpen hword
    refine ⟨more, ?_⟩
    cases letter with
    | opens =>
      obtain ⟨tail, htail, others, hothers, htailothers⟩ := Language.mem_mul.mp hmore
      obtain ⟨sessions, rfl, hsessions⟩ := Language.mem_kstar.mp hothers
      have hfirst : Letter.opens :: tail ∈ session :=
        Language.append_mem_mul (a := [Letter.opens]) rfl htail
      have hcons : ((Letter.opens :: tail) :: sessions).flatten ∈ session∗ :=
        Language.join_mem_kstar (List.forall_mem_cons.mpr ⟨hfirst, hsessions⟩)
      rw [List.cons_append, ← htailothers]
      exact hcons
    | goesOn =>
      obtain ⟨tail, htail, others, hothers, htailothers⟩ := Language.mem_mul.mp hmore
      obtain ⟨n, rfl⟩ := mem_rest.mp htail
      rw [List.cons_append, ← htailothers]
      exact Language.append_mem_mul (mem_rest.mpr ⟨n + 1, rfl⟩) hothers
    | closes =>
      have hlast : [Letter.closes] ∈ rest := mem_rest.mpr ⟨0, rfl⟩
      exact Language.append_mem_mul (a := [Letter.closes]) hlast hmore

/-- The start of a word of sessions is a word no letter of which is out of order. -/
theorem inOrder_iff : InOrder false word ↔ StartOfSessions word :=
  ⟨exists_more false, fun ⟨_, hmore⟩ => (inOrder_append.mp (inOrder_of_mem hmore)).1⟩

theorem startOfSessions_nil : StartOfSessions [] := inOrder_iff.mp trivial

/-- The same for the start of a run of sessions. -/
theorem startOfSessions_snoc :
    StartOfSessions (word ++ [letter]) ↔ StartOfSessions word ∧ letter.needsOpen = isOpen word := by
  simp only [← inOrder_iff, inOrder_snoc]

end WinEmulator.Lib.Sessions

/-! ## Switches

A log says of each entry which switch was turned on or off, the last entry first. The buttons of a
device, the keys of a keyboard and the touches of a screen are switches. -/

namespace WinEmulator.Lib.Switches

variable {Key : Type} [DecidableEq Key]

/-- Whether a switch is on after a log. -/
def isOn (key : Key) : List (Key × Bool) → Bool
  | [] => false
  | (k, on) :: log => if k = key then on else isOn key log

/-- The entries of a switch turn it on and off by turns, and on first. -/
def Alternates (key : Key) : List (Key × Bool) → Prop
  | [] => True
  | (k, on) :: log => (k = key → isOn key log = !on) ∧ Alternates key log

instance Alternates.decidable (key : Key) : ∀ log, Decidable (Alternates key log)
  | [] => inferInstanceAs (Decidable True)
  | (k, on) :: log =>
    have : Decidable (Alternates key log) := Alternates.decidable key log
    inferInstanceAs (Decidable ((k = key → isOn key log = !on) ∧ Alternates key log))

variable {key k : Key} {on : Bool} {log : List (Key × Bool)}

@[simp] theorem isOn_nil : isOn key [] = false := rfl

@[simp] theorem isOn_cons_self : isOn key ((key, on) :: log) = on := if_pos rfl

theorem isOn_cons_of_ne (h : k ≠ key) : isOn key ((k, on) :: log) = isOn key log := if_neg h

@[simp] theorem alternates_nil : Alternates key [] := trivial

theorem alternates_cons_self :
    Alternates key ((key, on) :: log) ↔ isOn key log = !on ∧ Alternates key log := by
  simp only [Alternates, true_imp_iff]

theorem alternates_cons_of_ne (h : k ≠ key) :
    Alternates key ((k, on) :: log) ↔ Alternates key log := by
  simp only [Alternates, h, false_imp_iff, true_and]

end WinEmulator.Lib.Switches
