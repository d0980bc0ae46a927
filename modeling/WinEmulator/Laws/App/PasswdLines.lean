import Mathlib.Data.List.ReduceOption
import WinEmulator.App.ProotRootfs

/-!
# The lines of `/etc/passwd`

A line that is not of seven fields, or has a user that is left out, is passed over. A line of seven
fields with no number where one is read is an exception, and with it every other line is lost.
-/

set_option autoImplicit false

namespace WinEmulator.App.ProotRootfs

variable {digit : Char → Option Nat} {lines : List Text} {line : Text}

/-! ## What is to hold -/

/-- The user of a line; a line without one is malformed, or its user is not shown. -/
def userOf (digit : Char → Option Nat) (line : Text) : Option UserInfo :=
  match line.splitOn ':' with
  | [name, _, uid, gid, _, home, shell] =>
    (toLong digit uid).bind fun uid => (toLong digit gid).bind fun gid =>
      if (uid = 0 ∨ 1000 ≤ uid) ∧ uid ≠ 65534 ∧ ¬ "aid_".toList.isPrefixOf name then
        some ⟨name, uid, gid, home, shell⟩
      else none
  | _ => none

def users (digit : Char → Option Nat) (lines : List Text) : List UserInfo :=
  lines.filterMap (userOf digit)

/-- The users of all lines, and root. -/
def expected (digit : Char → Option Nat) (lines : List Text) : List UserInfo :=
  users digit lines ++ if ∃ info ∈ users digit lines, info.name = "root".toList then [] else [.ROOT]

/-- By name. -/
def Ordered (infos : List UserInfo) : Prop :=
  infos.Pairwise fun a b => compareLe a.name b.name = true

/-- Exactly these users are returned, in order. -/
def ListsUsers (digit : Char → Option Nat) (lines : List Text) : Prop :=
  Ordered (getUserInfos digit (some lines)) ∧
    (getUserInfos digit (some lines)).Perm (expected digit lines)

/-- A line of seven fields whose user ID is no number, or is one of a user to be listed whose group
ID is none. -/
def Unreadable (digit : Char → Option Nat) (line : Text) : Prop :=
  ∃ name password uid gid comment home shell,
    line.splitOn ':' = [name, password, uid, gid, comment, home, shell] ∧
    (toLong digit uid = none ∨
      ∃ n, toLong digit uid = some n ∧ (n = 0 ∨ 1000 ≤ n) ∧ n ≠ 65534 ∧ toLong digit gid = none)

/-- There is no one but root to be lost. -/
def OnlyRoot (digit : Char → Option Nat) (lines : List Text) : Prop :=
  users digit lines = [] ∨ users digit lines = [.ROOT]

/-! ## One line -/

/-- What `getUserInfos` shows of what it has read. -/
def Shown (info : UserInfo) : Bool := !("aid_".toList.isPrefixOf info.name)

/-- The lines of seven fields that make the parser throw. -/
theorem unreadable_iff {name password uid gid comment home shell : Text}
    (hsplit : line.splitOn ':' = [name, password, uid, gid, comment, home, shell]) :
    Unreadable digit line ↔ toLong digit uid = none ∨
      ∃ n, toLong digit uid = some n ∧ (n = 0 ∨ 1000 ≤ n) ∧ n ≠ 65534 ∧
        toLong digit gid = none := by
  constructor
  · rintro ⟨_, _, _, _, _, _, _, heq, hno⟩
    rw [hsplit] at heq
    obtain ⟨-, -, rfl, rfl, -⟩ : _ ∧ _ ∧ uid = _ ∧ gid = _ ∧ _ := by simpa using heq
    exact hno
  · exact fun hno => ⟨_, _, _, _, _, _, _, hsplit, hno⟩

/-- A line is an exception, or gives its user or none. -/
theorem parseLine_spec (digit : Char → Option Nat) (line : Text) :
    Unreadable digit line ∧ parseLine digit line = none ∨
      ¬ Unreadable digit line ∧ ∃ info, parseLine digit line = some info ∧
        userOf digit line = info.filter Shown := by
  by_cases hseven : ∃ name password uid gid comment home shell,
      line.splitOn ':' = [name, password, uid, gid, comment, home, shell]
  · obtain ⟨name, password, uid, gid, comment, home, shell, hsplit⟩ := hseven
    rw [unreadable_iff hsplit]
    simp only [parseLine, userOf, hsplit]
    cases huid : toLong digit uid with
    | none => exact .inl ⟨.inl rfl, rfl⟩
    | some n =>
      simp only [Option.bind_some, reduceCtorEq, false_or, Option.some.injEq, exists_eq_left']
      by_cases hrange : (n = 0 ∨ 1000 ≤ n) ∧ n ≠ 65534
      · rw [if_neg (by omega), if_neg hrange.2]
        cases hgid : toLong digit gid with
        | none => exact .inl ⟨⟨hrange.1, hrange.2, rfl⟩, rfl⟩
        | some m =>
          refine .inr ⟨fun hno => absurd hno.2.2 nofun, _, rfl, ?_⟩
          rw [Option.bind_some, Option.filter_some]
          refine if_congr ?_ rfl rfl
          rw [Shown, Bool.not_eq_true', Bool.not_eq_true, ← and_assoc]
          exact and_iff_right hrange
      · have hnone : ((toLong digit gid).bind fun gid =>
            if (n = 0 ∨ 1000 ≤ n) ∧ n ≠ 65534 ∧ ¬ "aid_".toList.isPrefixOf name then
              some (UserInfo.mk name n gid home shell)
            else none) = none := by
          cases toLong digit gid with
          | none => rfl
          | some m => exact if_neg fun h => hrange ⟨h.1, h.2.1⟩
        rw [hnone]
        refine .inr ⟨fun hno => hrange ⟨hno.1, hno.2.1⟩, none, ?_, rfl⟩
        split
        case isTrue => rfl
        case isFalse hlow =>
          rw [if_pos]
          by_contra hne
          exact hrange ⟨by omega, hne⟩
  · have hparse : parseLine digit line = some none := by
      unfold parseLine
      split
      case h_1 heq => exact absurd ⟨_, _, _, _, _, _, _, heq⟩ hseven
      case h_2 => rfl
    have huser : userOf digit line = none := by
      unfold userOf
      split
      case h_1 heq => exact absurd ⟨_, _, _, _, _, _, _, heq⟩ hseven
      case h_2 => rfl
    refine .inr ⟨?_, none, hparse, huser⟩
    rintro ⟨_, _, _, _, _, _, _, heq, -⟩
    exact hseven ⟨_, _, _, _, _, _, _, heq⟩

/-! ## All lines -/

theorem mapM_none {α β : Type} {f : α → Option β} {xs : List α} (h : ∃ x ∈ xs, f x = none) :
    xs.mapM f = none := by
  induction xs with
  | nil => simp at h
  | cons x xs ih =>
    rw [List.mapM_cons]
    obtain ⟨y, hy, hnone⟩ := h
    rcases List.mem_cons.mp hy with rfl | hy
    · rw [hnone]
      rfl
    · rw [ih ⟨y, hy, hnone⟩]
      cases f x <;> rfl

/-- Of lines that can all be read, those with a user to be shown are left. -/
theorem exists_parsed (h : ∀ line ∈ lines, ¬ Unreadable digit line) :
    ∃ parsed : List (Option UserInfo), lines.mapM (parseLine digit) = some parsed ∧
      parsed.reduceOption.filter Shown = users digit lines := by
  induction lines with
  | nil => exact ⟨[], rfl, rfl⟩
  | cons line lines ih =>
    obtain ⟨hline, hlines⟩ := List.forall_mem_cons.mp h
    obtain ⟨parsed, hparsed, husers⟩ := ih hlines
    obtain ⟨hno, -⟩ | ⟨-, info, hinfo, huser⟩ := parseLine_spec digit line
    · exact absurd hno hline
    · refine ⟨info :: parsed, ?_, ?_⟩
      · rw [List.mapM_cons, hinfo, hparsed]
        rfl
      · rw [users, List.filterMap_cons, huser, ← users, ← husers]
        cases info with
        | none => rfl
        | some info =>
          rw [List.reduceOption_cons_of_some, List.filter_cons, Option.filter_some]
          split <;> rfl

theorem shown_of_root {info : UserInfo} (h : info.name = "root".toList) : Shown info = true := by
  rw [Shown, h]
  decide

theorem any_root_filter (parsed : List UserInfo) :
    (parsed.any fun info => info.name = "root".toList) =
      ((parsed.filter Shown).any fun info => info.name = "root".toList) := by
  rw [List.any_filter, Bool.eq_iff_iff, List.any_eq_true, List.any_eq_true]
  refine exists_congr fun info => and_congr_right fun _ => ?_
  rw [Bool.and_eq_true, decide_eq_true_iff]
  exact ⟨fun h => ⟨shown_of_root h, h⟩, And.right⟩

/-- Of lines that can all be read, exactly the users are returned. -/
theorem getUserInfos_eq (h : ∀ line ∈ lines, ¬ Unreadable digit line) :
    getUserInfos digit (some lines) = (expected digit lines).insertionSort fun a b =>
      compareLe a.name b.name := by
  obtain ⟨parsed, hparsed, husers⟩ := exists_parsed h
  have hroot : Shown .ROOT = true := shown_of_root rfl
  have hany : (parsed.reduceOption.any fun info => info.name = "root".toList) = true ↔
      ∃ info ∈ users digit lines, info.name = "root".toList := by
    rw [any_root_filter, husers, List.any_eq_true]
    simp only [decide_eq_true_iff]
  rw [getUserInfos, Option.bind_some, hparsed, Option.map_some, Option.getD_some, expected]
  congr 1
  change List.filter Shown _ = _
  by_cases hthere : ∃ info ∈ users digit lines, info.name = "root".toList
  · rw [if_pos (hany.mpr hthere), if_pos hthere, husers, List.append_nil]
  · rw [if_neg fun hno => hthere (hany.mp hno), if_neg hthere, List.filter_append, husers,
      List.filter_singleton, hroot]
    rfl

/-- A line that cannot be read leaves no user but root. -/
theorem getUserInfos_unreadable (h : ∃ line ∈ lines, Unreadable digit line) :
    getUserInfos digit (some lines) = [.ROOT] := by
  obtain ⟨line, hline, hno⟩ := h
  have hnone : parseLine digit line = none :=
    (parseLine_spec digit line).elim And.right fun hread => absurd hno hread.1
  rw [getUserInfos, Option.bind_some, mapM_none ⟨line, hline, hnone⟩]
  decide

/-- The users are in the order of their names. -/
theorem ordered_insertionSort (infos : List UserInfo) :
    Ordered (infos.insertionSort fun a b => compareLe a.name b.name) := by
  have htotal : Std.Total fun a b : UserInfo => compareLe a.name b.name = true :=
    ⟨fun a b => by simpa only [compareLe, decide_eq_true_iff] using le_total _ _⟩
  have htrans : IsTrans UserInfo fun a b => compareLe a.name b.name = true :=
    ⟨fun a b c hab hbc => by
      simp only [compareLe, decide_eq_true_iff] at hab hbc ⊢
      exact le_trans hab hbc⟩
  exact List.pairwise_insertionSort _ _

/-- `root` alone is expected if and only if the lines give no user or only that one. -/
theorem expected_eq_root_iff : (expected digit lines).Perm [.ROOT] ↔ OnlyRoot digit lines := by
  rw [List.perm_singleton, expected, OnlyRoot]
  constructor
  · intro h
    rcases List.append_eq_singleton_iff.mp h with ⟨hnil, -⟩ | ⟨honly, -⟩
    · exact .inl hnil
    · exact .inr honly
  · rintro (h | h)
    · rw [h]
      rfl
    · rw [h, if_pos ⟨_, List.mem_singleton_self _, rfl⟩, List.append_nil]

/-- What is returned is as it is to be exactly when every line can be read or nobody is lost. -/
theorem listsUsers_iff :
    ListsUsers digit lines ↔ (∀ line ∈ lines, ¬ Unreadable digit line) ∨ OnlyRoot digit lines := by
  by_cases hread : ∃ line ∈ lines, Unreadable digit line
  · have hnot : ¬ ∀ line ∈ lines, ¬ Unreadable digit line :=
      fun h => hread.elim fun line hline => h line hline.1 hline.2
    rw [ListsUsers, getUserInfos_unreadable hread, List.perm_comm, expected_eq_root_iff,
      or_iff_right hnot]
    exact and_iff_right (List.pairwise_singleton _ _)
  · have hall : ∀ line ∈ lines, ¬ Unreadable digit line :=
      fun line hline hno => hread ⟨line, hline, hno⟩
    refine iff_of_true ?_ (.inl hall)
    rw [ListsUsers, getUserInfos_eq hall]
    exact ⟨ordered_insertionSort _, List.perm_insertionSort _ _⟩

/-- A line without a user changes what is returned exactly when it is the first that cannot be read,
and somebody is lost. -/
theorem getUserInfos_insert_iff {before after : List Text} (hnone : userOf digit line = none) :
    getUserInfos digit (some (before ++ line :: after)) = getUserInfos digit
      (some (before ++ after)) ↔
      ¬ Unreadable digit line ∨ (∃ line ∈ before ++ after, Unreadable digit line) ∨
        OnlyRoot digit (before ++ after) := by
  have husers : users digit (before ++ line :: after) = users digit (before ++ after) := by
    rw [users, users, List.filterMap_append, List.filterMap_append, List.filterMap_cons, hnone]
  have hmem : ∀ other, other ∈ before ++ line :: after ↔
      other = line ∨ other ∈ before ++ after := by
    simp [or_left_comm]
  by_cases hothers : ∃ line ∈ before ++ after, Unreadable digit line
  · refine iff_of_true ?_ (.inr (.inl hothers))
    obtain ⟨other, hother, hno⟩ := hothers
    rw [getUserInfos_unreadable ⟨other, hother, hno⟩,
      getUserInfos_unreadable ⟨other, (hmem other).mpr (.inr hother), hno⟩]
  · have hread : ∀ line ∈ before ++ after, ¬ Unreadable digit line :=
      fun line hline hno => hothers ⟨line, hline, hno⟩
    rw [getUserInfos_eq hread, or_iff_right hothers]
    by_cases hno : Unreadable digit line
    · rw [getUserInfos_unreadable ⟨line, (hmem line).mpr (.inl rfl), hno⟩,
        or_iff_right (not_not.mpr hno),
        ← expected_eq_root_iff]
      have hperm := List.perm_insertionSort (fun a b : UserInfo => compareLe a.name b.name = true)
        (expected digit (before ++ after))
      constructor
      · exact fun h => (h ▸ hperm).symm
      · exact fun h => (List.perm_singleton.mp (hperm.trans h)).symm
    · refine iff_of_true ?_ (.inl hno)
      rw [getUserInfos_eq, expected, husers]
      · rfl
      · intro other hother
        rcases (hmem other).mp hother with rfl | hother
        · exact hno
        · exact hread other hother

/-- **The users of all good lines are returned, whatever the other lines are,** exactly when each of
those can be read, or nobody but root is there. So a bad line that is added loses the users of the
others. -/
theorem getUserInfos_listed_iff (digit : Char → Option Nat) :
    (∀ lines, ListsUsers digit lines ↔ (∀ line ∈ lines, ¬ Unreadable digit line) ∨
      OnlyRoot digit lines) ∧
      ∀ before line after, userOf digit line = none →
        (getUserInfos digit (some (before ++ line :: after)) = getUserInfos digit
          (some (before ++ after)) ↔
          ¬ Unreadable digit line ∨ (∃ line ∈ before ++ after, Unreadable digit line) ∨
            OnlyRoot digit (before ++ after)) :=
  ⟨fun _ => listsUsers_iff, fun _ _ _ => getUserInfos_insert_iff⟩

def userLine : Text := "user:x:1000:1000::/home/user:/bin/bash".toList

/-- A line of three fields. -/
def shortLine : Text := "a:b:c".toList

theorem getUserInfos_listed_shortLine :
    getUserInfos asciiDigit (some [shortLine, userLine]) = getUserInfos asciiDigit
      (some [userLine]) := by
  refine ((getUserInfos_listed_iff asciiDigit).2 [] shortLine [userLine] (by decide)).mpr (.inl ?_)
  rintro ⟨_, _, _, _, _, _, _, heq, -⟩
  have hlength : (shortLine.splitOn ':').length = 3 := by decide
  rw [heq] at hlength
  cases hlength

/-- The line that lets other users in from a network has no numbers. -/
theorem not_listsUsers_network : ¬ ∀ lines, ListsUsers asciiDigit lines := by
  intro hall
  have hlength := (hall [userLine, "+::::::".toList]).2.length_eq
  revert hlength
  decide

end WinEmulator.App.ProotRootfs
