import Mathlib.Data.List.Basic
import Mathlib.Data.List.Dedup
import Mathlib.Data.List.Nodup
import WinEmulator.Lib.Glob

/-!
# What pathname expansion makes of a field

A field stays as it is, whatever files there are, exactly when it matches no other pathname
(`globbed_iff_fixed`). What the expansion yields is described once, by `Expands`; both directions
and the facts about single components follow from that.
-/

set_option autoImplicit false

namespace WinEmulator.Lib.Sh

@[simp] theorem text_append (f g : Field) : text (f ++ g) = text f ++ text g := List.map_append

/-! ## Literal components -/

/-- A component without special elements is accepted as its own text and as nothing else. -/
theorem accepts_elemsWith {k : Nat} {f : Field} (hk : f.length ≤ k)
    (h : (elemsWith k f).all Elem.isChar = true)
    (n : List Char) : accepts (elemsWith k f) n = true ↔ n = text f := by
  induction k generalizing f n with
  | zero =>
    obtain rfl := List.length_eq_zero_iff.mp (Nat.le_zero.mp hk)
    exact List.isEmpty_iff
  | succ k ih =>
    cases f with
    | nil => exact List.isEmpty_iff
    | cons p f =>
      have hf : f.length ≤ k := Nat.le_of_succ_le_succ hk
      have hchar : ∀ c, c = p.1 → (elemsWith k f).all Elem.isChar = true →
          (accepts (.char c :: elemsWith k f) n = true ↔ n = text (p :: f)) := by
        rintro c rfl hall
        cases n with
        | nil => simp [accepts, text]
        | cons d ds =>
          have htail := ih hf hall ds
          simp only [accepts, Elem.takes, Bool.and_eq_true, decide_eq_true_eq, htail]
          constructor
          · rintro ⟨rfl, rfl⟩
            rfl
          · intro heq
            obtain ⟨hd, hds⟩ := List.cons.inj heq
            exact ⟨hd.symm, hds⟩
      unfold elemsWith at h ⊢
      split at h
      · cases h
      next hmany =>
        split at h
        · cases h
        next hone =>
          rw [if_neg hmany, if_neg hone]
          split at h
          next hopen =>
            rw [if_pos hopen]
            split at h
            next e f' hclosed =>
              -- a bracket expression is no character
              obtain ⟨r, -, hr⟩ := Option.map_eq_some_iff.mp hclosed
              cases hr
              cases h
            next hnone => exact hchar '[' (by rw [hopen]) h
          next hopen =>
            rw [if_neg hopen]
            exact hchar p.1 rfl h

/-- A literal component matches its text only. -/
theorem nameMatches_literal {f : Field} (h : isLiteral f = true) (n : List Char) :
    nameMatches f n = true ↔ n = text f := by
  have haccepts := accepts_elemsWith (Nat.le_refl f.length) h n
  unfold nameMatches
  rw [Bool.and_eq_true]
  refine ⟨fun hboth => haccepts.mp hboth.2, fun heq => ⟨?_, haccepts.mpr heq⟩⟩
  subst heq
  cases f with
  | nil => rfl
  | cons p f => by_cases hdot : p.1 = '.' <;> simp [text, hdot]

/-- An unquoted character that may have a meaning in a pattern. -/
def isGlob (c : Char) : Bool := c ∈ ['*', '?', '[']

/-- Without any of those characters a component is literal. -/
theorem isLiteral_of_no_glob {f : Field} (h : ∀ p ∈ f, isGlob p.1 = false) :
    isLiteral f = true := by
  have main : ∀ k, (elemsWith k f).all Elem.isChar = true := by
    induction f with
    | nil =>
      intro k
      cases k <;> rfl
    | cons p f ih =>
      intro k
      cases k with
      | zero => rfl
      | succ k =>
        have hp := h p List.mem_cons_self
        have hne : p ≠ ('*', false) ∧ p ≠ ('?', false) ∧ p ≠ ('[', false) := by
          refine ⟨?_, ?_, ?_⟩ <;>
          · rintro rfl
            cases hp
        unfold elemsWith
        rw [if_neg hne.1, if_neg hne.2.1, if_neg hne.2.2]
        exact ih (fun q hq => h q (List.mem_cons_of_mem _ hq)) k
  exact main f.length

/-! ## The pathnames a field may become -/

/-- What a component may become. -/
def Becomes (f : Field) (n : List Char) : Prop :=
  if isLiteral f then n = text f else IsName n ∧ nameMatches f n = true

/-- What components may become, with slashes between them. -/
inductive Expands : List Field → List Char → Prop
  | last {f : Field} {n : List Char} (h : Becomes f n) : Expands [f] n
  | more {f f' : Field} {fs : List Field} {n t : List Char} (h : Becomes f n)
      (rest : Expands (f' :: fs) t) :
      Expands (f :: f' :: fs) (n ++ '/' :: t)

/-- The field matches no pathname but its own text. -/
def Fixed (f : Field) : Prop := ∀ t, Expands (components f) t → t = text f

theorem becomes_of_literal {f : Field} (h : isLiteral f = true) : Becomes f (text f) := by
  unfold Becomes
  rw [if_pos h]

theorem eq_text_of_becomes {f : Field} {n : List Char} (h : isLiteral f = true) (hn : Becomes f n) :
    n = text f := by
  unfold Becomes at hn
  rwa [if_pos h] at hn

/-- What matches a field is something it can become. -/
theorem becomes_of_matching {files : Files} {p n : List Char} {f : Field} (h : ¬ isLiteral f = true)
    (hn : n ∈ files.matching p f) : Becomes f n := by
  obtain ⟨hname, hmatch⟩ := List.mem_filter.mp hn
  unfold Becomes
  rw [if_neg h]
  exact ⟨files.isName p n hname, hmatch⟩

/-- The components are made of the field's own characters. -/
theorem mem_of_mem_components {f c : Field} {p : Piece} (hc : c ∈ components f) (hp : p ∈ c) :
    p ∈ f := by
  unfold components at hc
  induction f generalizing c with
  | nil =>
    rw [List.splitOnP_nil, List.mem_singleton] at hc
    rwa [hc] at hp
  | cons q f ih =>
    rw [List.splitOnP_cons_eq_if_modifyHead] at hc
    split at hc
    · rcases List.mem_cons.mp hc with rfl | hc
      · cases hp
      · exact List.mem_cons_of_mem _ (ih hc hp)
    · cases hsplit : f.splitOnP (·.1 = '/') with
      | nil => exact absurd hsplit (List.splitOnP_ne_nil _ _)
      | cons d ds =>
        rw [hsplit] at hc ih
        rcases List.mem_cons.mp hc with rfl | hc
        · rcases List.mem_cons.mp hp with rfl | hp
          · exact List.mem_cons_self
          · exact List.mem_cons_of_mem _ (ih List.mem_cons_self hp)
        · exact List.mem_cons_of_mem _ (ih (List.mem_cons_of_mem _ hc) hp)

/-- The texts of the components, with slashes between them, are the text of the field. -/
theorem text_components (f : Field) : ['/'].intercalate ((components f).map text) = text f := by
  unfold components
  induction f with
  | nil => rfl
  | cons q f ih =>
    obtain ⟨d, ds, hsplit⟩ := List.exists_cons_of_ne_nil (List.splitOnP_ne_nil (·.1 = '/') f)
    rw [hsplit] at ih
    rw [List.splitOnP_cons_eq_if_modifyHead, hsplit]
    split
    next hslash =>
      rw [List.map_cons, List.map_cons, List.intercalate_cons_cons, ← List.map_cons, ih]
      show '/' :: text f = q.1 :: text f
      rw [of_decide_eq_true hslash]
    next hslash =>
      have hhead : ∀ us : List (List Char), ['/'].intercalate ((q.1 :: text d) :: us)
          = q.1 :: ['/'].intercalate (text d :: us) := fun us => List.intercalate_cons_cons_left
      show ['/'].intercalate ((q.1 :: text d) :: ds.map text) = q.1 :: text f
      rw [hhead, ← List.map_cons, ih]

/-- Literal components become their texts. -/
theorem eq_of_expands_literal {fs : List Field} {t : List Char} (h : ∀ f ∈ fs, isLiteral f = true)
    (ht : Expands fs t) : t = ['/'].intercalate (fs.map text) := by
  induction ht with
  | last hn =>
    rw [eq_text_of_becomes (h _ List.mem_cons_self) hn, List.map_singleton,
      List.intercalate_singleton]
  | more hn _ ih =>
    rw [eq_text_of_becomes (h _ List.mem_cons_self) hn,
      ih fun g hg => h g (List.mem_cons_of_mem _ hg),
      List.map_cons, List.map_cons, List.map_cons, List.intercalate_cons_cons, List.append_assoc,
        List.singleton_append]

/-- What the expansion yields is what the components may become. -/
theorem mem_expandFrom {files : Files} {p o : List Char} {fs : List Field}
    (h : o ∈ expandFrom files p fs) :
    ∃ t, o = p ++ t ∧ Expands fs t := by
  induction fs generalizing p with
  | nil => cases h
  | cons f fs ih =>
    cases fs with
    | nil =>
      unfold expandFrom at h
      split at h
      next hliteral =>
        split at h
        · rw [List.mem_singleton.mp h]
          exact ⟨_, rfl, .last (becomes_of_literal hliteral)⟩
        · cases h
      next hliteral =>
        obtain ⟨n, hn, rfl⟩ := List.mem_map.mp h
        exact ⟨n, rfl, .last (becomes_of_matching hliteral hn)⟩
    | cons f' fs =>
      unfold expandFrom at h
      split at h
      next hliteral =>
        obtain ⟨t, rfl, ht⟩ := ih h
        refine ⟨text f ++ '/' :: t, ?_, .more (becomes_of_literal hliteral) ht⟩
        simp only [List.append_assoc, List.singleton_append]
      next hliteral =>
        obtain ⟨n, hn, ho⟩ := List.mem_flatMap.mp h
        obtain ⟨t, rfl, ht⟩ := ih ho
        refine ⟨n ++ '/' :: t, ?_, .more (becomes_of_matching hliteral hn) ht⟩
        simp only [List.append_assoc, List.singleton_append]

/-- The expansion yields no pathname twice. -/
theorem nodup_expandFrom (files : Files) (p : List Char) (fs : List Field) :
    (expandFrom files p fs).Nodup := by
  induction fs generalizing p with
  | nil => exact List.nodup_nil
  | cons f fs ih =>
    have hmatching : (files.matching p f).Nodup := (files.nodup p).filter _
    cases fs with
    | nil =>
      unfold expandFrom
      split
      · split
        · exact List.nodup_singleton _
        · exact List.nodup_nil
      · exact hmatching.map (List.append_right_injective p)
    | cons f' fs =>
      unfold expandFrom
      split
      · exact ih _
      · refine List.nodup_flatMap.mpr ⟨fun n _ => ih _, ?_⟩
        refine hmatching.imp_of_mem fun {n n'} hn hn' hne => ?_
        intro o ho ho'
        -- the name in front of the first slash tells the two apart
        obtain ⟨t, rfl, -⟩ := mem_expandFrom ho
        obtain ⟨t', heq, -⟩ := mem_expandFrom ho'
        simp only [List.append_assoc, List.append_cancel_left_eq, List.singleton_append] at heq
        have hfirst :
            ∀ m ∈ files.matching p f, ∀ u, (m ++ '/' :: u).splitOn '/' = m :: u.splitOn '/' := by
          intro m hm u
          have hslash := (files.isName p m (List.mem_filter.mp hm).1).2.2.2
          rw [List.splitOn_append_cons_self, List.splitOn_eq_singleton hslash]
          rfl
        have hsplit := congrArg (List.splitOn '/') heq
        rw [hfirst n hn, hfirst n' hn'] at hsplit
        exact hne (List.cons.inj hsplit).1

theorem mem_pathnames_iff {files : Files} {f : Field} {o : List Char} :
    o ∈ pathnames files f ↔ o ∈ expandFrom files [] (components f) :=
  List.mem_insertionSort _

/-- Every pathname that is found is an expansion of the field. -/
theorem expands_of_mem_pathnames {files : Files} {f : Field} {o : List Char}
    (h : o ∈ pathnames files f) :
    Expands (components f) o := by
  obtain ⟨t, heq, ht⟩ := mem_expandFrom (mem_pathnames_iff.mp h)
  rw [heq]
  exact ht

theorem nodup_pathnames (files : Files) (f : Field) : (pathnames files f).Nodup :=
  (List.perm_insertionSort _ _).nodup_iff.mpr (nodup_expandFrom files [] (components f))

/-- On a device that has the names of a pathname everywhere the expansion yields it. -/
theorem mem_expandFrom_of_names {files : Files} {fs : List Field} {t : List Char} (h : Expands fs t)
    (names : ∀ n ∈ t.splitOn '/', IsName n → ∀ p, n ∈ files.names p)
    (all : ∀ p, files.exists_ p = true) :
    ∀ p, p ++ t ∈ expandFrom files p fs := by
  have matched : ∀ {f : Field} {n p : List Char}, Becomes f n → ¬ isLiteral f = true →
      (IsName n → n ∈ files.names p) → n ∈ files.matching p f := by
    intro f n p hn hliteral hname
    unfold Becomes at hn
    rw [if_neg hliteral] at hn
    exact List.mem_filter.mpr ⟨hname hn.1, hn.2⟩
  induction h with
  | @last f n hn =>
    intro p
    unfold expandFrom
    split
    next hliteral =>
      rw [eq_text_of_becomes hliteral hn, if_pos (all _)]
      exact List.mem_singleton.mpr rfl
    next hliteral =>
      refine List.mem_map.mpr ⟨n, matched hn hliteral fun hname => names n ?_ hname p, rfl⟩
      rw [List.splitOn_eq_singleton hname.2.2.2]
      exact List.mem_singleton.mpr rfl
  | @more f f' fs n t hn hrest ih =>
    intro p
    rw [List.splitOn_append_cons_self] at names
    have hlater := ih fun m hm => names m (List.mem_append_right _ hm)
    have hassoc : ∀ m : List Char, p ++ (m ++ '/' :: t) = (p ++ m ++ ['/']) ++ t := by
      intro m
      simp only [List.append_assoc, List.singleton_append]
    unfold expandFrom
    split
    next hliteral =>
      rw [eq_text_of_becomes hliteral hn, hassoc]
      exact hlater _
    next hliteral =>
      rw [hassoc]
      refine List.mem_flatMap.mpr ⟨n, matched hn hliteral fun hname => names n ?_ hname p, hlater _⟩
      refine List.mem_append_left _ ?_
      rw [List.splitOn_eq_singleton hname.2.2.2]
      exact List.mem_singleton.mpr rfl

/-- Every directory of the device holds the names of a pathname: each of them is a link to the
root. -/
def everywhere (t : List Char) : Files where
  names _ := ((t.splitOn '/').filter fun n => IsName n).dedup
  exists_ _ := true
  isName := by
    intro p n hn
    simpa using (List.mem_filter.mp (List.mem_dedup.mp hn)).2
  nodup _ := List.nodup_dedup _

/-- **A field stays as it is on every device exactly when it matches no pathname but its own
text.** -/
theorem globbed_iff_fixed (f : Field) : (∀ files, globbed files f = [text f]) ↔ Fixed f := by
  constructor
  · intro h t ht
    have hmem : t ∈ pathnames (everywhere t) f := by
      refine mem_pathnames_iff.mpr (mem_expandFrom_of_names ht ?_ (fun _ => rfl) [])
      intro n hn hname p
      exact List.mem_dedup.mpr (List.mem_filter.mpr ⟨hn, by simpa using hname⟩)
    have heq := h (everywhere t)
    unfold globbed at heq
    split at heq
    next hnone =>
      rw [hnone] at hmem
      cases hmem
    next names hnames =>
      rw [heq] at hmem
      exact List.mem_singleton.mp hmem
  · intro h files
    have hnodup := nodup_pathnames files f
    -- every pathname is the text, and none is there twice
    have hsame : ∀ u ∈ pathnames files f, u = text f :=
      fun u hu => h u (expands_of_mem_pathnames hu)
    unfold globbed
    cases hall : pathnames files f with
    | nil => rfl
    | cons o os =>
      rw [hall] at hsame hnodup
      have hrest : os = [] := by
        refine List.eq_nil_iff_forall_not_mem.mpr fun u hu => ?_
        have ho := (List.nodup_cons.mp hnodup).1
        rw [hsame o List.mem_cons_self, ← hsame u (List.mem_cons_of_mem _ hu)] at ho
        exact ho hu
      rw [hrest, hsame o List.mem_cons_self]

/-- Expansion never leaves a word with nothing. -/
theorem globbed_ne_nil (files : Files) (f : Field) : globbed files f ≠ [] := by
  unfold globbed
  split
  · exact List.cons_ne_nil _ _
  next hne => exact hne

/-- No pathname is given twice. -/
theorem nodup_globbed (files : Files) (f : Field) : (globbed files f).Nodup := by
  have hnodup := nodup_pathnames files f
  unfold globbed
  split
  · exact List.nodup_singleton _
  · exact hnodup

/-! ## Patterns in a directory -/

/-- Literal components lead into the directory they name. -/
theorem expandFrom_literal (files : Files) (p : List Char) {fs : List Field}
    (h : ∀ f ∈ fs, isLiteral f = true)
    (g : Field) :
    expandFrom files p (fs ++ [g]) = expandFrom files (p ++ fs.flatMap fun f => text f ++ ['/'])
      [g] := by
  induction fs generalizing p with
  | nil => rw [List.nil_append, List.flatMap_nil, List.append_nil]
  | cons f fs ih =>
    obtain ⟨f', fs', hcons⟩ :=
      List.exists_cons_of_ne_nil (List.append_ne_nil_of_right_ne_nil fs (List.cons_ne_nil g []))
    have hfirst :
        expandFrom files p (f :: f' :: fs') = expandFrom files (p ++ text f ++ ['/'])
          (f' :: fs') := by
      rw [expandFrom, if_pos (h f List.mem_cons_self)]
    rw [List.cons_append, hcons, hfirst, ← hcons, ih _ fun f hf => h f (List.mem_cons_of_mem _ hf),
      List.flatMap_cons]
    simp only [List.append_assoc]

theorem flatMap_slash {us : List (List Char)} (ne : us ≠ []) :
    us.flatMap (· ++ ['/']) = ['/'].intercalate us ++ ['/'] := by
  induction us with
  | nil => exact absurd rfl ne
  | cons u us ih =>
    cases us with
    | nil => rw [List.flatMap_singleton, List.intercalate_singleton]
    | cons v vs =>
      rw [List.flatMap_cons, ih (List.cons_ne_nil _ _), List.intercalate_cons_cons]
      simp only [List.append_assoc]

/-- **A pattern after the path of a directory** becomes what it matches there. -/
theorem mem_globbed_below {files : Files} {d g : Field}
    (hd : ∀ f ∈ components d, isLiteral f = true)
    (hg : '/' ∉ text g) {o : List Char} :
    o ∈ globbed files (d ++ ('/', false) :: g) ↔
      if isLiteral g = true ∨
        files.matching (text d ++ ['/']) g = [] then o = text d ++ '/' :: text g
      else ∃ m ∈ files.matching (text d ++ ['/']) g, o = text d ++ '/' :: m := by
  have hlast : components g = [g] :=
    List.splitOnP_eq_singleton fun p hp => decide_eq_false fun heq =>
      hg (List.mem_map.mpr ⟨p, hp, heq⟩)
  have hcomponents : components (d ++ ('/', false) :: g) = components d ++ [g] := by
    rw [← hlast]
    exact List.splitOnP_append_cons _ _ rfl
  have htext : text (d ++ ('/', false) :: g) = text d ++ '/' :: text g := text_append _ _
  have hdir : (components d).flatMap (fun f => text f ++ ['/']) = text d ++ ['/'] := by
    have hmap : ((components d).map text).flatMap (· ++ ['/']) = _ :=
      flatMap_slash (List.map_eq_nil_iff.not.mpr (List.splitOnP_ne_nil _ _))
    rw [text_components, List.flatMap_map] at hmap
    exact hmap
  have hexpand : expandFrom files [] (components (d ++ ('/', false) :: g))
      = expandFrom files (text d ++ ['/']) [g] := by
    rw [hcomponents, expandFrom_literal files [] hd, List.nil_append, hdir]
  have hassoc : ∀ m : List Char, text d ++ ['/'] ++ m = text d ++ '/' :: m := by
    intro m
    rw [List.append_assoc, List.singleton_append]
  have hmem :
      ∀ o, o ∈ pathnames files (d ++ ('/', false) :: g) ↔
        o ∈ expandFrom files (text d ++ ['/']) [g] := by
    intro o
    rw [mem_pathnames_iff, hexpand]
  unfold globbed
  cases hall : pathnames files (d ++ ('/', false) :: g) with
  | nil =>
    have hnone : expandFrom files (text d ++ ['/']) [g] = [] :=
      List.eq_nil_iff_forall_not_mem.mpr fun o ho => List.not_mem_nil (hall ▸ (hmem o).mpr ho)
    have hempty : isLiteral g = true ∨ files.matching (text d ++ ['/']) g = [] := by
      by_cases hliteral : isLiteral g = true
      · exact .inl hliteral
      · rw [expandFrom, if_neg hliteral, List.map_eq_nil_iff] at hnone
        exact .inr hnone
    rw [if_pos hempty, htext, List.mem_singleton]
  | cons u us =>
    show o ∈ u :: us ↔ _
    rw [← hall, hmem, expandFrom]
    have hu : u ∈ expandFrom files (text d ++ ['/']) [g] := (hmem u).mp (hall ▸ List.mem_cons_self)
    rw [expandFrom] at hu
    by_cases hliteral : isLiteral g = true
    · have hempty : isLiteral g = true ∨ files.matching (text d ++ ['/']) g = [] := .inl hliteral
      rw [if_pos hliteral] at hu
      rw [if_pos hempty, if_pos hliteral]
      split at hu
      next hexists => rw [if_pos hexists, List.mem_singleton, hassoc]
      · cases hu
    · rw [if_neg hliteral] at hu
      have hsome : ¬ (isLiteral g = true ∨ files.matching (text d ++ ['/']) g = []) := by
        rintro (h | h)
        · exact hliteral h
        · rw [h] at hu
          cases hu
      rw [if_neg hliteral, if_neg hsome, List.mem_map]
      refine exists_congr fun m => and_congr_right fun _ => ?_
      rw [hassoc]
      exact eq_comm

end WinEmulator.Lib.Sh
