import Mathlib.Algebra.GroupWithZero.Nat
import Mathlib.Algebra.Order.BigOperators.Group.List
import Mathlib.Algebra.Order.Group.Nat
import WinEmulator.App.RootfsName
import WinEmulator.Lib.FileTree
import WinEmulator.Lib.ShReading
import WinEmulator.Lib.Subtree

/-!
# Deleting a rootfs

When `onChangeRootfsName` with `DEL` removes the rootfs it is asked to remove, and nothing else. The
name goes through the shell without quotes, so what it becomes there has to be the name again: that
is so if nothing in it is special and no other name in `rootfsAllDir` matches it as a pattern. And
`rm` runs without `-f` and as the owner, so the directories of the rootfs have to let themselves be
emptied.
-/

set_option autoImplicit false

namespace WinEmulator.App

open WinEmulator.Lib WinEmulator.Lib.Fs WinEmulator.Lib.JavaFile

/-! ## Paths -/

theorem pathOf_rootfs (dirs : AppDirs) {r : Text} (h : '/' ∉ r) :
    pathOf (dirs.rootfs r) = pathOf dirs.rootfsAllDir ++ [r] := by
  unfold pathOf AppDirs.rootfs
  rw [List.splitOn_append_cons_self, List.splitOn_eq_singleton h]

/-- The location of a path ends with the last name of the path. -/
theorem getLast_of_place {fs : FileSystem} {p : Path} {l : Loc} (h : place fs p = some l) :
    ∃ parent c, l = parent ++ [c] ∧ p.getLast? = some c := by
  obtain ⟨q, c, rfl⟩ := ne_nil_of_place h
  obtain ⟨-, parent, -, -, rfl⟩ := place_concat_iff.mp h
  exact ⟨parent, c, rfl, List.getLast?_concat⟩

/-! ## `rm` -/

/-- What one operand does when nothing is reported. -/
theorem rmOperand_removed {d : Disk} (closed : Closed d.fs) {o : Text}
    (h : (rmOperand d o).2 = true) :
    ∃ l, place d.fs ((pathOf o).rdropWhile (· = [])) = some l ∧ d.fs.get l ≠ none ∧
      ((pathOf o).getLast? = some [] → ∃ m, d.fs.get l = some (.dir m)) ∧
      Removed l d.fs (rmOperand d o).1.fs := by
  unfold rmOperand at h ⊢
  dsimp only at h ⊢
  cases hplace : place d.fs ((pathOf o).rdropWhile (· = [])) with
  | none =>
    rw [hplace] at h
    cases h
  | some l =>
    rw [hplace] at h
    dsimp only at h ⊢
    split at h
    · cases h
    next hslash =>
      have hdepth :
          ∀ l', l <+: l' → d.fs.get l' ≠ none → l'.length < l.length + (height d.fs + 1) := by
        intro l' _ hget
        have hle := length_le_height hget
        omega
      have hspec := removeTree_spec (height d.fs + 1)
      have hthere := ((hspec.iff d l closed hdepth).mp h).1
      rw [if_neg hslash]
      refine ⟨l, rfl, hthere, ?_, hspec.removed d l closed hdepth h⟩
      intro hlast
      obtain ⟨n, hn⟩ := Option.ne_none_iff_exists'.mp hthere
      cases n with
      | dir m => exact ⟨m, hn⟩
      | file content m => exact absurd ⟨hlast, by rw [hn]; rfl⟩ hslash
      | link target => exact absurd ⟨hlast, by rw [hn]; rfl⟩ hslash

/-- When nothing is reported, what every operand ends with was there and is gone. -/
theorem rmOperands_gone {d : Disk} (closed : Closed d.fs) {operands : List Text}
    (h : (rmOperands d operands).2 = true) :
    (∀ l, (rmOperands d operands).1.fs.get l ≠ none → d.fs.get l ≠ none) ∧
      ∀ o ∈ operands, ∃ parent c, ((pathOf o).rdropWhile (· = [])).getLast? = some c ∧
        d.fs.get (parent ++ [c]) ≠ none ∧
          (rmOperands d operands).1.fs.get (parent ++ [c]) = none := by
  induction operands generalizing d with
  | nil => exact ⟨fun _ hget => hget, fun o ho => by cases ho⟩
  | cons o os ih =>
    obtain ⟨hfirst, hrest⟩ := Bool.and_eq_true_iff.mp h
    obtain ⟨l₀, hplace, hthere, -, hremoved⟩ := rmOperand_removed closed hfirst
    have hfewer : ∀ l, (rmOperand d o).1.fs.get l ≠ none → d.fs.get l ≠ none := by
      intro l hget hnone
      rw [hremoved l, hnone, ite_self] at hget
      exact hget rfl
    obtain ⟨hkept, hgone⟩ := ih (closed_of_removed closed hremoved) hrest
    refine ⟨fun l hget => hfewer l (hkept l hget), ?_⟩
    intro o' ho'
    rcases List.mem_cons.mp ho' with rfl | ho'
    · obtain ⟨parent, c, rfl, hlast⟩ := getLast_of_place hplace
      refine ⟨parent, c, hlast, hthere, ?_⟩
      by_contra hback
      have hself := hkept _ hback
      rw [hremoved, if_pos (List.prefix_refl _)] at hself
      exact hself rfl
    · obtain ⟨parent, c, hlast, hbefore, hafter⟩ := hgone o' ho'
      exact ⟨parent, c, hlast, hfewer _ hbefore, hafter⟩

/-- No name in a file system is longer. -/
def longestName (fs : FileSystem) : Nat :=
  (fs.entries.map fun e => (e.1.getLast?.getD []).length).sum

/-- An operand with a longer name at its end is reported. -/
theorem not_operand_of_long {d : Disk} (closed : Closed d.fs) {operands : List Text}
    (h : (rmOperands d operands).2 = true) {u m : Text} (hm : '/' ∉ m)
    (hlong : longestName d.fs + 1 ≤ m.length) :
    u ++ '/' :: m ∉ operands := by
  intro ho
  obtain ⟨parent, c, hlast, hbefore, -⟩ := (rmOperands_gone closed h).2 _ ho
  have hne : ¬ m = [] := by
    rintro rfl
    cases hlong
  have hpath : pathOf (u ++ '/' :: m) = pathOf u ++ [m] := by
    unfold pathOf
    rw [List.splitOn_append_cons_self, List.splitOn_eq_singleton hm]
  rw [hpath, List.rdropWhile_concat_neg _ _ _ (by simpa using hne), List.getLast?_concat] at hlast
  obtain rfl := Option.some.inj hlast
  obtain ⟨n, hn⟩ := Option.ne_none_iff_exists'.mp hbefore
  have hentry : ((parent ++ [m]).getLast?.getD []).length ≤ longestName d.fs :=
    List.le_sum_of_mem (List.mem_map.mpr ⟨_, d.fs.mem_of_get hn, rfl⟩)
  rw [List.getLast?_concat, Option.getD_some] at hentry
  omega

/-- `rm -rf` on a name without a slash removes the tree below `rootfsAllDir`. -/
theorem rmOperand_rootfs {dirs : AppDirs} {d : Disk} {base : Loc} {r : Text}
    (hbase : resolve d.fs false (pathOf dirs.rootfsAllDir) = some base)
    (hsearch : dirGrants d.fs base .search = true) (hr : r ≠ [] ∧ r ≠ dot ∧ r ≠ dotdot ∧ '/' ∉ r) :
    rmOperand d (dirs.rootfs r) = removeTree false (height d.fs + 1) d (base ++ [r]) := by
  have hplace := place_concat_iff.mpr ⟨⟨hr.1, hr.2.1, hr.2.2.1⟩, base, hbase, hsearch, rfl⟩
  have hkeep :
      (pathOf dirs.rootfsAllDir ++ [r]).rdropWhile (· = []) = pathOf dirs.rootfsAllDir ++ [r] :=
    List.rdropWhile_concat_neg _ _ _ (by simpa using hr.1)
  unfold rmOperand
  dsimp only
  rw [pathOf_rootfs dirs hr.2.2.2, hkeep, hplace]
  dsimp only
  rw [List.getLast?_concat, if_neg fun h => hr.1 (Option.some.inj h.1)]

theorem rm_rootfs {dirs : AppDirs} {d : Disk} {base : Loc} {r : Text}
    (hbase : resolve d.fs false (pathOf dirs.rootfsAllDir) = some base)
    (hsearch : dirGrants d.fs base .search = true) (hr : r ≠ [] ∧ r ≠ dot ∧ r ≠ dotdot ∧ '/' ∉ r) :
    rm d [dirs.rootfs r] = removeTree false (height d.fs + 1) d (base ++ [r]) := by
  rw [rm, if_neg (List.cons_ne_nil _ _), rmOperands, rmOperands, rmOperand_rootfs hbase hsearch hr,
    Bool.and_true]

/-- Where an operand in `rootfsAllDir` leads that is removed: to a name there, or to the directory
itself. -/
theorem place_rootfs {dirs : AppDirs} {d : Disk} {base : Loc} {x : Text}
    (hbase : resolve d.fs false (pathOf dirs.rootfsAllDir) = some base) (hx : '/' ∉ x)
    (closed : Closed d.fs)
    (h : (rmOperand d (dirs.rootfs x)).2 = true) :
    ∃ l, (l = base ++ [x] ∨ l = base) ∧ d.fs.get l ≠ none ∧
      Removed l d.fs (rmOperand d (dirs.rootfs x)).1.fs := by
  obtain ⟨l, hplace, hthere, hslash, hremoved⟩ := rmOperand_removed closed h
  refine ⟨l, ?_, hthere, hremoved⟩
  rw [pathOf_rootfs dirs hx] at hplace hslash
  by_cases hempty : x = []
  · subst hempty
    obtain ⟨m, hm⟩ := hslash List.getLast?_concat
    have hname : pathOf dirs.rootfsAllDir = pathOf dirs.filesDir ++ ["rootfs".toList] := by
      unfold pathOf AppDirs.rootfsAllDir
      exact (List.splitOn_append_cons_self _ _).trans (congrArg _ (by decide))
    rw [List.rdropWhile_concat_pos _ _ _ (by simp), hname,
      List.rdropWhile_concat_neg _ _ _ (by decide), ← hname]
      at hplace
    rw [resolve_of_place_dir hplace hm] at hbase
    exact .inr (Option.some.inj hbase)
  · rw [List.rdropWhile_concat_neg _ _ _ (by simpa using hempty)] at hplace
    obtain ⟨-, parent, hparent, -, rfl⟩ := place_concat_iff.mp hplace
    rw [hbase] at hparent
    exact .inl (by rw [Option.some.inj hparent])

/-- If the tree of a rootfs goes and nothing else does, its path is the only operand. -/
theorem only_operand {dirs : AppDirs} {d : Disk} {base : Loc} {r x : Text} {os : List Text}
    (hbase : resolve d.fs false (pathOf dirs.rootfsAllDir) = some base) (hx : '/' ∉ x)
    (closed : Closed d.fs)
    (h : (rmOperands d (dirs.rootfs x :: os)).2 = true)
    (hremoved : Removed (base ++ [r]) d.fs (rmOperands d (dirs.rootfs x :: os)).1.fs) :
    x = r ∧ os = [] := by
  obtain ⟨hfirst, hrest⟩ := Bool.and_eq_true_iff.mp h
  obtain ⟨l, hl, hthere, hone⟩ := place_rootfs hbase hx closed hfirst
  have hclosed := closed_of_removed closed hone
  obtain ⟨hkept, hgone⟩ := rmOperands_gone hclosed hrest
  -- the first operand is gone for good, so it lies in the tree
  have hbelow : base ++ [r] <+: l := by
    by_contra hout
    have hstill := hremoved l
    rw [if_neg hout] at hstill
    have hself := hkept l fun hnone => hthere (hstill.symm.trans hnone)
    rw [hone, if_pos (List.prefix_refl _)] at hself
    exact hself rfl
  have hxr : l = base ++ [x] ∧ x = r := by
    rcases hl with rfl | rfl
    · have heq := hbelow.eq_of_length (by rw [List.length_append, List.length_append]; rfl)
      exact ⟨rfl, (List.cons.inj (List.append_cancel_left heq)).1.symm⟩
    · exact absurd hbelow (not_prefix_parent _ r)
  obtain ⟨rfl, rfl⟩ := hxr
  refine ⟨rfl, ?_⟩
  cases os with
  | nil => rfl
  | cons o os =>
    -- a second one finds nothing of the tree, and may take nothing else
    obtain ⟨parent, c, -, hbefore, hafter⟩ := hgone o List.mem_cons_self
    rw [hone] at hbefore
    have hfinal := hremoved (parent ++ [c])
    split at hbefore
    · exact absurd rfl hbefore
    next hout =>
      rw [if_neg hout] at hfinal
      exact absurd (hfinal.symm.trans hafter) hbefore

/-! ## What the app makes sure of -/

/-- `rootfsAllDir` is a directory the app can write, and `current`, if it leads anywhere, leads to
something in it: that is all `makeCurrent` ever links it to. -/
structure RootfsAll (dirs : AppDirs) (fs : FileSystem) (base : Loc) : Prop where
  closed : Closed fs
  resolves : resolve fs false (pathOf dirs.rootfsAllDir) = some base
  writable : Writable fs base
  current : ∀ l, resolve fs false (pathOf dirs.rootfsCurrDir) = some l → ∃ t, l = base ++ [t]

/-- The rootfs is the one `current` leads to. -/
def IsCurrent (dirs : AppDirs) (fs : FileSystem) (base : Loc) (r : Text) : Prop :=
  resolve fs false (pathOf dirs.rootfsCurrDir) = some (base ++ [r])

instance (dirs : AppDirs) (fs : FileSystem) (base : Loc) (r : Text) :
    Decidable (IsCurrent dirs fs base r) :=
  inferInstanceAs (Decidable (resolve fs false (pathOf dirs.rootfsCurrDir) = some (base ++ [r])))

variable {dirs : AppDirs} {fs : FileSystem} {base : Loc} {r : Text}

theorem pathOf_rootfsCurrDir (dirs : AppDirs) :
    pathOf dirs.rootfsCurrDir = pathOf dirs.rootfsAllDir ++ ["current".toList] := by
  have hname : '/' ∉ "current".toList := by decide
  exact pathOf_rootfs dirs hname

/-- The guard compares names only, and that is enough. -/
theorem canonical_eq_iff (s : RootfsAll dirs fs base) (hr : r ≠ "current".toList) :
    r = getName (canonical fs (pathOf dirs.rootfsCurrDir)) ↔ IsCurrent dirs fs base r := by
  unfold IsCurrent
  cases hresolve : resolve fs false (pathOf dirs.rootfsCurrDir) with
  | none =>
    rw [pathOf_rootfsCurrDir] at hresolve ⊢
    rw [canonical_of_parent (by decide) s.resolves hresolve]
    simp only [getName, List.getLast?_concat, Option.getD_some, reduceCtorEq, iff_false]
    exact hr
  | some l =>
    obtain ⟨t, rfl⟩ := s.current l hresolve
    rw [canonical_of_resolve hresolve]
    simp only [getName, Option.getD_some, List.getLast?_concat, Option.some.injEq,
      List.append_cancel_left_eq, List.cons.injEq, and_true]
    exact eq_comm

/-- Deleting the rootfs removes its tree and nothing else, or, if it is the current one, nothing. -/
def DeletesOnly (env : Sh.Env) (dirs : AppDirs) (fs : FileSystem) (base : Loc) (r : Text) : Prop :=
  ∃ o, onChangeRootfsName env dirs ⟨fs, []⟩ r r .del = some o ∧
    (IsCurrent dirs fs base r → o.thrown = some .rootfsRunning ∧ o.disk = ⟨fs, []⟩) ∧
    (¬ IsCurrent dirs fs base r →
      o.thrown = none ∧ Removed (base ++ [r]) fs o.disk.fs ∧ ∀ e ∈ o.disk.log, base ++ [r] <+: e.1)

/-! ## The command line -/

/-- The string after `sh -c`. -/
def rmCommand (dirs : AppDirs) (r : Text) : Text := "rm -r ".toList ++ dirs.rootfs r

/-- The names `getRootfsList` finds, `current` among them. -/
def rootfsNames (dirs : AppDirs) (fs : FileSystem) : List Text :=
  (list fs (pathOf dirs.rootfsAllDir)).getD []

/-- Whatever surrounds it, the shell reads one operand, whose last component is this one. -/
structure ReadAs (dirs : AppDirs) (r : Text) (g : Sh.Field) : Prop where
  fields : ∀ env, Sh.fields env (rmCommand dirs r)
    = some [Sh.literal "rm".toList, Sh.literal "-r".toList,
      Sh.literal dirs.rootfsAllDir ++ ('/', false) :: g]
  component : '/' ∉ Sh.text g

/-- The component stands for the name and for no other one there is. -/
structure StandsFor (names : List Text) (g : Sh.Field) (r : Text) : Prop where
  only : ∀ m ∈ names, Sh.nameMatches g m = true → m = r
  self : Sh.nameMatches g r = true ∨ Sh.text g = r

/-- The name means itself to the shell. -/
def MeansItself (dirs : AppDirs) (fs : FileSystem) (r : Text) : Prop :=
  ∃ g, ReadAs dirs r g ∧ StandsFor (rootfsNames dirs fs) g r

theorem allInert_rootfsAllDir (dirs : AppDirs) : Sh.AllInert dirs.rootfsAllDir := by
  intro c hc
  rcases List.mem_append.mp hc with hc | hc
  · exact dirs.filesDir_inert c hc
  · have hall : Sh.AllInert "/rootfs".toList := by decide
    exact hall c hc

theorem head_rootfsAllDir (dirs : AppDirs) (t : Text) :
    (dirs.rootfsAllDir ++ t).head? = some '/' := by
  have habsolute := dirs.filesDir_absolute
  unfold AppDirs.rootfsAllDir
  cases hfiles : dirs.filesDir with
  | nil =>
    rw [hfiles] at habsolute
    cases habsolute
  | cons c cs =>
    rw [hfiles] at habsolute
    exact habsolute

/-- A path in `rootfsAllDir` begins like a plain word. -/
theorem unspecial_rootfs (dirs : AppDirs) {t : Text} (h : ∀ c ∈ t, Sh.classOf c = .ordinary) :
    Sh.Unspecial (dirs.rootfs t) := by
  have hhead := head_rootfsAllDir dirs ('/' :: t)
  refine ⟨?_, ?_, ?_, ?_⟩
  · intro hnil
    rw [AppDirs.rootfs] at hnil
    rw [hnil] at hhead
    cases hhead
  · intro c hc
    rcases List.mem_append.mp hc with hc | hc
    · exact (allInert_rootfsAllDir dirs c hc).1
    · rcases List.mem_cons.mp hc with rfl | hc
      · decide
      · exact h c hc
  · rw [AppDirs.rootfs, hhead]
    decide
  · rw [AppDirs.rootfs, hhead]
    decide

/-- The words in front of the path. -/
def rmWords : List Text := ["rm".toList, "-r".toList]

theorem plain_rmWords : ∀ w ∈ rmWords, Sh.Plain w := by
  have hopening : ∀ w ∈ rmWords, Sh.Opening w ∧ w ≠ [] := by decide
  exact fun w hw => (hopening w hw).1.plain (hopening w hw).2

/-- The command line is the fixed words and then the directory's path, unquoted. -/
theorem rmCommand_eq (dirs : AppDirs) (r : Text) :
    rmCommand dirs r = Sh.spaced rmWords ++ (dirs.rootfs [] ++ r) := by
  rw [AppDirs.rootfs, List.append_assoc, List.cons_append, List.nil_append]
  rfl

theorem literal_rootfs (dirs : AppDirs) (g : Sh.Field) :
    Sh.literal (dirs.rootfs []) ++ g = Sh.literal dirs.rootfsAllDir ++ ('/', false) :: g := by
  unfold Sh.literal AppDirs.rootfs
  rw [List.map_append, List.append_assoc]
  rfl

/-- A name without special characters is read as it is. -/
theorem readAs_ordinary (dirs : AppDirs) (h : ∀ c ∈ r, Sh.classOf c = .ordinary) (hr : '/' ∉ r) :
    ReadAs dirs r (Sh.literal r) where
  fields env := by
    have hwords : ∀ w ∈ rmWords ++ [dirs.rootfs r], Sh.Unspecial w := by
      intro w hw
      rcases List.mem_append.mp hw with hw | hw
      · exact (plain_rmWords w hw).unspecial
      · rw [List.mem_singleton.mp hw]
        exact unspecial_rootfs dirs h
    have hfields := Sh.fields_join env hwords
    have hpath :
        Sh.literal (dirs.rootfs r) = Sh.literal dirs.rootfsAllDir ++ ('/', false) :: Sh.literal r :=
      List.map_append
    rw [List.map_append, List.map_singleton, hpath] at hfields
    exact hfields
  component := by
    rw [Sh.text_literal]
    exact hr

/-- **A name without special characters means itself exactly when no other name matches it.** -/
theorem meansItself_ordinary (h : ∀ c ∈ r, Sh.classOf c = .ordinary) (hr : '/' ∉ r) :
    MeansItself dirs fs r ↔ ∀ m ∈ rootfsNames dirs fs, Sh.nameMatches (Sh.literal r) m = true →
      m = r := by
  have hread := readAs_ordinary dirs h hr
  constructor
  · rintro ⟨g, hg, hstands⟩
    have heq := (hg.fields Sh.bare).symm.trans (hread.fields Sh.bare)
    simp only [Option.some.injEq, List.cons.injEq, List.append_cancel_left_eq, true_and, and_true]
      at heq
    rw [← heq]
    exact hstands.only
  · exact fun honly => ⟨_, hread, honly, .inr (Sh.text_literal r)⟩

theorem components_rootfsAllDir (dirs : AppDirs) :
    ∀ f ∈ Sh.components (Sh.literal dirs.rootfsAllDir), Sh.isLiteral f = true := by
  intro f hf
  refine Sh.isLiteral_of_no_glob fun p hp => ?_
  obtain ⟨c, hc, rfl⟩ := List.mem_map.mp (Sh.mem_of_mem_components hf hp)
  exact (allInert_rootfsAllDir dirs c hc).2

/-- What a pattern in `rootfsAllDir` matches. -/
theorem mem_matching_iff (closed : Closed fs) {g : Sh.Field} {m : Text} :
    m ∈ (shFiles fs).matching (dirs.rootfsAllDir ++ ['/']) g ↔
      m ∈ rootfsNames dirs fs ∧ Sh.nameMatches g m = true := by
  unfold Sh.Files.matching shFiles
  rw [List.mem_filter, List.mem_filter, List.dropLast_concat]
  refine and_congr_left fun _ => ⟨fun h => h.1, fun h => ⟨h, ?_⟩⟩
  rw [decide_eq_true_eq]
  unfold rootfsNames list at h
  cases hresolve : resolve fs false (pathOf dirs.rootfsAllDir) with
  | none =>
    rw [hresolve] at h
    cases h
  | some l =>
    rw [hresolve, Option.bind_some] at h
    split at h
    · exact closed.names l m (mem_children.mp h)
    · cases h

/-- The operands the component becomes. -/
theorem mem_globbed_rootfs (closed : Closed fs) {g : Sh.Field} (hg : '/' ∉ Sh.text g) {o : Text} :
    o ∈ Sh.globbed (shFiles fs) (Sh.literal dirs.rootfsAllDir ++ ('/', false) :: g) ↔
      if Sh.isLiteral g = true ∨ ∀ m ∈ rootfsNames dirs fs, ¬ Sh.nameMatches g m = true then
        o = dirs.rootfs (Sh.text g)
      else ∃ m ∈ rootfsNames dirs fs, Sh.nameMatches g m = true ∧ o = dirs.rootfs m := by
  have hempty : (shFiles fs).matching (dirs.rootfsAllDir ++ ['/']) g = [] ↔
      ∀ m ∈ rootfsNames dirs fs, ¬ Sh.nameMatches g m = true := by
    rw [List.eq_nil_iff_forall_not_mem]
    refine forall_congr' fun m => ?_
    rw [mem_matching_iff closed, not_and]
  rw [Sh.mem_globbed_below (components_rootfsAllDir dirs) hg, Sh.text_literal]
  simp only [hempty, mem_matching_iff closed, and_assoc]
  rfl

/-- A name that means itself reaches `rm` as it is. -/
theorem globbed_rootfs (closed : Closed fs) {g : Sh.Field} (hg : '/' ∉ Sh.text g)
    (listed : r ∈ rootfsNames dirs fs) :
    Sh.globbed (shFiles fs) (Sh.literal dirs.rootfsAllDir ++ ('/', false) :: g) = [dirs.rootfs r] ↔
      StandsFor (rootfsNames dirs fs) g r := by
  have hinj : ∀ x y, dirs.rootfs x = dirs.rootfs y → x = y := by
    intro x y h
    exact (List.cons.inj (List.append_cancel_left h)).2
  constructor
  · intro heq
    have hmem := fun o : Text => (mem_globbed_rootfs closed hg : o ∈ Sh.globbed (shFiles fs)
      (Sh.literal dirs.rootfsAllDir ++ ('/', false) :: g) ↔ _)
    simp only [heq, List.mem_singleton] at hmem
    by_cases hnone : Sh.isLiteral g = true ∨ ∀ m ∈ rootfsNames dirs fs, ¬ Sh.nameMatches g m = true
    · simp only [if_pos hnone] at hmem
      have htext := hinj _ _ ((hmem _).mpr rfl)
      refine ⟨fun m hm hmatch => ?_, .inr htext⟩
      rcases hnone with hliteral | hnone
      · exact ((Sh.nameMatches_literal hliteral m).mp hmatch).trans htext
      · exact absurd hmatch (hnone m hm)
    · simp only [if_neg hnone] at hmem
      have honly : ∀ m ∈ rootfsNames dirs fs, Sh.nameMatches g m = true →
          m = r := fun m hm hmatch =>
        hinj _ _ ((hmem _).mpr ⟨m, hm, hmatch, rfl⟩)
      obtain ⟨m, hm, hmatch, heq⟩ := (hmem _).mp rfl
      rw [← hinj _ _ heq] at hmatch
      exact ⟨honly, .inl hmatch⟩
  · intro hstands
    have hall : ∀ o ∈ Sh.globbed (shFiles fs) (Sh.literal dirs.rootfsAllDir ++ ('/', false) :: g),
        o = dirs.rootfs r := by
      intro o ho
      rw [mem_globbed_rootfs closed hg] at ho
      split at ho
      next hnone =>
        have htext : Sh.text g = r := by
          rcases hstands.self with hmatch | htext
          · rcases hnone with hliteral | hnone
            · exact ((Sh.nameMatches_literal hliteral r).mp hmatch).symm
            · exact absurd hmatch (hnone r listed)
          · exact htext
        rw [ho, htext]
      · obtain ⟨m, hm, hmatch, rfl⟩ := ho
        rw [hstands.only m hm hmatch]
    have hnodup := Sh.nodup_globbed (shFiles fs) (Sh.literal dirs.rootfsAllDir ++ ('/', false) :: g)
    obtain ⟨o, os, hcons⟩ := List.exists_cons_of_ne_nil
      (Sh.globbed_ne_nil (shFiles fs) (Sh.literal dirs.rootfsAllDir ++ ('/', false) :: g))
    rw [hcons] at hall hnodup ⊢
    have hos : os = [] := by
      refine List.eq_nil_iff_forall_not_mem.mpr fun u hu => ?_
      have hnot := (List.nodup_cons.mp hnodup).1
      rw [hall o List.mem_cons_self, ← hall u (List.mem_cons_of_mem _ hu)] at hnot
      exact hnot hu
    rw [hos, hall o List.mem_cons_self]

theorem globbed_rmWord {w : Text} (hw : w ∈ rmWords) (files : Sh.Files) :
    Sh.globbed files (Sh.literal w) = [w] := by
  rw [(Sh.globbed_iff_fixed (Sh.literal w)).mpr (plain_rmWords w hw).fixed files, Sh.text_literal]

/-- A name that means itself is the operand `rm` gets. -/
theorem sh_rootfs (env : Sh.Env) (closed : Closed fs) (listed : r ∈ rootfsNames dirs fs)
    (h : MeansItself dirs fs r) :
    sh env ⟨fs, []⟩ (rmCommand dirs r) = some (rm ⟨fs, []⟩ [dirs.rootfs r]) := by
  obtain ⟨g, hread, hstands⟩ := h
  have hcommand :
      (Sh.isAssignment (Sh.literal "rm".toList) || Sh.isReserved (Sh.literal "rm".toList))
      = false := by decide
  have hwords : Sh.simpleCommand env (shFiles fs) (rmCommand dirs r)
      = some ["rm".toList, "-r".toList, dirs.rootfs r] := by
    unfold Sh.simpleCommand
    rw [hread.fields env, Option.bind_some]
    refine (if_neg ?_).trans ?_
    · rw [List.head?_cons, Option.any_some, hcommand]
      exact Bool.false_ne_true
    · simp only [List.flatMap_cons, List.flatMap_nil, List.append_nil,
        globbed_rmWord (w := "rm".toList) (.head _),
          globbed_rmWord (w := "-r".toList) (.tail _ (.head _)),
        (globbed_rootfs closed hread.component listed).mpr hstands]
      rfl
  unfold sh
  rw [hwords]
  rfl

/-- No operand that `rm` finds has the value of a parameter in it: there is no such file. -/
theorem not_marked_of_rm {words operands : List Text} (closed : Closed fs)
    (hrm : (rmOperands ⟨fs, []⟩ operands).2 = true) (hwords : ∀ w ∈ words, '/' ∉ w) {f : Sh.Field}
    (hmarked : Sh.Marked (longestName fs + 1) f)
    (hin : ∀ o ∈ Sh.globbed (shFiles fs) f, o ∈ words ++ operands) : False := by
  obtain ⟨o, os, hcons⟩ := List.exists_cons_of_ne_nil (Sh.globbed_ne_nil (shFiles fs) f)
  have ho : o ∈ Sh.globbed (shFiles fs) f := hcons ▸ List.mem_cons_self
  obtain ⟨u, m, rfl, hm, hlong⟩ := Sh.globbed_marked hmarked ho
  rcases List.mem_append.mp (hin _ ho) with hword | hoperand
  · exact hwords _ hword (List.mem_append_right _ List.mem_cons_self)
  · exact not_operand_of_long (d := ⟨fs, []⟩) closed hrm hm hlong hoperand

/-- Whatever the name becomes, the operand is the path of an entry. -/
theorem exists_of_mem_globbed_rootfs (closed : Closed fs) {g : Sh.Field} (hg : '/' ∉ Sh.text g)
    {o : Text}
    (ho : o ∈ Sh.globbed (shFiles fs) (Sh.literal dirs.rootfsAllDir ++ ('/', false) :: g)) :
    ∃ x, '/' ∉ x ∧ o = dirs.rootfs x := by
  rw [mem_globbed_rootfs closed hg] at ho
  split at ho
  · exact ⟨_, hg, ho⟩
  · obtain ⟨m, hm, hmatch, rfl⟩ := ho
    have hmatching : m ∈ (shFiles fs).matching (dirs.rootfsAllDir ++ ['/']) g :=
      (mem_matching_iff closed).mpr ⟨hm, hmatch⟩
    exact ⟨m, ((shFiles fs).isName _ m (List.mem_filter.mp hmatching).1).2.2.2, rfl⟩

/-- **A name that does not mean itself is not what `rm` removes** in some environment. -/
theorem meansItself_of_removed (s : RootfsAll dirs fs base) (listed : r ∈ rootfsNames dirs fs)
    (hr : '/' ∉ r)
    {res : Disk × Bool}
    (hsh : sh (Sh.marking (longestName fs + 1)) ⟨fs, []⟩ (rmCommand dirs r) = some res)
    (hres : res.2 = true)
    (hremoved : Removed (base ++ [r]) fs res.1.fs) : MeansItself dirs fs r := by
  unfold sh at hsh
  split at hsh
  next name option operands hwords =>
    split at hsh
    next hname =>
      cases hsh
      obtain ⟨rfl, rfl⟩ := hname
      obtain ⟨fs', hfields, hall⟩ := Sh.fields_of_simpleCommand hwords
      have hsome : operands ≠ [] := by
        rintro rfl
        cases hres
      rw [rm, if_neg hsome] at hres hremoved
      rw [rmCommand_eq] at hfields
      have hbegin : Sh.Unspecial (dirs.rootfs []) := unspecial_rootfs dirs fun c hc => by cases hc
      rcases Sh.fields_of_marking (fun w hw => (plain_rmWords w hw).unspecial) hbegin hr
        hfields with
        ⟨f, hf, hmarked⟩ | ⟨hsame, g, rest, rfl, hg⟩
      · -- the value of a parameter is in an operand, and there is no such file
        have hwords : ∀ w ∈ rmWords, '/' ∉ w := by decide
        refine (not_marked_of_rm s.closed hres hwords hmarked fun o ho => ?_).elim
        have hword := List.mem_flatMap.mpr ⟨f, hf, ho⟩
        rwa [hall] at hword
      · have hg' : '/' ∉ Sh.text g := by
          intro hmem
          obtain ⟨p, hp, heq⟩ := List.mem_map.mp hmem
          exact hg p hp heq
        rw [literal_rootfs] at hsame hall
        have hoperands : Sh.globbed (shFiles fs) (Sh.literal dirs.rootfsAllDir ++ ('/', false) :: g)
            ++ rest.flatMap (Sh.globbed (shFiles fs)) = operands := by
          have hfirst := globbed_rmWord (w := "rm".toList) (.head _) (shFiles fs)
          have hsecond := globbed_rmWord (w := "-r".toList) (.tail _ (.head _)) (shFiles fs)
          simp only [rmWords, List.map_cons, List.map_nil, List.cons_append, List.nil_append,
            List.flatMap_cons,
            hfirst, hsecond, List.cons.injEq, true_and] at hall
          exact hall
        obtain ⟨o, os, hcons⟩ := List.exists_cons_of_ne_nil
          (Sh.globbed_ne_nil (shFiles fs) (Sh.literal dirs.rootfsAllDir ++ ('/', false) :: g))
        obtain ⟨x, hx, rfl⟩ :=
          exists_of_mem_globbed_rootfs s.closed hg' (hcons ▸ List.mem_cons_self)
        rw [← hoperands, hcons, List.cons_append] at hres hremoved
        obtain ⟨rfl, hos⟩ := only_operand (d := ⟨fs, []⟩) s.resolves hx s.closed hres hremoved
        obtain ⟨rfl, hrest⟩ := List.append_eq_nil_iff.mp hos
        have hlast : rest = [] := by
          cases rest with
          | nil => rfl
          | cons f fs' =>
            rw [List.flatMap_cons] at hrest
            exact absurd (List.append_eq_nil_iff.mp hrest).1 (Sh.globbed_ne_nil (shFiles fs) f)
        subst hlast
        refine ⟨g, ⟨fun env => ?_, hg'⟩, (globbed_rootfs s.closed hg' listed).mp hcons⟩
        rw [rmCommand_eq]
        exact hsame env
    · cases hsh
  · cases hsh

/-! ## Deleting -/

/-- A delete of a rootfs that is not the current one is the shell's run of the command. -/
theorem onChangeRootfsName_del (env : Sh.Env) (s : RootfsAll dirs fs base)
    (hr : r ≠ "current".toList)
    (hcurrent : ¬ IsCurrent dirs fs base r) :
    onChangeRootfsName env dirs ⟨fs, []⟩ r r .del
      = (sh env ⟨fs, []⟩ (rmCommand dirs r)).map fun res =>
          ⟨res.1, if res.2 then none else some .output⟩ := by
  refine if_neg ?_
  rintro (h | h)
  · exact hr h
  · exact hcurrent ((canonical_eq_iff s hr).mp h)

/-- Once the name reaches `rm`, all depends on the directories. -/
theorem deletesOnly_iff_removable (env : Sh.Env) (s : RootfsAll dirs fs base)
    (hthere : fs.get (base ++ [r]) ≠ none) (hr : r ≠ "current".toList)
    (hcurrent : ¬ IsCurrent dirs fs base r)
    (hsh : sh env ⟨fs, []⟩ (rmCommand dirs r) = some (rm ⟨fs, []⟩ [dirs.rootfs r])) :
    DeletesOnly env dirs fs base r ↔ Removable fs (base ++ [r]) := by
  have hdepth : ∀ l', base ++ [r] <+: l' → fs.get l' ≠ none →
      l'.length < (base ++ [r]).length + (height fs + 1) := by
    intro l' _ hget
    have hle := length_le_height hget
    omega
  have hspec := removeTree_spec (height fs + 1)
  have hiff := hspec.iff ⟨fs, []⟩ (base ++ [r]) s.closed hdepth
  rw [List.dropLast_concat] at hiff
  have hcall := onChangeRootfsName_del env s hr hcurrent
  rw [hsh, rm_rootfs (d := ⟨fs, []⟩) s.resolves s.writable.2 (s.closed.names base r hthere),
    Option.map_some] at hcall
  constructor
  · rintro ⟨o, ho, -, hdeleted⟩
    rw [hcall] at ho
    cases ho
    obtain ⟨hthrown, -⟩ := hdeleted hcurrent
    have htrue : (removeTree false (height fs + 1) ⟨fs, []⟩ (base ++ [r])).2 = true := by
      by_contra hfalse
      rw [if_neg hfalse] at hthrown
      cases hthrown
    exact (hiff.mp htrue).2.2
  · intro hremovable
    have htrue := hiff.mpr ⟨hthere, s.writable, hremovable⟩
    refine ⟨_, hcall, fun h => absurd h hcurrent, fun _ => ⟨if_pos htrue, ?_, ?_⟩⟩
    · exact hspec.removed ⟨fs, []⟩ (base ++ [r]) s.closed hdepth htrue
    · obtain ⟨es, hlog, hinside⟩ :=
        (removeTree_within false (height fs + 1) ⟨fs, []⟩ (base ++ [r])).log
      rw [hlog]
      exact hinside

/-- Only a name that means itself is deleted whatever surrounds the shell. -/
theorem meansItself_of_deletesOnly (s : RootfsAll dirs fs base) (listed : r ∈ rootfsNames dirs fs)
    (hslash : '/' ∉ r)
    (hr : r ≠ "current".toList) (hcurrent : ¬ IsCurrent dirs fs base r)
    (h : ∀ env, DeletesOnly env dirs fs base r) : MeansItself dirs fs r := by
  obtain ⟨o, ho, -, hdeleted⟩ := h (Sh.marking (longestName fs + 1))
  obtain ⟨hthrown, hremoved, -⟩ := hdeleted hcurrent
  rw [onChangeRootfsName_del _ s hr hcurrent] at ho
  obtain ⟨res, hsh, rfl⟩ := Option.map_eq_some_iff.mp ho
  have hres : res.2 = true := by
    by_contra hfalse
    rw [if_neg hfalse] at hthrown
    cases hthrown
  exact meansItself_of_removed s listed hslash hsh hres hremoved

/-- What is listed is there. -/
theorem mem_children_of_listed (s : RootfsAll dirs fs base) (listed : r ∈ rootfsNames dirs fs) :
    r ∈ children fs base := by
  unfold rootfsNames list at listed
  rw [s.resolves, Option.bind_some] at listed
  split at listed
  · exact listed
  · cases listed

/-- **Deleting a rootfs touches only that rootfs**, whatever surrounds the shell, if and only if it
is the current one, or its name means itself to the shell and its directories can be emptied. -/
theorem deletesOnly_iff (s : RootfsAll dirs fs base) (listed : r ∈ rootfsNames dirs fs)
    (hr : r ≠ "current".toList) :
    (∀ env, DeletesOnly env dirs fs base r) ↔
      IsCurrent dirs fs base r ∨ MeansItself dirs fs r ∧ Removable fs (base ++ [r]) := by
  have hthere : fs.get (base ++ [r]) ≠ none := mem_children.mp (mem_children_of_listed s listed)
  by_cases hcurrent : IsCurrent dirs fs base r
  · refine ⟨fun _ => .inl hcurrent, fun _ env => ⟨⟨⟨fs, []⟩, some .rootfsRunning⟩, ?_, ?_, ?_⟩⟩
    · exact if_pos (.inr ((canonical_eq_iff s hr).mpr hcurrent))
    · exact fun _ => ⟨rfl, rfl⟩
    · exact fun h => absurd hcurrent h
  · have hdeleted := fun env (hmeans : MeansItself dirs fs r) =>
      deletesOnly_iff_removable env s hthere hr hcurrent (sh_rootfs env s.closed listed hmeans)
    constructor
    · intro h
      have hmeans :=
        meansItself_of_deletesOnly s listed (s.closed.names base r hthere).2.2.2 hr hcurrent h
      exact .inr ⟨hmeans, (hdeleted Sh.bare hmeans).mp (h Sh.bare)⟩
    · rintro (h | ⟨hmeans, hremovable⟩) env
      · exact absurd h hcurrent
      · exact (hdeleted env hmeans).mpr hremovable

/-! ## Two rootfs -/

/-- The location of `rootfsAllDir`. -/
def rootfsAllLoc : Loc := (pathOf AppDirs.primary.rootfsAllDir).drop 1

/-- A device with the rootfs `a` and `a b`; `current` leads to neither. -/
def twoRootfs : FileSystem where
  entries :=
    (rootfsAllLoc.inits.drop 1).map (·, Node.dir 0o700)
      ++ [(rootfsAllLoc ++ ["a".toList], .dir 0o700),
        (rootfsAllLoc ++ ["a".toList, "etc".toList], .dir 0o755),
        (rootfsAllLoc ++ ["a b".toList], .dir 0o700)]
  nodup := by decide +kernel

/-- The file system of the two examples is one that the application keeps. -/
theorem rootfsAll_twoRootfs : RootfsAll .primary twoRootfs rootfsAllLoc where
  closed := closed_of_wellPlaced (by decide +kernel)
  resolves := by decide +kernel
  writable := by
    constructor
    · decide +kernel
    · decide +kernel
  current := by
    intro l hl
    have hnone : resolve twoRootfs false (pathOf AppDirs.primary.rootfsCurrDir) = none := by
      decide +kernel
    rw [hnone] at hl
    cases hl

/-- Deleting `a` is safe. -/
theorem deletesOnly_twoRootfs :
    MeansItself .primary twoRootfs "a".toList ∧ Removable twoRootfs (rootfsAllLoc ++ ["a".toList]) ∧
      ∀ env, DeletesOnly env .primary twoRootfs rootfsAllLoc "a".toList := by
  have hordinary : ∀ c ∈ "a".toList, Sh.classOf c = .ordinary := by
    intro c hc
    obtain rfl := List.mem_singleton.mp hc
    rfl
  have hmeans : MeansItself .primary twoRootfs "a".toList :=
    (meansItself_ordinary hordinary (by decide)).mpr (by decide +kernel)
  have hremovable : Removable twoRootfs (rootfsAllLoc ++ ["a".toList]) :=
    removable_of_canEmpty (by decide +kernel)
  exact ⟨hmeans, hremovable,
    (deletesOnly_iff rootfsAll_twoRootfs (by decide +kernel) (by decide)).mpr
      (.inr ⟨hmeans, hremovable⟩)⟩

/-- Deleting `a b` removes `a`. -/
theorem not_deletesOnly_twoRootfs :
    RootfsAll .primary twoRootfs rootfsAllLoc ∧ "a b".toList ∈ children twoRootfs rootfsAllLoc ∧
      ((onChangeRootfsName Sh.bare .primary ⟨twoRootfs, []⟩ "a b".toList "a b".toList .del).all
        fun o =>
        o.disk.fs.get (rootfsAllLoc ++ ["a".toList]) = none ∧
          o.disk.fs.get (rootfsAllLoc ++ ["a b".toList]) ≠ none) = true ∧
      ¬ ∀ env, DeletesOnly env .primary twoRootfs rootfsAllLoc "a b".toList := by
  refine ⟨rootfsAll_twoRootfs, by decide +kernel, by decide +kernel, ?_⟩
  intro h
  obtain ⟨o, ho, -, hdeleted⟩ := h Sh.bare
  obtain ⟨hthrown, -⟩ := hdeleted (by decide +kernel)
  have houtput :
      (onChangeRootfsName Sh.bare .primary ⟨twoRootfs, []⟩ "a b".toList "a b".toList .del).map
      (·.thrown) = some (some .output) := by decide +kernel
  rw [ho, Option.map_some, hthrown] at houtput
  cases houtput

end WinEmulator.App
