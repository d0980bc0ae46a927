import WinEmulator.Laws.App.ExportRootfs

/-!
# An archive that is installed

The installer finds the rootfs in what it has extracted, moves it to a free name next to the others,
deletes what is left in the temporary directory and rewrites two files. Each of these steps changes
what it is about and nothing else.
-/

set_option autoImplicit false

namespace WinEmulator.App.Rootfs

open WinEmulator.Lib WinEmulator.Lib.Fs WinEmulator.Lib.JavaFile

/-! ## A free name -/

theorem toDigits_injective {m n : Nat} (h : Nat.toDigits 10 m = Nat.toDigits 10 n) : m = n := by
  have hvalue := congrArg (Nat.ofDigitChars 10 · 0) h
  simpa only [Nat.ofDigitChars_ten_toDigits] using hvalue

theorem toDigits_ne_minus {n : Nat} {s : Text} : Nat.toDigits 10 n ≠ '-' :: s := by
  intro heq
  have hdigit : ('-' : Char).isDigit = true :=
    Nat.isDigit_of_mem_toDigits (by decide) (by decide) (heq ▸ List.mem_cons_self)
  exact absurd hdigit (by decide)

/-- Different numbers are written differently. -/
theorem decimal_injective {m n : Int} (h : decimal m = decimal n) : m = n := by
  unfold decimal at h
  split at h
  · split at h
    · have := toDigits_injective (List.cons.inj h).2
      omega
    · exact absurd h.symm toDigits_ne_minus
  · split at h
    · exact absurd h toDigits_ne_minus
    · have := toDigits_injective h
      omega

theorem numbered_injective {baseName : Text} {m n : Int}
    (h : numbered baseName m = numbered baseName n) : m = n :=
  decimal_injective (List.cons.inj (List.append_cancel_left h)).2

/-- A name with a number is no dot. -/
theorem proper_numbered (baseName : Text) (num : Int) : Proper (numbered baseName num) := by
  have hminus : '-' ∈ numbered baseName num := List.mem_append_right _ List.mem_cons_self
  refine ⟨fun heq => ?_, fun heq => ?_, fun heq => ?_⟩ <;>
    rw [heq] at hminus <;> revert hminus <;> decide

section FreeNum

variable {names : List Name} {baseName : Text} {num num' : Int} {n : Nat}

/-- The number that the search returns is free. -/
theorem freeNum_not_mem (h : freeNum names baseName n num = some num') :
    numbered baseName num' ∉ names := by
  induction n generalizing num with
  | zero => cases h
  | succ n ih =>
    rw [freeNum] at h
    split at h
    next => exact ih h
    next hfree => exact Option.some.inj h ▸ hfree

/-- A search that fails has found every number in use. -/
theorem mem_of_freeNum_none (h : freeNum names baseName n num = none)
    (hnum : num.bmod (2 ^ 32) = num) :
    ∀ i < n, numbered baseName ((num + (i : Int)).bmod (2 ^ 32)) ∈ names := by
  induction n generalizing num with
  | zero => exact fun i hi => absurd hi (Nat.not_lt_zero i)
  | succ n ih =>
    rw [freeNum] at h
    split at h
    next hused =>
      intro i hi
      cases i with
      | zero => rwa [Int.natCast_zero, Int.add_zero, hnum]
      | succ i =>
        have hmem := ih h Int.bmod_bmod i (Nat.lt_of_succ_lt_succ hi)
        rwa [Int.bmod_add_bmod, Int.add_assoc, Int.add_comm 1, ← Int.natCast_succ] at hmem
    next => cases h

/-- Fewer than `2 ^ 32` steps of the counter give different numbers. -/
theorem bmod_add_injective {i j : Nat} (hi : i < 2 ^ 32) (hj : j < 2 ^ 32)
    (h : (num + (i : Int)).bmod (2 ^ 32) = (num + (j : Int)).bmod (2 ^ 32)) : i = j := by
  have hbmod := (Int.bmod_add_cancel_left num).mp h
  have hemod : (i : Int) % ((2 ^ 32 : Nat) : Int) = (j : Int) % ((2 ^ 32 : Nat) : Int) := by
    rw [← Int.bmod_emod, hbmod, Int.bmod_emod]
  omega

/-- There are more numbers than names. -/
theorem exists_freeNum (baseName : Text) (hnames : names.length < 2 ^ 32)
    (hnum : num.bmod (2 ^ 32) = num) :
    ∃ num', freeNum names baseName (names.length + 1) num = some num' ∧
      numbered baseName num' ∉ names := by
  cases hfree : freeNum names baseName (names.length + 1) num with
  | some num' => exact ⟨num', rfl, freeNum_not_mem hfree⟩
  | none =>
    have hused := mem_of_freeNum_none hfree hnum
    let tried := (List.range (names.length + 1)).map fun i : Nat =>
      numbered baseName ((num + (i : Int)).bmod (2 ^ 32))
    have hnodup : tried.Nodup := by
      refine List.Nodup.map_on (fun i hi j hj heq => ?_) List.nodup_range
      rw [List.mem_range] at hi hj
      exact bmod_add_injective (by omega) (by omega) (numbered_injective heq)
    have hsubset : tried ⊆ names := by
      intro name hname
      obtain ⟨i, hi, rfl⟩ := List.mem_map.mp hname
      exact hused i (List.mem_range.mp hi)
    have hle := (List.subperm_of_subset hnodup hsubset).length_le
    rw [List.length_map, List.length_range] at hle
    exact absurd hle (Nat.not_succ_le_self _)

end FreeNum

section Number

variable {digit : Char → Option Nat} {name baseName : Text} {num : Int}

/-- The number of a name is one of 32 bits. -/
theorem bmod_baseNameAndNum (h : baseNameAndNum digit name = some (baseName, num)) :
    num.bmod (2 ^ 32) = num := by
  unfold baseNameAndNum at h
  split at h
  next base digits hmatch =>
    obtain ⟨n, hn, heq⟩ := Option.map_eq_some_iff.mp h
    obtain ⟨k, -, hk⟩ := Option.bind_eq_some_iff.mp hn
    split at hk
    next hlt =>
      rw [← (Prod.mk.inj heq).2, ← Option.some.inj hk]
      exact Int.bmod_eq_of_le (by omega) (by omega)
    next => cases hk
  next =>
    rw [← (Prod.mk.inj (Option.some.inj h)).2]
    decide

end Number

/-! ## Where it is installed -/

/-- What the installer has to find once it has deleted what an earlier one left: its two
directories, and nothing where it extracts to. -/
structure Ready (tmpDir rootfsAllDir : Path) (fs : FileSystem) (tmp all : Loc) : Prop where
  closed : Closed fs
  tmpDir : resolve fs false tmpDir = some tmp
  tmpWritable : Writable fs tmp
  allDir : resolve fs false rootfsAllDir = some all
  allReadable : dirGrants fs all .read = true
  allWritable : Writable fs all
  apart : all ≠ tmp
  archive : fs.get (tmp ++ ["archive-rootfs-tmp".toList]) = none
  outDir : fs.get (tmp ++ ["extracted-rootfs".toList]) = none
  /-- There are fewer rootfs than numbers. -/
  room : (children fs all).length < 2 ^ 32

/-- Where the archive is extracted to. -/
def outLoc (tmp : Loc) : Loc := tmp ++ ["extracted-rootfs".toList]

theorem ne_nil_of_writable {fs : FileSystem} {l : Loc} (h : Writable fs l) : l ≠ [] := by
  rintro rfl
  exact absurd h.1 Bool.false_ne_true

namespace Ready

variable {tmpDir rootfsAllDir : Path} {fs : FileSystem} {tmp all : Loc}

theorem clear_tmp (h : Ready tmpDir rootfsAllDir fs tmp all) {c : Name} (hc : Proper c) :
    Clear fs (tmp ++ [c]) :=
  (walk_clear clear_nil h.tmpDir).concat hc h.tmpWritable.2

theorem clear_all (h : Ready tmpDir rootfsAllDir fs tmp all) {c : Name} (hc : Proper c) :
    Clear fs (all ++ [c]) :=
  (walk_clear clear_nil h.allDir).concat hc h.allWritable.2

/-- Nothing is below what does not exist. -/
theorem below_none (h : Ready tmpDir rootfsAllDir fs tmp all) {l l' : Loc} (hl : l ≠ [])
    (hnone : fs.get l = none)
    (hle : l <+: l') : fs.get l' = none := by
  by_cases heq : l = l'
  · rw [← heq]
    exact hnone
  · refine h.closed.below hle heq fun m => ?_
    rw [node_of_ne_nil hl, hnone]
    exact nofun

/-- There is nothing below the directory yet. -/
theorem out_none (h : Ready tmpDir rootfsAllDir fs tmp all) {l : Loc} (hle : outLoc tmp <+: l) :
    fs.get l = none :=
  h.below_none (by simp) h.outDir hle

theorem not_out_prefix_all (h : Ready tmpDir rootfsAllDir fs tmp all) :
    ¬ outLoc tmp <+: all := fun hle =>
  ne_none_of_dirGrants (ne_nil_of_writable h.allWritable) h.allReadable (h.out_none hle)

/-- A free name in the one directory is not on the way to anything in the other. -/
theorem not_prefix_tmp (h : Ready tmpDir rootfsAllDir fs tmp all) {t : Name}
    (hfree : fs.get (all ++ [t]) = none)
    (c : Name) : ¬ all ++ [t] <+: tmp ++ [c] := by
  intro hle
  rcases List.prefix_concat_iff.mp hle with heq | hle
  · exact h.apart (List.append_inj_left' heq rfl)
  · exact ne_none_of_dirGrants (ne_nil_of_writable h.tmpWritable) h.tmpWritable.1
      (h.below_none (by simp) hfree hle)

/-- And what is extracted is not on the way to it. -/
theorem not_out_prefix (h : Ready tmpDir rootfsAllDir fs tmp all) (t : Name) :
    ¬ outLoc tmp <+: all ++ [t] := by
  intro hle
  rcases List.prefix_concat_iff.mp hle with heq | hle
  · exact h.apart (List.append_inj_left' heq rfl).symm
  · exact h.not_out_prefix_all hle

/-- Nothing is left from an earlier installation. -/
theorem not_left {d : Disk} (h : Ready tmpDir rootfsAllDir d.fs tmp all) :
    isLeft tmpDir d = false := by
  have hnone : resolve d.fs false (tmpDir ++ ([] ++ ["extracted-rootfs".toList])) = none :=
    resolve_below_none h.tmpDir (h.clear_tmp (by decide)) h.outDir
  show (resolve d.fs false (tmpDir ++ ["extracted-rootfs".toList])).isSome = false
  rw [show resolve d.fs false (tmpDir ++ ["extracted-rootfs".toList]) = none from hnone]
  rfl

/-- `mkdirs` makes the directory of the installation, and nothing else. -/
theorem mkdirs_eq {d : Disk} (h : Ready tmpDir rootfsAllDir d.fs tmp all) :
    (mkdirs d (tmpOutDir tmpDir)).1 = d.apply (outLoc tmp, some (.dir newDirMode)) := by
  have hwrite : dirGrants d.fs (tmp ++ []) .write = true := by
    rw [List.append_nil]
    exact h.tmpWritable.1
  have hmkdirs : (mkdirs d (tmpDir ++ ([] ++ ["extracted-rootfs".toList]))).1 = _ :=
    mkdirs_below h.tmpDir (h.clear_tmp (by decide)) h.outDir hwrite
  exact hmkdirs

/-- The archive is extracted to an empty directory. -/
theorem fresh_out {d : Disk} (h : Ready tmpDir rootfsAllDir d.fs tmp all) :
    Fresh (d.apply (outLoc tmp, some (.dir newDirMode))).fs (outLoc tmp) := by
  refine ⟨⟨newDirMode, (LinkedMap.get_set _ _ _ _).trans (if_pos rfl), grantsAll_newDirMode⟩,
    fun l hle hne => ?_⟩
  exact ((LinkedMap.get_set _ _ _ _).trans (if_neg hne)).trans (h.out_none hle)

/-- The path of that directory leads to it afterwards. -/
theorem place_out {d : Disk} (h : Ready tmpDir rootfsAllDir d.fs tmp all) :
    place (d.apply (outLoc tmp, some (.dir newDirMode))).fs (tmpOutDir tmpDir) =
      some (outLoc tmp) := by
  have hgrows : Grows d.fs (d.apply (outLoc tmp, some (.dir newDirMode))).fs :=
    Grows.set (fun _ _ => rfl) (h.out_none (List.prefix_refl _)) _
  exact place_concat_iff.mpr
    ⟨by decide, tmp, hgrows.resolve h.tmpDir, hgrows.dirGrants h.tmpWritable.2, rfl⟩

/-- The file system stays closed. -/
theorem closed_out {d : Disk} (h : Ready tmpDir rootfsAllDir d.fs tmp all) :
    Closed (d.apply (outLoc tmp, some (.dir newDirMode))).fs := by
  have hget : ∀ l, (d.apply (outLoc tmp, some (.dir newDirMode))).fs.get l =
      if l = outLoc tmp then some (.dir newDirMode)
      else d.fs.get l := fun l => LinkedMap.get_set _ _ _ _
  have hnode : ∀ l m, node d.fs l = some (.dir m) →
      node (d.apply (outLoc tmp, some (.dir newDirMode))).fs l = some (.dir m) := by
    intro l m hm
    by_cases hl : l = []
    · rw [hl] at hm ⊢
      exact hm
    · rw [node_of_ne_nil hl] at hm ⊢
      rw [hget, if_neg, hm]
      rintro rfl
      rw [h.out_none (List.prefix_refl _)] at hm
      cases hm
  refine ⟨?_, fun l c hc => ?_, fun l c hc => ?_⟩
  · rw [hget, if_neg, h.closed.root]
    simp [outLoc]
  · rw [hget] at hc
    split at hc
    next heq =>
      obtain rfl : c = "extracted-rootfs".toList :=
        List.singleton_inj.mp (List.append_inj_right' heq rfl)
      decide
    next => exact h.closed.names l c hc
  · rw [hget] at hc
    split at hc
    next heq =>
      obtain rfl : l = tmp := List.append_inj_left' heq rfl
      obtain ⟨m, hm, -⟩ := get_of_dirGrants (ne_nil_of_writable h.tmpWritable) h.tmpWritable.1
      exact ⟨m, hnode l m (by rw [node_of_ne_nil (ne_nil_of_writable h.tmpWritable), hm])⟩
    next =>
      obtain ⟨m, hm⟩ := h.closed.parents l c hc
      exact ⟨m, hnode l m hm⟩

end Ready

/-! ## The search -/

/-- What has been extracted: a single directory with `etc` and `usr` in it. -/
structure Extracted (fs : FileSystem) (out : Loc) (name : Name) (fs' : FileSystem) : Prop where
  proper : Proper name
  outside : ∀ l, ¬ out <+: l → fs'.get l = fs.get l
  top : fs'.get out = some (.dir newDirMode)
  only : ∀ c, fs'.get (out ++ [c]) ≠ none ↔ c = name
  rootfs : ∃ m, fs'.get (out ++ [name]) = some (.dir m) ∧ grantsAll m
  contents : ∀ c ∈ ["etc".toList, "usr".toList], fs'.get (out ++ [name] ++ [c]) ≠ none

section Move

variable {tmpDir rootfsAllDir : Path} {fs fs' : FileSystem} {tmp all : Loc} {name : Name}

/-- Extraction only adds. -/
theorem Extracted.grows (ready : Ready tmpDir rootfsAllDir fs tmp all)
    (h : Extracted fs (outLoc tmp) name fs') :
    Grows fs fs' := fun l hl => h.outside l fun hle => hl (ready.out_none hle)

theorem Extracted.dirGrants_out (h : Extracted fs (outLoc tmp) name fs') (a : Access) :
    dirGrants fs' (outLoc tmp) a = true := by
  rw [dirGrants, node_of_ne_nil (by simp [outLoc]), h.top]
  exact grantsAll_newDirMode a

theorem Extracted.resolve_out (ready : Ready tmpDir rootfsAllDir fs tmp all)
    (h : Extracted fs (outLoc tmp) name fs') :
    resolve fs' false (tmpOutDir tmpDir) = some (outLoc tmp) :=
  resolve_dir_below ((h.grows ready).resolve ready.tmpDir)
    ((h.grows ready).clear (ready.clear_tmp (by decide)))
    (h.dirGrants_out .search)

theorem Extracted.clear (ready : Ready tmpDir rootfsAllDir fs tmp all)
    (h : Extracted fs (outLoc tmp) name fs') :
    Clear fs' (outLoc tmp ++ [name]) :=
  ((h.grows ready).clear (ready.clear_tmp (by decide))).concat h.proper (h.dirGrants_out .search)

theorem Extracted.children_out (h : Extracted fs (outLoc tmp) name fs') :
    children fs' (outLoc tmp) = [name] := by
  refine List.perm_singleton.mp
    ((List.perm_ext_iff_of_nodup (nodup_children _ _) (List.nodup_singleton _)).mpr ?_)
  intro c
  rw [mem_children, h.only, List.mem_singleton]

theorem list_of_dirGrants {p : Path} {l : Loc} (hp : resolve fs false p = some l)
    (h : dirGrants fs l .read = true) :
    list fs p = some (children fs l) := by
  rw [list, hp, Option.bind_some, if_pos h]

/-- The rootfs is found at the second place. -/
theorem Extracted.findRootfsDir_eq (ready : Ready tmpDir rootfsAllDir fs tmp all)
    (h : Extracted fs (outLoc tmp) name fs') (n : Nat) :
    findRootfsDir fs' (n + 2) [tmpOutDir tmpDir] = some (some (tmpOutDir tmpDir ++ [name])) := by
  have htop := list_of_dirGrants (h.resolve_out ready) (h.dirGrants_out .read)
  rw [h.children_out] at htop
  have hnot : ¬ ("etc".toList ∈ [name] ∧ "usr".toList ∈ [name]) := by
    rw [List.mem_singleton, List.mem_singleton]
    rintro ⟨hetc, husr⟩
    exact absurd (hetc.trans husr.symm) (by decide)
  obtain ⟨m, hm, hgrants⟩ := h.rootfs
  have hdirGrants : ∀ a, dirGrants fs' (outLoc tmp ++ [name]) a = true := by
    intro a
    rw [dirGrants, node_of_ne_nil (by simp), hm]
    exact hgrants a
  have hfound :=
    list_of_dirGrants (resolve_dir_below (h.resolve_out ready) (h.clear ready) (hdirGrants .search))
    (hdirGrants .read)
  have hmem : ∀ c ∈ ["etc".toList, "usr".toList],
      c ∈ children fs' (outLoc tmp ++ [name]) := fun c hc =>
    mem_children.mpr (h.contents c hc)
  rw [findRootfsDir, htop]
  dsimp only
  rw [if_neg hnot, List.nil_append, List.map_cons, List.map_nil, findRootfsDir, hfound]
  exact if_pos ⟨hmem _ (by simp), hmem _ (by simp)⟩

/-! ## The move -/

/-- The rootfs has a name of its own, and nothing else is new. -/
structure Installed (fs : FileSystem) (all : Loc) (t : Name) (tree : List Name → Option Node)
    (fs' : FileSystem) :
    Prop where
  proper : Proper t
  free : ∀ rel, fs.get (all ++ [t] ++ rel) = none
  grows : Grows fs fs'
  tree : ∀ rel, fs'.get (all ++ [t] ++ rel) = tree rel

/-- A free name has nothing at it, nor below it. -/
theorem Extracted.free (ready : Ready tmpDir rootfsAllDir fs tmp all)
    (h : Extracted fs (outLoc tmp) name fs') {t : Name}
    (ht : t ∉ children fs' all) (rel : List Name) :
    fs.get (all ++ [t] ++ rel) = none ∧ fs'.get (all ++ [t] ++ rel) = none := by
  rw [mem_children, not_not] at ht
  have hfree : fs.get (all ++ [t]) = none := (h.outside _ (ready.not_out_prefix t)).symm.trans ht
  have hnone := ready.below_none (by simp) hfree (List.prefix_append (all ++ [t]) rel)
  refine ⟨hnone, (h.outside _ fun hle => ?_).trans hnone⟩
  rcases List.prefix_or_prefix_of_prefix hle (List.prefix_append (all ++ [t]) rel) with hle | hle
  · exact ready.not_out_prefix t hle
  · exact ready.not_prefix_tmp hfree _ hle

theorem Extracted.length_children (ready : Ready tmpDir rootfsAllDir fs tmp all)
    (h : Extracted fs (outLoc tmp) name fs') : (children fs' all).length < 2 ^ 32 := by
  have hsubset : children fs' all ⊆ children fs all := by
    intro c hc
    rw [mem_children] at hc ⊢
    rwa [← h.outside _ (ready.not_out_prefix c)]
  exact Nat.lt_of_le_of_lt (List.subperm_of_subset (nodup_children _ _) hsubset).length_le
    ready.room

/-- The rename to a free name succeeds and moves the whole tree. -/
theorem Extracted.rename_eq {d : Disk} (ready : Ready tmpDir rootfsAllDir fs tmp all)
    (h : Extracted fs (outLoc tmp) name d.fs) {t : Name} (hproper : Proper t)
    (ht : t ∉ children d.fs all) :
    ∃ d', rename d (tmpOutDir tmpDir ++ [name]) (rootfsAllDir ++ [t]) = some d' ∧
      Moved (outLoc tmp ++ [name]) (all ++ [t]) d.fs d'.fs := by
  have hgrows := h.grows ready
  obtain ⟨m, hm, hgrants⟩ := h.rootfs
  have hp : place d.fs (tmpOutDir tmpDir ++ ([] ++ [name])) = some (outLoc tmp ++ ([] ++ [name])) :=
    place_below (h.resolve_out ready) (h.clear ready)
  have hq : place d.fs (rootfsAllDir ++ ([] ++ [t])) = some (all ++ ([] ++ [t])) :=
    place_below (hgrows.resolve ready.allDir) (hgrows.clear (ready.clear_all hproper))
  refine rename_moved hp hq hm (hgrants .write) ?_ ?_ (fun hle => ?_) fun rel =>
    (h.free ready ht rel).2
  · rw [List.dropLast_concat]
    exact h.dirGrants_out .write
  · rw [List.dropLast_concat]
    exact hgrows.dirGrants ready.allWritable.1
  · exact ready.not_out_prefix t ((List.prefix_append _ _).trans hle)

section Moved

variable {d : Disk} {t : Name}

/-- Extraction and rename together add only. -/
theorem Extracted.moved_grows (ready : Ready tmpDir rootfsAllDir fs tmp all)
    (h : Extracted fs (outLoc tmp) name fs')
    (ht : t ∉ children fs' all) (hmoved : Moved (outLoc tmp ++ [name]) (all ++ [t]) fs' d.fs) :
    Grows fs d.fs := by
  intro l hl
  rw [hmoved.others l, h.grows ready l hl]
  · exact fun hle => hl (ready.out_none ((List.prefix_append _ _).trans hle))
  · rintro ⟨rel, rfl⟩
    exact hl (h.free ready ht rel).1

/-- Nothing but the rootfs has left the directory or come to it. -/
theorem Extracted.moved_tmp (ready : Ready tmpDir rootfsAllDir fs tmp all)
    (h : Extracted fs (outLoc tmp) name fs')
    (ht : t ∉ children fs' all) (hmoved : Moved (outLoc tmp ++ [name]) (all ++ [t]) fs' d.fs)
    (c : Name) :
    d.fs.get (tmp ++ [c]) = fs'.get (tmp ++ [c]) := by
  have hfree := (h.free ready ht []).1
  rw [List.append_nil] at hfree
  refine hmoved.others _ (fun hle => ?_) (ready.not_prefix_tmp hfree c)
  have hlength := hle.length_le
  simp [outLoc] at hlength

/-- After the rename the directory of the installation is empty. -/
theorem Extracted.moved_children (ready : Ready tmpDir rootfsAllDir fs tmp all)
    (h : Extracted fs (outLoc tmp) name fs')
    (ht : t ∉ children fs' all) (hmoved : Moved (outLoc tmp ++ [name]) (all ++ [t]) fs' d.fs) :
    children d.fs (outLoc tmp) = [] := by
  have hfree := (h.free ready ht []).1
  rw [List.append_nil] at hfree
  rw [children_eq_nil_iff]
  intro c
  by_cases hc : c = name
  · rw [hc, ← List.append_nil (outLoc tmp ++ [name])]
    exact hmoved.gone []
  · rw [hmoved.others]
    · exact not_not.mp fun hget => hc ((h.only c).mp hget)
    · exact not_prefix_sibling (Ne.symm hc) (List.prefix_refl _)
    · intro hle
      rcases List.prefix_concat_iff.mp hle with heq | hle
      · have hout : all = outLoc tmp := List.append_inj_left' heq rfl
        exact ready.not_out_prefix_all (hout ▸ List.prefix_refl _)
      · exact ready.not_prefix_tmp hfree _ hle

/-- What is left of the extraction is an empty directory, and it is deleted. -/
theorem Extracted.cleared_eq (ready : Ready tmpDir rootfsAllDir fs tmp all)
    (h : Extracted fs (outLoc tmp) name fs')
    (ht : t ∉ children fs' all) (hmoved : Moved (outLoc tmp ++ [name]) (all ++ [t]) fs' d.fs) :
    cleared tmpDir d = d.apply (outLoc tmp, none) := by
  have hgrows := h.moved_grows ready ht hmoved
  have hp := hgrows.resolve ready.tmpDir
  have harchive : d.fs.get (tmp ++ ["archive-rootfs-tmp".toList]) = none := by
    rw [h.moved_tmp ready ht hmoved, h.outside, ready.archive]
    exact not_prefix_sibling (by decide) (List.prefix_refl _)
  have htop : d.fs.get (outLoc tmp) = some (.dir newDirMode) :=
    (h.moved_tmp ready ht hmoved _).trans h.top
  have hdelete : delete d (tmpDir ++ ([] ++ ["archive-rootfs-tmp".toList])) = d :=
    delete_of_none hp (hgrows.clear (ready.clear_tmp (by decide))) harchive
  have hwrite : dirGrants d.fs (tmp ++ []) .write = true := by
    rw [List.append_nil]
    exact hgrows.dirGrants ready.tmpWritable.1
  have hdeleteDirectory : deleteDirectory d (tmpDir ++ ([] ++ ["extracted-rootfs".toList])) = _ :=
    deleteDirectory_below hp (hgrows.clear (ready.clear_tmp (by decide))) htop
      (grantsAll_newDirMode .read)
      (h.moved_children ready ht hmoved) hwrite
  rw [cleared, show delete d (tmpArchiveFile tmpDir) = d from hdelete]
  exact hdeleteDirectory

/-- **The rename and the removal of the directory leave the rootfs installed.** -/
theorem Extracted.installed (ready : Ready tmpDir rootfsAllDir fs tmp all)
    (h : Extracted fs (outLoc tmp) name fs')
    (hproper : Proper t) (ht : t ∉ children fs' all)
    (hmoved : Moved (outLoc tmp ++ [name]) (all ++ [t]) fs' d.fs) :
    Installed fs all t (fun rel => fs'.get (outLoc tmp ++ [name] ++ rel))
      (d.apply (outLoc tmp, none)).fs where
  proper := hproper
  free rel := (h.free ready ht rel).1
  grows := (h.moved_grows ready ht hmoved).set (ready.out_none (List.prefix_refl _)) none
  tree := by
    intro rel
    rw [get_apply_none, if_neg, hmoved.there]
    intro heq
    have hfree := (h.free ready ht []).1
    rw [List.append_nil] at hfree
    exact ready.not_prefix_tmp hfree _ (heq ▸ List.prefix_append (all ++ [t]) rel)

end Moved

variable {digit : Char → Option Nat}

/-- **The rootfs is moved to a free name, and the temporary directory is gone.** -/
theorem Extracted.installExtracted_eq {d : Disk} (ready : Ready tmpDir rootfsAllDir fs tmp all)
    (h : Extracted fs (outLoc tmp) name d.fs) (hnumber : (baseNameAndNum digit name).isSome = true)
    (n : Nat) :
    ∃ d' t, Installed fs all t (fun rel => d.fs.get (outLoc tmp ++ [name] ++ rel)) d'.fs ∧
      installExtracted digit tmpDir rootfsAllDir (n + 2) d =
        (postExtractRootfs d' (rootfsAllDir ++ [t])).map fun d => (d, rootfsAllDir ++ [t]) := by
  obtain ⟨⟨baseName, num⟩, hnum⟩ := Option.isSome_iff_exists.mp hnumber
  have hgrows := h.grows ready
  have hlist := list_of_dirGrants (hgrows.resolve ready.allDir) (hgrows.dirGrants ready.allReadable)
  obtain ⟨num', hfree, ht⟩ :=
    exists_freeNum baseName (h.length_children ready) (bmod_baseNameAndNum hnum)
  have hproper := proper_numbered baseName num'
  obtain ⟨moved, hrename, hmoved⟩ := h.rename_eq ready hproper ht
  have hinstalled := h.installed ready hproper ht hmoved
  refine ⟨moved.apply (outLoc tmp, none), numbered baseName num', hinstalled, ?_⟩
  have hexists : ¬ exists_ d.fs (rootfsAllDir ++ [numbered baseName num']) = true := by
    have hnone : resolve d.fs false (rootfsAllDir ++ ([] ++ [numbered baseName num'])) = none :=
      resolve_below_none (hgrows.resolve ready.allDir) (hgrows.clear (ready.clear_all hproper))
        (not_not.mp (mt mem_children.mpr ht))
    exact not_exists_of_none hnone
  have hleft : ¬ isLeft tmpDir (moved.apply (outLoc tmp, none)) = true := by
    have hnone :
        resolve (moved.apply (outLoc tmp, none)).fs false
          (tmpDir ++ ([] ++ ["extracted-rootfs".toList])) = none :=
      resolve_below_none (hinstalled.grows.resolve ready.tmpDir)
        (hinstalled.grows.clear (ready.clear_tmp (by decide)))
        ((get_apply_none moved (outLoc tmp) (outLoc tmp)).trans (if_pos rfl))
    exact not_exists_of_none hnone
  rw [installExtracted, h.findRootfsDir_eq ready, Option.join_some, Option.bind_some,
    getName_concat, hnum, Option.bind_some]
  dsimp only
  rw [hlist, Option.getD_some, hfree, Option.bind_some, if_neg hexists, hrename, Option.bind_some,
    h.cleared_eq ready ht hmoved, if_neg hleft]

/-- A number that is too great ends the installation. -/
theorem Extracted.installExtracted_none {d : Disk} (ready : Ready tmpDir rootfsAllDir fs tmp all)
    (h : Extracted fs (outLoc tmp) name d.fs) (hnumber : baseNameAndNum digit name = none)
    (n : Nat) :
    installExtracted digit tmpDir rootfsAllDir (n + 2) d = none := by
  rw [installExtracted, h.findRootfsDir_eq ready, Option.join_some, Option.bind_some,
    getName_concat, hnumber]
  rfl

/-- In an empty directory no rootfs is found. -/
theorem installExtracted_of_empty {d : Disk} (hlist : list d.fs (tmpOutDir tmpDir) = some [])
    (n : Nat) :
    installExtracted digit tmpDir rootfsAllDir n d = none := by
  have hfind : (findRootfsDir d.fs n [tmpOutDir tmpDir]).join = none := by
    cases n with
    | zero => rfl
    | succ n =>
      rw [findRootfsDir, hlist]
      cases n <;> rfl
  rw [installExtracted, hfind]
  rfl

end Move

/-! ## The two files -/

/-- `File.delete` and `File.writeText` come to a new file: the old one can be deleted, or it can be
written. -/
def Rewritable (fs : FileSystem) (l : Loc) (c : Name) : Prop :=
  if dirGrants fs l .write = true then
    ∀ m, fs.get (l ++ [c]) = some (.dir m) → children fs (l ++ [c]) = []
  else ∃ content m, fs.get (l ++ [c]) = some (.file content m) ∧ grants m .write = true

section Rewrite

variable {fs : FileSystem} {d : Disk} {p : Path} {l : Loc} {cs : List Name} {c : Name}

/-- What can be deleted is deleted. -/
theorem delete_spec (hp : resolve fs false p = some l) (hgrows : Grows fs d.fs)
    (hclear : Clear d.fs (l ++ (cs ++ [c]))) (hwrite : dirGrants d.fs (l ++ cs) .write = true)
    (hempty : ∀ m, d.fs.get (l ++ (cs ++ [c])) = some (.dir m) →
      children d.fs (l ++ (cs ++ [c])) = []) :
    ∀ x, (delete d (p ++ (cs ++ [c]))).fs.get x = if x = l ++ (cs ++ [c]) then none
      else d.fs.get x := by
  intro x
  cases hget : d.fs.get (l ++ (cs ++ [c])) with
  | none =>
    rw [delete_of_none (hgrows.resolve hp) hclear hget]
    split
    next heq => rw [heq, hget]
    next => rfl
  | some n =>
    rw [delete, removeEffect_below (hgrows.resolve hp) hclear hget
      (fun m hm => hempty m (by rw [hget, hm])) hwrite]
    exact get_apply_none d _ x

/-- **The file has its new content, and nothing else has changed.** -/
theorem rewrite_spec (hp : resolve fs false p = some l) (hgrows : Grows fs d.fs)
    (hfree : fs.get (l ++ (cs ++ [c])) = none)
    (hclear : Clear d.fs (l ++ (cs ++ [c]))) (hrewritable : Rewritable d.fs (l ++ cs) c)
    (content : List UInt8) :
    ∃ d' m, rewrite d (p ++ (cs ++ [c])) content = some d' ∧
      ∀ x, d'.fs.get x = if x = l ++ (cs ++ [c]) then some (.file content m) else d.fs.get x := by
  rw [Rewritable, List.append_assoc] at hrewritable
  split at hrewritable
  next hwrite =>
    have hdeleted := delete_spec hp hgrows hclear hwrite hrewritable
    generalize hdelete : delete d (p ++ (cs ++ [c])) = deleted at hdeleted
    have hsame : ∀ x, deleted.fs.get x = (d.fs.set (l ++ (cs ++ [c])) none).get x := fun x => by
      rw [hdeleted, LinkedMap.get_set]
    have hgrows' : Grows fs deleted.fs := fun x hx => (hsame x).trans (hgrows.set hfree none x hx)
    have hclear' : Clear deleted.fs (l ++ (cs ++ [c])) := fun q c' hle => by
      rw [dirGrants_congr _ (hsame q)]
      exact hclear.set none q c' hle
    have hwrite' : dirGrants deleted.fs (l ++ cs) .write = true := by
      rw [dirGrants_congr _ ((hdeleted (l ++ cs)).trans (if_neg fun heq => ?_)), hwrite]
      have hlength := congrArg List.length heq
      simp at hlength
    have heffect :=
      writeEffect_below (hgrows'.resolve hp) hclear' ((hdeleted _).trans (if_pos rfl))
        hwrite' content
    refine ⟨deleted.apply (l ++ (cs ++ [c]), some (.file content newFileMode)), newFileMode, ?_,
      fun x => ?_⟩
    · rw [rewrite, hdelete, heffect, Option.map_some]
    · rw [Disk.apply, LinkedMap.get_set, hdeleted]
      split <;> rfl
  next hwrite =>
    obtain ⟨old, m, hfile, hgrants⟩ := hrewritable
    have hdelete : delete d (p ++ (cs ++ [c])) = d := by
      rw [delete, removeEffect, place_below (hgrows.resolve hp) hclear, Option.bind_some, hfile,
        dropLast_below]
      show d.perform (if dirGrants d.fs (l ++ cs) .write = true then _ else none) = d
      rw [if_neg hwrite]
      rfl
    have hresolve := resolve_node_below (hgrows.resolve hp) hclear true hfile fun t h => by cases h
    refine ⟨d.apply (l ++ (cs ++ [c]), some (.file content m)), m, ?_,
      fun x => LinkedMap.get_set _ _ _ _⟩
    rw [rewrite, hdelete, writeEffect, hresolve, Option.bind_some, hfile]
    show Option.map d.apply (if grants m .write = true then _ else none) = _
    rw [if_pos hgrants, Option.map_some]

/-! ### Files that cannot be rewritten -/

/-- Writing a file never writes through a link. -/
theorem writeEffect_not_link {content : List UInt8} {e : Effect}
    (h : writeEffect fs p content = some e) (target : List Char) :
    fs.get e.1 ≠ some (.link target) := by
  obtain ⟨x, -, hx⟩ := Option.bind_eq_some_iff.mp h
  intro hlink
  split at hx
  next hget =>
    split at hx
    · rw [← Option.some.inj hx, hget] at hlink
      cases hlink
    · cases hx
  next hget =>
    split at hx
    · rw [← Option.some.inj hx, hget] at hlink
      cases hlink
    · cases hx
  next => cases hx

/-- A link elsewhere stays. -/
theorem rewrite_link {d' : Disk} {content : List UInt8} {x : Loc} {target : List Char}
    (h : rewrite d p content = some d') (hlink : d.fs.get x = some (.link target))
    (hplace : place d.fs p ≠ some x) :
    d'.fs.get x = some (.link target) := by
  have hdeleted : (delete d p).fs.get x = some (.link target) := by
    rw [delete]
    cases heffect : removeEffect d.fs p with
    | none => exact hlink
    | some e =>
      obtain ⟨l, hp, rfl⟩ := remove_of_effect heffect
      refine (LinkedMap.get_set _ _ _ _).trans ((if_neg ?_).trans hlink)
      rintro rfl
      exact hplace hp
  obtain ⟨e, he, rfl⟩ := Option.map_eq_some_iff.mp h
  refine (LinkedMap.get_set _ _ _ _).trans ((if_neg ?_).trans hdeleted)
  rintro rfl
  exact writeEffect_not_link he target hdeleted

/-- Nothing is deleted from a directory that cannot be written. -/
theorem delete_of_not_writable (hp : resolve d.fs false p = some l)
    (hclear : Clear d.fs (l ++ (cs ++ [c])))
    (hwrite : dirGrants d.fs (l ++ cs) .write ≠ true) : delete d (p ++ (cs ++ [c])) = d := by
  have heffect : removeEffect d.fs (p ++ (cs ++ [c])) = none := by
    rw [removeEffect, place_below hp hclear, Option.bind_some, dropLast_below]
    split
    · rfl
    · exact if_neg fun h => hwrite h.2
    · exact if_neg hwrite
  rw [delete, heffect]
  rfl

/-- What cannot be rewritten fails, or it is a link and stays one. -/
theorem link_of_not_rewritable {d' : Disk} {content : List UInt8}
    (hp : resolve d.fs false p = some l)
    (hclear : Clear d.fs (l ++ (cs ++ [c]))) (hnot : ¬ Rewritable d.fs (l ++ cs) c)
    (h : rewrite d (p ++ (cs ++ [c])) content = some d') :
    ∃ target, d'.fs.get (l ++ (cs ++ [c])) = some (.link target) := by
  rw [Rewritable, List.append_assoc] at hnot
  -- the write goes to the name itself, unless that is a link
  have hresolve : (∀ target, d.fs.get (l ++ (cs ++ [c])) ≠ some (.link target)) →
      resolve d.fs true (p ++ (cs ++ [c])) = some (l ++ (cs ++ [c])) := fun hlink =>
    resolve_below hp hclear true hlink (.inr (.inl rfl))
  obtain ⟨e, he, rfl⟩ := Option.map_eq_some_iff.mp h
  split at hnot
  next hwrite =>
    simp only [not_forall] at hnot
    obtain ⟨m, hm, hchildren⟩ := hnot
    have hdelete : delete d (p ++ (cs ++ [c])) = d := by
      rw [delete, removeEffect, place_below hp hclear, Option.bind_some, hm]
      show d.perform (if _ then _ else none) = d
      rw [if_neg fun hcond => hchildren hcond.1]
      rfl
    rw [hdelete, writeEffect, hresolve (fun t h => by cases hm.symm.trans h), Option.bind_some, hm]
      at he
    cases he
  next hwrite =>
    rw [delete_of_not_writable hp hclear hwrite] at he ⊢
    cases hget : d.fs.get (l ++ (cs ++ [c])) with
    | none =>
      rw [writeEffect, hresolve (fun t h => by cases hget.symm.trans h), Option.bind_some, hget,
        dropLast_below] at he
      exact absurd (he.symm.trans (if_neg hwrite)) (Option.some_ne_none _)
    | some n =>
      cases n with
      | dir m =>
        rw [writeEffect, hresolve (fun t h => by cases hget.symm.trans h), Option.bind_some, hget]
          at he
        cases he
      | file old m =>
        rw [writeEffect, hresolve (fun t h => by cases hget.symm.trans h), Option.bind_some, hget]
          at he
        have hgrants : ¬ grants m .write = true := fun hgrants => hnot ⟨old, m, hget, hgrants⟩
        exact absurd (he.symm.trans (if_neg hgrants)) (Option.some_ne_none _)
      | link target =>
        refine ⟨target, (LinkedMap.get_set _ _ _ _).trans ((if_neg ?_).trans hget)⟩
        intro heq
        exact writeEffect_not_link he target (heq ▸ hget)

end Rewrite

end WinEmulator.App.Rootfs
