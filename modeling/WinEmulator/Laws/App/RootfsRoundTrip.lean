import WinEmulator.Laws.App.ExtractL2s
import WinEmulator.Laws.App.InstallRootfs

/-!
# A tree that is exported and installed

The archive of a rootfs is extracted to an empty directory, found there, moved to a free name and
given two new files. What is installed is the tree that was exported if, and only if, the exporter
can write the archive and the installer can do with it: a directory that is bound must not be
missing, the target of a link has to be spelt without doubled slashes, the name of the rootfs must
not be `.l2s` nor end in too great a number, and the two files have to lie where they can be
written.
-/

set_option autoImplicit false

namespace WinEmulator.App.Rootfs

open WinEmulator.Lib WinEmulator.Lib.Fs WinEmulator.Lib.JavaFile

/-! ## The same tree -/

/-- A node with nothing but the nine permission bits of its mode. -/
def nineBits : Node → Node
  | .dir mode => .dir (mode &&& 0o777)
  | .file content mode => .file content (mode &&& 0o777)
  | .link target => .link target

/-- What comes of a node in an archive. -/
def archived : Node → Node
  | .link target => .link (pathString target)
  | node => nineBits node

/-- The files that `postExtractRootfs` rewrites. -/
def networkFiles : List Name := ["resolv.conf".toList, "hosts".toList]

/-- The one tree is the other, outside of the directories that are bound and but for the two
files. -/
structure Reproduced (fs : FileSystem) (root : Loc) (fs' : FileSystem) (root' : Loc) : Prop where
  top : fs'.get root' = some (.dir 0o755)
  tree : ∀ c rel, c ∉ ignoreRootfsSubDirs → (∀ file ∈ networkFiles, c :: rel ≠ [etc, file]) →
    fs'.get (root' ++ c :: rel) = (fs.get (root ++ c :: rel)).map nineBits
  etc : ∃ m, fs'.get (root' ++ [etc]) = some (.dir m)
  resolvConf : ∃ m, fs'.get (root' ++ [Rootfs.etc, "resolv.conf".toList]) =
    some (.file resolvConf m)
  hosts : ∃ m, fs'.get (root' ++ [Rootfs.etc, "hosts".toList]) = some (.file hosts m)

theorem getLsbD_nineBits (i : Nat) : (0o777 : Mode).getLsbD i = decide (i < 9) := by
  by_cases hi : i < 12
  · revert i
    decide
  · rw [BitVec.getLsbD_of_ge _ _ (by omega), decide_eq_false (by omega)]

/-- The round trip of a mode keeps its nine permission bits. -/
theorem modeBits_getMode_eq (mode : Mode) : modeBits (getMode mode) = mode &&& 0o777 := by
  ext i hi
  rw [← BitVec.getLsbD_eq_getElem, ← BitVec.getLsbD_eq_getElem, modeBits_getMode,
    BitVec.getLsbD_and, getLsbD_nineBits,
    Bool.and_comm]

theorem grants_nineBits (mode : Mode) (a : Access) : grants (mode &&& 0o777) a = grants mode a := by
  rw [← modeBits_getMode_eq, grants_modeBits]

/-- What is archived as a directory was one. -/
theorem archived_eq_dir {node : Node} {m : Mode} (h : archived node = .dir m) :
    ∃ m', node = .dir m' ∧ m = m' &&& 0o777 := by
  cases node with
  | dir m' => exact ⟨m', rfl, (Node.dir.inj h).symm⟩
  | file content m' => cases h
  | link target => cases h

/-- What is archived as a file was one, with the same content. -/
theorem archived_eq_file {node : Node} {content : List UInt8} {m : Mode}
    (h : archived node = .file content m) :
    ∃ m', node = .file content m' ∧ m = m' &&& 0o777 := by
  cases node with
  | dir m' => cases h
  | file content' m' =>
    obtain ⟨rfl, rfl⟩ := Node.file.inj h
    exact ⟨m', rfl, rfl⟩
  | link target => cases h

/-- What comes of a node in an archive is the same node, but for a link that is spelt another
way. -/
theorem archived_eq_nineBits_iff {node : Node} :
    archived node = nineBits node ↔ ∀ target, node = .link target → pathString target = target := by
  cases node with
  | dir m => exact ⟨fun _ _ => nofun, fun _ => rfl⟩
  | file content m => exact ⟨fun _ _ => nofun, fun _ => rfl⟩
  | link target =>
    constructor
    · intro h target' heq
      cases heq
      exact Node.link.inj h
    · intro h
      exact congrArg Node.link (h target rfl)

section Transfer

variable {fs fs' : FileSystem} {l l' : Loc} {c : Name}

/-- What comes of a tree in an archive can be rewritten like the tree. -/
theorem rewritable_archived_iff (hdir : dirGrants fs' l' .write = dirGrants fs l .write)
    (hbelow : ∀ rel, fs'.get (l' ++ [c] ++ rel) = (fs.get (l ++ [c] ++ rel)).map archived) :
    Rewritable fs' l' c ↔ Rewritable fs l c := by
  have hget := hbelow []
  rw [List.append_nil, List.append_nil] at hget
  have hchildren : children fs' (l' ++ [c]) = [] ↔ children fs (l ++ [c]) = [] := by
    simp only [children_eq_nil_iff, hbelow, Option.map_eq_none_iff]
  rw [Rewritable, Rewritable, hdir, hget, hchildren]
  split
  · constructor
    · intro h m hm
      exact h (m &&& 0o777) (by rw [hm]; rfl)
    · intro h m hm
      obtain ⟨node, hnode, harchived⟩ := Option.map_eq_some_iff.mp hm
      obtain ⟨m', rfl, -⟩ := archived_eq_dir harchived
      exact h m' hnode
  · constructor
    · rintro ⟨content, m, hm, hgrants⟩
      obtain ⟨node, hnode, harchived⟩ := Option.map_eq_some_iff.mp hm
      obtain ⟨m', rfl, rfl⟩ := archived_eq_file harchived
      exact ⟨content, m', hnode, (grants_nineBits m' .write).symm.trans hgrants⟩
    · rintro ⟨content, m, hm, hgrants⟩
      exact ⟨content, m &&& 0o777, by rw [hm]; rfl, (grants_nineBits m .write).trans hgrants⟩

end Transfer

/-! ## What is extracted -/

section Extract

variable {digit : Char → Option Nat} {fs fs₀ fs' : FileSystem} {root tmp all : Loc}
  {q tmpDir rootfsAllDir : Path}
  {name t : Name} {visited : List (List Name)}

/-- The places of the entries. -/
def placesOf (visited : List (List Name)) : List (List Name) :=
  [] :: (visited ++ boundDirs.map fun dir => [dir])

/-- Outside of the bound directories the archive has the places of the nodes. -/
theorem Source.mem_placesOf (h : Source fs root (q ++ [name]))
    (hvisits : Visits fs root ((topNames fs root).map fun c => [c]) visited) {c : Name}
    {rel : List Name}
    (hc : c ∉ ignoreRootfsSubDirs) :
    c :: rel ∈ placesOf visited ↔ fs.get (root ++ c :: rel) ≠ none := by
  rw [placesOf, List.mem_cons, List.mem_append]
  constructor
  · rintro (hnil | hvisited | hbound)
    · cases hnil
    · exact ((hvisits.mem _).mp hvisited).1
    · obtain ⟨dir, hdir, heq⟩ := List.mem_map.mp hbound
      obtain ⟨rfl, -⟩ := List.cons.inj heq
      exact absurd (mem_ignored_of_mem_boundDirs hdir) hc
  · intro hget
    refine .inr (.inl
      ((hvisits.mem _).mpr
      ⟨hget, [c], List.mem_map.mpr ⟨c, mem_topNames.mpr ⟨?_, hc⟩, rfl⟩, rel, rfl⟩))
    -- a node stands in directories up to the rootfs
    cases rel using List.reverseRecOn with
    | nil => exact hget
    | append_singleton rel d =>
      have hle : root ++ [c] <+: root ++ c :: (rel ++ [d]) := ⟨rel ++ [d], by simp⟩
      obtain ⟨m, hm⟩ := h.closed.dir_above hle (by simp) hget
      rw [node_of_ne_nil (by simp)] at hm
      rw [hm]
      exact nofun

/-- The entry of a file holds the file's node. -/
theorem Source.node_entryAt (h : Source fs root (q ++ [name])) (hname : Whole name) {c : Name}
    {rel : List Name}
    {node : Node} (hc : c ∉ ignoreRootfsSubDirs) (hget : fs.get (root ++ c :: rel) = some node) :
    (entryAt name (c :: rel) node).node = archived node := by
  have hdir := h.entryAt_isDirectory hname hget
  have hmode : entryMode (c :: rel) node = modeOf node := by rw [entryMode, if_neg hc]
  rw [TarArchiveEntry.node, hdir]
  cases node with
  | dir m =>
    show Node.dir (modeBits (entryMode (c :: rel) (.dir m))) = _
    rw [hmode, modeOf, modeBits_getMode_eq]
    rfl
  | file content m =>
    show Node.file content (modeBits (entryMode (c :: rel) (.file content m))) = _
    rw [hmode, modeOf, modeBits_getMode_eq]
    rfl
  | link target => rfl

/-- A copy of the tree, as far as the archive has it. -/
structure Copied (fs : FileSystem) (root : Loc) (tree : List Name → Option Node) : Prop where
  top : tree [] = some (.dir 0o755)
  tree : ∀ c rel, c ∉ ignoreRootfsSubDirs →
    tree (c :: rel) = (fs.get (root ++ c :: rel)).map archived

/-- A target that holds every entry of the walk is a copy of the source. -/
theorem Source.copied (h : Source fs root (q ++ [name])) (hname : Whole name)
    (hvisits : Visits fs root ((topNames fs root).map fun c => [c]) visited) {out : Loc}
    (hholds : Holds fs₀ out (entriesOf fs root name (placesOf visited))
      (fun e => some e.node) fs') :
    Copied fs root fun rel => fs'.get (out ++ [name] ++ rel) where
  top := by
    obtain ⟨m, hm⟩ := h.isRootfs.dir
    have hget : fs.get (root ++ []) = some (.dir m) := by rwa [List.append_nil]
    have hmem : entryAt name [] (.dir m) ∈ entriesOf fs root name (placesOf visited) :=
      mem_entriesOf.mpr ⟨[], List.mem_cons_self, .dir m, hget, rfl⟩
    have hthere := hholds.there _ hmem
    rw [h.entryAt_path hname hget] at hthere
    rw [List.append_nil, hthere, TarArchiveEntry.node, h.entryAt_isDirectory hname hget]
    exact congrArg (fun mode => some (Node.dir mode))
      (show modeBits DEFAULT_DIR_MODE = 0o755 by decide)
  tree := by
    intro c rel hc
    rw [List.append_assoc]
    show fs'.get (out ++ name :: c :: rel) = _
    cases hget : fs.get (root ++ c :: rel) with
    | none =>
      refine hholds.others _ (List.cons_ne_nil _ _) fun e he heq => ?_
      obtain ⟨r, hr, node, hnode, rfl⟩ := mem_entriesOf.mp he
      rw [h.entryAt_path hname hnode] at heq
      obtain rfl := (List.cons.inj heq).2
      rw [hget] at hnode
      cases hnode
    | some node =>
      have hmem : entryAt name (c :: rel) node ∈ entriesOf fs root name (placesOf visited) :=
        mem_entriesOf.mpr
          ⟨c :: rel, (h.mem_placesOf hvisits hc).mpr (Option.ne_none_iff_exists'.mpr ⟨_, hget⟩),
          node, hget, rfl⟩
      have hthere := hholds.there _ hmem
      rw [h.entryAt_path hname hget] at hthere
      rw [hthere, h.node_entryAt hname hc hget]
      rfl

/-- That target is the extracted directory of an installation. -/
theorem Source.extracted {d : Disk} (h : Source fs root (q ++ [name])) (hname : Whole name)
    (hproper : Proper name)
    (hvisits : Visits fs root ((topNames fs root).map fun c => [c]) visited)
    (hholds : Holds (d.apply (outLoc tmp, some (.dir newDirMode))).fs (outLoc tmp)
      (entriesOf fs root name (placesOf visited)) (fun e => some e.node) fs') :
        Extracted d.fs (outLoc tmp) name fs' := by
  have hcopied := h.copied hname hvisits hholds
  have hrootfs := hcopied.top
  rw [List.append_nil] at hrootfs
  refine ⟨hproper, fun l hl => ?_, ?_, fun c => ⟨fun hget => ?_, ?_⟩,
    ⟨0o755, hrootfs, fun a => by cases a <;> decide⟩,
    fun c hc => ?_⟩
  · rw [hholds.outside l hl, Disk.apply, LinkedMap.get_set, if_neg]
    rintro rfl
    exact hl (List.prefix_refl _)
  · rw [hholds.top, Disk.apply, LinkedMap.get_set, if_pos rfl]
  · by_contra hne
    refine hget (hholds.others [c] (List.cons_ne_nil _ _) fun e he heq => ?_)
    obtain ⟨r, -, node, hnode, rfl⟩ := mem_entriesOf.mp he
    rw [h.entryAt_path hname hnode] at heq
    exact hne (List.cons.inj heq).1.symm
  · rintro rfl
    rw [hrootfs]
    exact Option.some_ne_none _
  · have hcontents : c ∉ ignoreRootfsSubDirs ∧ fs.get (root ++ [c]) ≠ none := by
      rcases List.mem_cons.mp hc with rfl | hc
      · exact ⟨by decide, h.isRootfs.etc⟩
      · rw [List.mem_singleton.mp hc]
        exact ⟨by decide, h.isRootfs.usr⟩
    rw [hcopied.tree c [] hcontents.1, Ne, Option.map_eq_none_iff]
    exact hcontents.2

/-! ## The two files -/

section Post

variable {d : Disk} {tree : List Name → Option Node} {m : Mode}

theorem etc_not_ignored : etc ∉ ignoreRootfsSubDirs := by decide

/-- `etc` is copied with its permissions. -/
theorem Installed.etc_eq (h : Installed fs₀ all t tree d.fs) (copied : Copied fs root tree)
    (hetc : fs.get (root ++ [etc]) = some (.dir m)) :
    d.fs.get (all ++ [t, etc]) = some (.dir (m &&& 0o777)) := by
  have hget := (h.tree [etc]).trans (copied.tree etc [] etc_not_ignored)
  rw [List.append_assoc, hetc] at hget
  exact hget

/-- The way to the files of `etc` is clear in the installed rootfs. -/
theorem Installed.clear_etc (ready : Ready tmpDir rootfsAllDir fs₀ tmp all)
    (source : Source fs root (q ++ [name]))
    (h : Installed fs₀ all t tree d.fs) (copied : Copied fs root tree)
    (hetc : fs.get (root ++ [etc]) = some (.dir m))
    {file : Name} (hfile : Proper file) : Clear d.fs (all ++ ([t, etc] ++ [file])) := by
  have htop : dirGrants d.fs (all ++ [t]) .search = true := by
    have hget := (h.tree []).trans copied.top
    rw [List.append_nil] at hget
    rw [dirGrants, node_of_ne_nil (by simp), hget]
    rfl
  have hsearch : dirGrants d.fs (all ++ [t] ++ [etc]) .search = true := by
    have hget := h.etc_eq copied hetc
    rw [List.append_assoc]
    rw [dirGrants, node_of_ne_nil (by simp), show all ++ ([t] ++ [etc]) = all ++ [t, etc] from rfl,
      hget]
    exact (grants_nineBits m .search).trans (source.isRootfs.dirs [etc] m hetc).2
  have hclear :=
    ((h.grows.clear (ready.clear_all h.proper)).concat (show Proper etc by decide) htop).concat
    hfile hsearch
  simpa using hclear

/-- Whatever has become of the other file, a file can be rewritten if it could be in the rootfs. -/
theorem Installed.rewritable_iff (h : Installed fs₀ all t tree d.fs) (copied : Copied fs root tree)
    (hetc : fs.get (root ++ [etc]) = some (.dir m)) {file : Name}
    (hdir : fs'.get (all ++ [t, etc]) = d.fs.get (all ++ [t, etc]))
    (hbelow : ∀ rel,
      fs'.get (all ++ [t, etc] ++ [file] ++ rel) = d.fs.get (all ++ [t, etc] ++ [file] ++ rel)) :
    Rewritable fs' (all ++ [t, etc]) file ↔ Rewritable fs (root ++ [etc]) file := by
  refine rewritable_archived_iff ?_ fun rel => ?_
  · rw [dirGrants, node_of_ne_nil (by simp), hdir, h.etc_eq copied hetc, dirGrants,
      node_of_ne_nil (by simp), hetc]
    exact grants_nineBits m .write
  · have hget := (h.tree (etc :: file :: rel)).trans (copied.tree etc (file :: rel) etc_not_ignored)
    have hassoc : all ++ [t, etc] ++ [file] ++ rel = all ++ [t] ++ etc :: file :: rel := by simp
    rw [hbelow rel, hassoc, hget]
    simp

/-- Those places were free before the installation. -/
theorem Installed.free_etc (h : Installed fs₀ all t tree d.fs) (file : Name) :
    fs₀.get (all ++ ([t, etc] ++ [file])) = none := by
  have hnone := h.free [etc, file]
  rwa [List.append_assoc] at hnone

/-- The second file is as it was when the first has been rewritten. -/
theorem Installed.after_resolvConf (ready : Ready tmpDir rootfsAllDir fs₀ tmp all)
    (source : Source fs root (q ++ [name]))
    (h : Installed fs₀ all t tree d.fs) (copied : Copied fs root tree)
    (hetc : fs.get (root ++ [etc]) = some (.dir m))
    {node : Option Node}
    (hget : ∀ x,
      fs'.get x = if x = all ++ ([t, etc] ++ ["resolv.conf".toList]) then node else d.fs.get x) :
    Grows fs₀ fs' ∧ Clear fs' (all ++ ([t, etc] ++ ["hosts".toList])) ∧
      (Rewritable fs' (all ++ [t, etc]) "hosts".toList ↔
        Rewritable fs (root ++ [etc]) "hosts".toList) := by
  refine ⟨fun x hx => ?_, ?_, h.rewritable_iff copied hetc ?_ fun rel => ?_⟩
  · rw [hget, if_neg, h.grows x hx]
    rintro rfl
    exact hx (h.free_etc _)
  · refine (h.clear_etc ready source copied hetc (by decide)).of_shorter fun x hx => ?_
    rw [hget, if_neg]
    rintro rfl
    simp at hx
  · rw [hget, if_neg]
    simp
  · rw [hget, if_neg]
    simp

/-- Files that can be rewritten are, and nothing else has changed. -/
theorem Installed.post_spec (ready : Ready tmpDir rootfsAllDir fs₀ tmp all)
    (source : Source fs root (q ++ [name]))
    (h : Installed fs₀ all t tree d.fs) (copied : Copied fs root tree)
    (hetc : fs.get (root ++ [etc]) = some (.dir m))
    (hfiles : ∀ file ∈ networkFiles, Rewritable fs (root ++ [etc]) file) :
    ∃ d₂ m₁ m₂, postExtractRootfs d (rootfsAllDir ++ [t]) = some d₂ ∧
      ∀ rel, d₂.fs.get (all ++ [t] ++ rel) =
        if rel = [etc, "hosts".toList] then some (.file hosts m₂)
        else if rel = [etc, "resolv.conf".toList] then some (.file resolvConf m₁)
        else tree rel := by
  have hrewritable :=
    (h.rewritable_iff copied hetc rfl fun _ => rfl).mpr (hfiles "resolv.conf".toList (by decide))
  obtain ⟨d₁, m₁, hrewrite₁, hget₁⟩ := rewrite_spec ready.allDir h.grows (h.free_etc _)
    (h.clear_etc ready source copied hetc (by decide)) hrewritable resolvConf
  obtain ⟨hgrows, hclear, hiff⟩ := h.after_resolvConf ready source copied hetc hget₁
  obtain ⟨d₂, m₂, hrewrite₂, hget₂⟩ := rewrite_spec ready.allDir hgrows (h.free_etc _) hclear
    (hiff.mpr (hfiles "hosts".toList (by decide))) hosts
  refine ⟨d₂, m₁, m₂, ?_, fun rel => ?_⟩
  · rw [postExtractRootfs, List.append_assoc, List.append_assoc]
    show Option.bind (rewrite d (rootfsAllDir ++ ([t, etc] ++ ["resolv.conf".toList])) resolvConf)
      _ = _
    rw [hrewrite₁, Option.bind_some]
    exact hrewrite₂
  · have hplace :
        ∀ file : Name, all ++ [t] ++ rel = all ++ ([t, etc] ++ [file]) ↔
          rel = [etc, file] := fun file => by
      simp
    rw [hget₂, hget₁, h.tree]
    simp only [hplace]

/-- If both files are there afterwards, they could be rewritten. -/
theorem Installed.rewritable_of_post {d₂ : Disk} (ready : Ready tmpDir rootfsAllDir fs₀ tmp all)
    (source : Source fs root (q ++ [name])) (h : Installed fs₀ all t tree d.fs)
    (copied : Copied fs root tree)
    (hetc : fs.get (root ++ [etc]) = some (.dir m))
    (hpost : postExtractRootfs d (rootfsAllDir ++ [t]) = some d₂)
    (hlinks : ∀ file ∈ networkFiles, ∀ target,
      d₂.fs.get (all ++ ([t, etc] ++ [file])) ≠ some (.link target)) :
    ∀ file ∈ networkFiles, Rewritable fs (root ++ [etc]) file := by
  rw [postExtractRootfs, List.append_assoc, List.append_assoc] at hpost
  obtain ⟨d₁, hrewrite₁, hrewrite₂⟩ := Option.bind_eq_some_iff.mp hpost
  change rewrite d (rootfsAllDir ++ ([t, etc] ++ ["resolv.conf".toList])) resolvConf =
    some d₁ at hrewrite₁
  change rewrite d₁ (rootfsAllDir ++ ([t, etc] ++ ["hosts".toList])) hosts = some d₂ at hrewrite₂
  have hclear := h.clear_etc ready source copied hetc (show Proper "resolv.conf".toList by decide)
  have hiff :
      Rewritable d.fs (all ++ [t, etc]) "resolv.conf".toList ↔
        Rewritable fs (root ++ [etc]) "resolv.conf".toList :=
    h.rewritable_iff copied hetc rfl fun _ => rfl
  have hresolvConf : Rewritable fs (root ++ [etc]) "resolv.conf".toList := by
    by_contra hnot
    obtain ⟨target, htarget⟩ :=
      link_of_not_rewritable (h.grows.resolve ready.allDir) hclear (mt hiff.mp hnot) hrewrite₁
    refine hlinks _ (by decide) target (rewrite_link hrewrite₂ htarget fun hplace => ?_)
    -- the second file has another name
    rw [← List.append_assoc] at hplace
    obtain ⟨-, parent, -, -, heq⟩ := place_concat_iff.mp hplace
    rw [← List.append_assoc] at heq
    exact absurd (List.append_inj_right' heq rfl) (by decide)
  have hhosts : Rewritable fs (root ++ [etc]) "hosts".toList := by
    by_contra hnot
    obtain ⟨d₁', m₁, hrewrite₁', hget₁⟩ := rewrite_spec ready.allDir h.grows (h.free_etc _) hclear
      (hiff.mpr hresolvConf) resolvConf
    obtain rfl := Option.some.inj (hrewrite₁'.symm.trans hrewrite₁)
    obtain ⟨hgrows, hclear₁, hiff₁⟩ := h.after_resolvConf ready source copied hetc hget₁
    obtain ⟨target, htarget⟩ :=
      link_of_not_rewritable (hgrows.resolve ready.allDir) hclear₁ (mt hiff₁.mp hnot) hrewrite₂
    exact hlinks _ (by decide) target htarget
  intro file hfile
  rcases List.mem_cons.mp hfile with rfl | hfile
  · exact hresolvConf
  · rw [List.mem_singleton.mp hfile]
    exact hhosts

/-- The links whose spelling survives. -/
def TargetsKept (fs : FileSystem) (root : Loc) : Prop :=
  ∀ c rel target, c ∉ ignoreRootfsSubDirs → (∀ file ∈ networkFiles, c :: rel ≠ [etc, file]) →
    fs.get (root ++ c :: rel) = some (.link target) → pathString target = target

/-- **What is installed is the rootfs if the two files can be rewritten and every target is
kept.** -/
theorem Installed.reproduced_iff (ready : Ready tmpDir rootfsAllDir fs₀ tmp all)
    (source : Source fs root (q ++ [name]))
    (h : Installed fs₀ all t tree d.fs) (copied : Copied fs root tree) :
    (∃ d', postExtractRootfs d (rootfsAllDir ++ [t]) = some d' ∧
      Reproduced fs root d'.fs (all ++ [t])) ↔
      (∃ m, fs.get (root ++ [etc]) = some (.dir m)) ∧
        (∀ file ∈ networkFiles, Rewritable fs (root ++ [etc]) file) ∧
        TargetsKept fs root := by
  have hnot : ∀ rel : List Name, (∀ file ∈ networkFiles, rel ≠ [etc, file]) →
      rel ≠ [etc, "hosts".toList] ∧ rel ≠ [etc, "resolv.conf".toList] := fun rel hrel =>
    ⟨hrel _ (by decide), hrel _ (by decide)⟩
  constructor
  · rintro ⟨d', hpost, hreproduced⟩
    obtain ⟨m, hm⟩ : ∃ m, fs.get (root ++ [etc]) = some (.dir m) := by
      obtain ⟨m, hm⟩ := hreproduced.etc
      have htree := hreproduced.tree etc [] etc_not_ignored (by decide)
      rw [hm] at htree
      obtain ⟨node, hnode, hbits⟩ := Option.map_eq_some_iff.mp htree.symm
      cases node with
      | dir m => exact ⟨m, hnode⟩
      | file content m => cases hbits
      | link target => cases hbits
    have hfiles := h.rewritable_of_post ready source copied hm hpost fun file hfile target hlink =>
      ?_
    · refine ⟨⟨m, hm⟩, hfiles, fun c rel target hc hrel hlink => ?_⟩
      obtain ⟨d₂, m₁, m₂, hpost', hget⟩ := h.post_spec ready source copied hm hfiles
      obtain rfl := Option.some.inj (hpost'.symm.trans hpost)
      have htree := hreproduced.tree c rel hc hrel
      rw [hget, if_neg (hnot _ hrel).1, if_neg (hnot _ hrel).2, copied.tree c rel hc, hlink]
        at htree
      exact Node.link.inj (Option.some.inj htree)
    · -- afterwards there is a file at either name
      have hassoc : all ++ ([t, etc] ++ [file]) = all ++ [t] ++ [etc, file] := by simp
      rw [hassoc] at hlink
      rcases List.mem_cons.mp hfile with rfl | hfile
      · obtain ⟨m', hm'⟩ := hreproduced.resolvConf
        rw [hm'] at hlink
        cases hlink
      · rw [List.mem_singleton.mp hfile] at hlink
        obtain ⟨m', hm'⟩ := hreproduced.hosts
        rw [hm'] at hlink
        cases hlink
  · rintro ⟨⟨m, hm⟩, hfiles, htargets⟩
    obtain ⟨d₂, m₁, m₂, hpost, hget⟩ := h.post_spec ready source copied hm hfiles
    refine ⟨d₂, hpost, ?_, fun c rel hc hrel => ?_, ⟨m &&& 0o777, ?_⟩, ⟨m₁, ?_⟩, ⟨m₂, ?_⟩⟩
    · have htop := (hget []).trans copied.top
      rwa [List.append_nil] at htop
    · rw [hget, if_neg (hnot _ hrel).1, if_neg (hnot _ hrel).2, copied.tree c rel hc]
      refine Option.map_congr fun node hnode => archived_eq_nineBits_iff.mpr ?_
      rintro target rfl
      exact htargets c rel target hc hrel hnode
    · have hetc := (hget [etc]).trans (copied.tree etc [] etc_not_ignored)
      rw [hm] at hetc
      exact hetc
    · exact (hget _).trans ((if_neg (by decide)).trans (if_pos rfl))
    · exact (hget _).trans (if_pos rfl)

end Post

/-! ## Export and install -/

section Install

variable {d : Disk}

/-- On a clean device the installation is the extraction and then the rest. -/
theorem installRootfsArchive_eq (ready : Ready tmpDir rootfsAllDir (cleared tmpDir d).fs tmp all)
    (searches : Nat)
    (archive : List TarArchiveEntry) :
    installRootfsArchive digit tmpDir rootfsAllDir searches d archive =
      installExtracted digit tmpDir rootfsAllDir searches
        (Archive.decompressCompressedTarStream id (tmpOutDir tmpDir)
          ((cleared tmpDir d).apply (outLoc tmp, some (.dir newDirMode))) archive) := by
  rw [installRootfsArchive, ready.not_left, if_neg Bool.false_ne_true, ready.mkdirs_eq]

/-- A rootfs named `.l2s` is deleted before it is found. -/
theorem Source.install_l2s (h : Source fs root (q ++ [".l2s".toList])) (hbound : BoundThere fs root)
    (ready : Ready tmpDir rootfsAllDir (cleared tmpDir d).fs tmp all)
    (hvisits : Visits fs root ((topNames fs root).map fun c => [c]) visited) (searches : Nat) :
    installRootfsArchive digit tmpDir rootfsAllDir searches d
      (entriesOf fs root ".l2s".toList (placesOf visited)) = none := by
  have hname : Whole ".l2s".toList := ⟨by decide, by decide⟩
  have horder := h.wellOrdered hname (by decide) (h.streams hbound hvisits)
  obtain ⟨m, hm⟩ := h.isRootfs.dir
  have hget : fs.get (root ++ []) = some (.dir m) := by rwa [List.append_nil]
  have hempty :=
    decompress_l2s ready.fresh_out ready.place_out ready.closed_out horder
    (h.links_kept hname (tmpOutDir tmpDir) _)
    ⟨entryAt ".l2s".toList [] (.dir m),
      mem_entriesOf.mpr ⟨[], List.mem_cons_self, .dir m, hget, rfl⟩,
      h.entryAt_isDirectory hname hget, h.entryAt_path hname hget⟩
    (fun e he => by
      obtain ⟨r, -, node, hnode, rfl⟩ := mem_entriesOf.mp he
      exact ⟨r, h.entryAt_path hname hnode⟩)
    ((cleared tmpDir d).apply (outLoc tmp, some (.dir newDirMode))).log
  rw [installRootfsArchive_eq ready]
  exact installExtracted_of_empty (hempty.list_eq (target_of_place ready.fresh_out ready.place_out))
    searches

/-- Any other rootfs is there when the installer looks for it. -/
theorem Source.install_extracted (h : Source fs root (q ++ [name])) (hname : Whole name)
    (hproper : Proper name)
    (hl2s : name ≠ ".l2s".toList) (hbound : BoundThere fs root)
    (ready : Ready tmpDir rootfsAllDir (cleared tmpDir d).fs tmp all)
    (hvisits : Visits fs root ((topNames fs root).map fun c => [c]) visited) :
    ∃ d₁ : Disk, Extracted (cleared tmpDir d).fs (outLoc tmp) name d₁.fs ∧
      Copied fs root (fun rel => d₁.fs.get (outLoc tmp ++ [name] ++ rel)) ∧
      ∀ searches, installRootfsArchive digit tmpDir rootfsAllDir searches d
        (entriesOf fs root name (placesOf visited)) =
        installExtracted digit tmpDir rootfsAllDir searches d₁ := by
  have horder := h.wellOrdered hname hproper (h.streams hbound hvisits)
  have hholds :=
    decompress_holds ready.fresh_out ready.place_out horder
    (h.extractable hname hl2s (tmpOutDir tmpDir) (placesOf visited))
    ((cleared tmpDir d).apply (outLoc tmp, some (.dir newDirMode))).log
  exact ⟨_, h.extracted hname hproper hvisits hholds, h.copied hname hvisits hholds, fun searches =>
    installRootfsArchive_eq ready searches _⟩

end Install

end Extract

/-- What a rootfs needs to come through. -/
structure Portable (digit : Char → Option Nat) (fs : FileSystem) (root : Loc) (name : Name) :
    Prop where
  bound : BoundThere fs root
  notL2s : name ≠ ".l2s".toList
  number : (baseNameAndNum digit name).isSome = true
  etc : ∃ m, fs.get (root ++ [etc]) = some (.dir m)
  files : ∀ file ∈ networkFiles, Rewritable fs (root ++ [Rootfs.etc]) file
  targets : TargetsKept fs root

/-- The archive of a rootfs can be written, and what is installed of it is the same rootfs. -/
def RoundTrips (digit : Char → Option Nat) (tmpDir rootfsAllDir : Path) (searches : Nat) (d : Disk)
    (all : Loc)
    (fs : FileSystem) (rootfsDir : Path) (root : Loc) : Prop :=
  ∃ archive d' t, exportRootfsArchive fs rootfsDir = some archive ∧
    installRootfsArchive digit tmpDir rootfsAllDir searches d archive =
      some (d', rootfsAllDir ++ [t]) ∧
    Reproduced fs root d'.fs (all ++ [t])

/-- **A rootfs that is exported and installed is the same if, and only if, it is portable.** -/
theorem roundTrips_iff {digit : Char → Option Nat} {tmpDir rootfsAllDir rootfsDir : Path}
    {searches : Nat} {d : Disk}
    {fs : FileSystem} {root tmp all : Loc} (source : Source fs root rootfsDir)
    (ready : Ready tmpDir rootfsAllDir (cleared tmpDir d).fs tmp all) (hsearches : 2 ≤ searches) :
    RoundTrips digit tmpDir rootfsAllDir searches d all fs rootfsDir root ↔
      Portable digit fs root (getName rootfsDir) := by
  obtain ⟨q, name, rfl⟩ := ne_nil_of_place source.place
  obtain ⟨hproper, parent, -, -, rfl⟩ := place_concat_iff.mp source.place
  obtain ⟨n, rfl⟩ : ∃ n, searches = n + 2 := ⟨searches - 2, by omega⟩
  rw [getName_concat]
  have hname : Whole name := by
    obtain ⟨m, hm⟩ := source.isRootfs.dir
    obtain ⟨hne, -, -, hslash⟩ :=
      source.closed.names parent name (Option.ne_none_iff_exists'.mpr ⟨_, hm⟩)
    exact ⟨hne, hslash⟩
  constructor
  · rintro ⟨archive, d', t, hexport, hinstall, hreproduced⟩
    have hbound := source.boundThere_of_export hexport
    obtain ⟨visited, hvisits, hexport'⟩ := source.export_eq hbound
    obtain rfl := Option.some.inj (hexport'.symm.trans hexport)
    have hl2s : name ≠ ".l2s".toList := by
      rintro rfl
      exact absurd ((source.install_l2s hbound ready hvisits _).symm.trans hinstall).symm
        (Option.some_ne_none _)
    obtain ⟨d₁, hextracted, hcopied, heq⟩ :=
      source.install_extracted hname hproper hl2s hbound ready hvisits
    have hinstall := (heq _).symm.trans hinstall
    have hnumber : (baseNameAndNum digit name).isSome = true := by
      by_contra hnot
      rw [Option.not_isSome_iff_eq_none] at hnot
      exact absurd ((hextracted.installExtracted_none ready hnot n).symm.trans hinstall).symm
        (Option.some_ne_none _)
    obtain ⟨d₂, t', hinstalled, heq'⟩ := hextracted.installExtracted_eq ready hnumber n
    obtain ⟨d'', hpost, hpair⟩ := Option.map_eq_some_iff.mp (heq'.symm.trans hinstall)
    obtain ⟨rfl, htarget⟩ := Prod.mk.inj hpair
    obtain rfl : t' = t := List.singleton_inj.mp (List.append_cancel_left htarget)
    obtain ⟨hetc, hfiles, htargets⟩ :=
      (hinstalled.reproduced_iff ready source hcopied).mp ⟨d'', hpost, hreproduced⟩
    exact ⟨hbound, hl2s, hnumber, hetc, hfiles, htargets⟩
  · intro portable
    obtain ⟨visited, hvisits, hexport⟩ := source.export_eq portable.bound
    obtain ⟨d₁, hextracted, hcopied, heq⟩ :=
      source.install_extracted hname hproper portable.notL2s portable.bound ready hvisits
    obtain ⟨d₂, t, hinstalled, heq'⟩ := hextracted.installExtracted_eq ready portable.number n
    obtain ⟨d', hpost, hreproduced⟩ := (hinstalled.reproduced_iff ready source hcopied).mpr
      ⟨portable.etc, portable.files, portable.targets⟩
    refine ⟨_, d', t, hexport, ((heq _).trans heq').trans ?_, hreproduced⟩
    rw [hpost, Option.map_some]

/-! ### A rootfs that comes through, and one that does not -/

/-- What a node of a rootfs has to be, given its names below the rootfs. -/
def acceptable (root : Loc) (e : Loc × Node) : Bool :=
  !root.isPrefixOf e.1 ||
    ((e.1.drop root.length).all fun c => !".l2s.".toList.isPrefixOf c) &&
      match e.2 with
      | .dir m => grants m .read && grants m .search
      | .file _ m => grants m .read
      | .link target => target ≠ [] && !".l2s.".toList.isPrefixOf (getName (components target))

/-- A directory with `etc` and `usr` all of whose entries are acceptable is a rootfs. -/
theorem isRootfs_of_acceptable {fs : FileSystem} {root : Loc}
    (hdir : (fs.get root).any Node.isDir = true)
    (hcontents : ∀ c ∈ ["etc".toList, "usr".toList], fs.get (root ++ [c]) ≠ none)
    (h : ∀ e ∈ fs.entries, acceptable root e = true) : IsRootfs fs root := by
  have hnode :
      ∀ rel node, fs.get (root ++ rel) = some node →
        acceptable root (root ++ rel, node) = true := fun rel node hget =>
    h _ (fs.mem_of_get hget)
  simp only [acceptable, List.isPrefixOf_iff_prefix.mpr (List.prefix_append _ _), Bool.not_true,
    Bool.false_or,
    List.drop_left, Bool.and_eq_true] at hnode
  refine ⟨?_, hcontents _ (by simp), hcontents _ (by simp), fun rel content m hget =>
    (hnode rel _ hget).2,
    fun rel m hget => ?_, fun rel target hget => ?_, fun rel hget c hc => ?_,
      fun rel target hget => ?_⟩
  · cases hget : fs.get root with
    | none => rw [hget] at hdir; cases hdir
    | some node =>
      rw [hget] at hdir
      cases node with
      | dir m => exact ⟨m, rfl⟩
      | file content m => cases hdir
      | link target => cases hdir
  · simpa using (hnode rel _ hget).2
  · have htarget := (hnode rel _ hget).2
    simp only [Bool.and_eq_true, decide_eq_true_eq] at htarget
    exact htarget.1
  · obtain ⟨node, hget⟩ := Option.ne_none_iff_exists'.mp hget
    have hnames := List.all_eq_true.mp (hnode rel node hget).1 c hc
    simpa using hnames
  · have htarget := (hnode rel _ hget).2
    simp only [Bool.and_eq_true, Bool.not_eq_true'] at htarget
    exact htarget.2

def debianLoc : Loc := ["data", "rootfs", "debian"].map String.toList

/-- A device with a small rootfs, that has the given ones of the bound directories. -/
def deviceNodes (bound : List Name) : List (Loc × Node) :=
  [(["cache"].map String.toList, .dir 0o700), (["data"].map String.toList, .dir 0o700),
    (["data", "rootfs"].map String.toList, .dir 0o700), (debianLoc, .dir 0o750),
    (debianLoc ++ ["etc".toList], .dir 0o755),
      (debianLoc ++ ["etc".toList, "hosts".toList], .file [] 0o644),
    (debianLoc ++ ["usr".toList], .dir 0o755),
      (debianLoc ++ ["usr".toList, "sh".toList], .file (ascii "sh") 0o4755),
    (debianLoc ++ ["bin".toList], .link "usr".toList)] ++ bound.map fun dir =>
      (debianLoc ++ [dir], .dir 0o755)

def device : FileSystem where
  entries := deviceNodes boundDirs
  nodup := by decide +kernel

def deviceWithoutDev : FileSystem where
  entries := deviceNodes (boundDirs.filter (· ≠ "dev".toList))
  nodup := by decide +kernel

theorem source_device : Source device debianLoc debianLoc where
  closed := closed_of_wellPlaced (by decide +kernel)
  place := by decide +kernel
  isRootfs := isRootfs_of_acceptable (by decide +kernel) (by decide +kernel) (by decide +kernel)

theorem source_deviceWithoutDev : Source deviceWithoutDev debianLoc debianLoc where
  closed := closed_of_wellPlaced (by decide +kernel)
  place := by decide +kernel
  isRootfs := isRootfs_of_acceptable (by decide +kernel) (by decide +kernel) (by decide +kernel)

def cacheDir : Path := ["cache"].map String.toList

def rootfsDirs : Path := ["data", "rootfs"].map String.toList

theorem cleared_device : cleared cacheDir ⟨device, []⟩ = ⟨device, []⟩ := by
  have hdelete : removeEffect device (tmpArchiveFile cacheDir) = none := by decide +kernel
  have hexists : ¬ exists_ device (tmpOutDir cacheDir) = true := by decide +kernel
  rw [cleared, delete, hdelete]
  exact if_neg hexists

theorem ready_device :
    Ready cacheDir rootfsDirs (cleared cacheDir ⟨device, []⟩).fs cacheDir rootfsDirs := by
  rw [cleared_device]
  exact {
    closed := source_device.closed
    tmpDir := by decide +kernel
    tmpWritable := ⟨by decide +kernel, by decide +kernel⟩
    allDir := by decide +kernel
    allReadable := by decide +kernel
    allWritable := ⟨by decide +kernel, by decide +kernel⟩
    apart := by decide
    archive := by decide +kernel
    outDir := by decide +kernel
    room := by decide +kernel }

/-- The device of the example is portable. -/
theorem portable_device : Portable asciiDigit device debianLoc (getName debianLoc) where
  bound := by
    intro dir hdir
    refine ⟨.dir 0o755, ?_, nofun⟩
    revert dir
    decide +kernel
  notL2s := by decide
  number := by decide
  etc := ⟨0o755, by decide +kernel⟩
  files := by
    intro file hfile
    have hwrite : dirGrants device (debianLoc ++ [etc]) .write = true := by decide +kernel
    have hleaf :
        ∀ file ∈ networkFiles, (device.get (debianLoc ++ [etc] ++ [file])).any Node.isDir =
          false := by
      decide +kernel
    rw [Rewritable, if_pos hwrite]
    intro m hm
    have hdir := hleaf file hfile
    rw [hm] at hdir
    cases hdir
  targets := by
    intro c rel target _ _ hlink
    have hall : ∀ e ∈ device.entries, archived e.2 = nineBits e.2 := by decide +kernel
    exact archived_eq_nineBits_iff.mp (hall _ (device.mem_of_get hlink)) target rfl

/-- `debian` comes through. -/
theorem roundTrips_device :
    Source device debianLoc debianLoc ∧
      Ready cacheDir rootfsDirs (cleared cacheDir ⟨device, []⟩).fs cacheDir rootfsDirs ∧
      RoundTrips asciiDigit cacheDir rootfsDirs 2 ⟨device, []⟩ rootfsDirs device debianLoc
        debianLoc :=
  ⟨source_device, ready_device,
    (roundTrips_iff source_device ready_device (by decide)).mpr portable_device⟩

/-- Without `dev` it cannot be exported. -/
theorem not_roundTrips_deviceWithoutDev :
    Source deviceWithoutDev debianLoc debianLoc ∧
      Ready cacheDir rootfsDirs (cleared cacheDir ⟨device, []⟩).fs cacheDir rootfsDirs ∧
      exportRootfsArchive deviceWithoutDev debianLoc = none ∧
      ¬ RoundTrips asciiDigit cacheDir rootfsDirs 2 ⟨device, []⟩ rootfsDirs deviceWithoutDev
        debianLoc
        debianLoc := by
  have hexport : exportRootfsArchive deviceWithoutDev debianLoc = none := by decide +kernel
  refine ⟨source_deviceWithoutDev, ready_device, hexport, ?_⟩
  rintro ⟨archive, d', t, harchive, -⟩
  rw [hexport] at harchive
  cases harchive

end WinEmulator.App.Rootfs
