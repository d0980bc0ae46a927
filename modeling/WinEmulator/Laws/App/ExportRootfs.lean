import WinEmulator.Laws.App.ExtractTree
import WinEmulator.Laws.App.WalkRootfs

/-!
# A tree that is exported

The entries that the exporter writes for its walk are a stream in the order the extractor needs, and
each of them stands for its node: the names of its path, its kind, content and target, and the nine
permission bits.
-/

set_option autoImplicit false

namespace WinEmulator.App.Rootfs

open WinEmulator.Lib WinEmulator.Lib.Fs WinEmulator.Lib.JavaFile

/-! ## Names -/

theorem components_append_slash (s t : Text) :
    components (s ++ '/' :: t) = components s ++ components t := by
  rw [components, List.splitOn_append_cons_self, List.filter_append]
  rfl

/-- Joining whole names with slashes loses none of them. -/
theorem components_joinNames {names : List Name} (h : ∀ c ∈ names, Whole c) :
    components (joinNames names) = names := by
  by_cases hnames : names = []
  · rw [hnames]
    rfl
  · rw [components, joinNames, List.splitOn_intercalate '/' (fun c hc => (h c hc).2) hnames,
      List.filter_eq_self]
    exact fun c hc => decide_eq_true (h c hc).1

theorem components_joinNames_slash {names : List Name} (h : ∀ c ∈ names, Whole c) :
    components (joinNames names ++ ['/']) = names := by
  rw [components_append_slash, components_joinNames h]
  exact List.append_nil names

/-- The normalised text of a path has the same components. -/
theorem components_pathString (target : Text) :
    components (pathString target) = components target := by
  have hjoin : components (joinNames (components target)) = components target :=
    components_joinNames fun _ => whole_of_mem_components
  unfold pathString
  split
  · exact (components_append_slash [] _).trans hjoin
  · exact hjoin

theorem pathString_ne_nil {target : Text} (h : target ≠ []) : pathString target ≠ [] := by
  unfold pathString
  split
  next => exact List.cons_ne_nil _ _
  next hhead =>
    -- the target starts with a name, and so does what the names make
    intro hnil
    have hnames : components (joinNames (components target)) = components target :=
      components_joinNames fun _ => whole_of_mem_components
    rw [hnil, show components [] = [] from rfl] at hnames
    cases target with
    | nil => exact h rfl
    | cons x s =>
      have hx : (x == '/') = false := beq_false_of_ne fun heq => hhead (by rw [heq]; rfl)
      rw [components, List.splitOn_cons_eq_if_modifyHead, hx] at hnames
      cases hsplit : s.splitOn '/' with
      | nil => exact absurd hsplit (List.splitOn_ne_nil _ _)
      | cons y ys =>
        rw [hsplit] at hnames
        simp at hnames

/-! ## Modes -/

/-- The mode that is read from a set of permissions has exactly their bits. -/
theorem testBit_foldl_or (ordinals : List Nat) (result i : Nat) :
    (ordinals.foldl (fun result ordinal => result ||| 2 ^ (8 - ordinal)) result).testBit i =
      (result.testBit i || ordinals.any fun ordinal => 8 - ordinal = i) := by
  induction ordinals generalizing result with
  | nil => simp
  | cons ordinal ordinals ih =>
    rw [List.foldl_cons, ih, Nat.testBit_or, Nat.testBit_two_pow, List.any_cons, Bool.or_assoc]

/-- A mode that was computed from ordinals has the permission bits, and no others. -/
theorem modeBits_getMode (mode : Mode) (i : Nat) :
    (modeBits (getMode mode)).getLsbD i = (decide (i < 9) && mode.getLsbD i) := by
  have hbit : (getMode mode).testBit i = (decide (i < 9) && mode.getLsbD i) := by
    rw [getMode, testBit_foldl_or, Nat.zero_testBit, Bool.false_or, Bool.eq_iff_iff]
    simp only [getPosixFilePermissions, List.any_eq_true, List.mem_filter, List.mem_range,
      decide_eq_true_eq,
      Bool.and_eq_true]
    constructor
    · rintro ⟨ordinal, ⟨hlt, hbit⟩, rfl⟩
      exact ⟨by omega, hbit⟩
    · rintro ⟨hlt, hbit⟩
      refine ⟨8 - i, ⟨by omega, ?_⟩, by omega⟩
      rwa [show 8 - (8 - i) = i by omega]
  rw [modeBits, BitVec.getLsbD_ofNat, hbit]
  by_cases hlt : i < 9
  · simp [show i < 12 by omega]
  · simp [hlt]

/-- The mode written to the archive grants what the file's own mode grants. -/
theorem grants_modeBits (mode : Mode) (a : Access) :
    grants (modeBits (getMode mode)) a = grants mode a := by
  rw [grants, grants, modeBits_getMode]
  cases a <;> rfl

/-! ## The entries -/

/-- An entry for a node, with the given mode. -/
def tarEntry (names : List Name) (mode : Nat) : Node → TarArchiveEntry
  | .dir _ => ⟨joinNames names ++ ['/'], .directory, [], mode, []⟩
  | .link target => ⟨joinNames names, .symlink, pathString target, mode, []⟩
  | .file content _ => ⟨joinNames names, .normal, [], mode, content⟩

/-- The mode of an entry that no mode was set in. -/
def defaultMode : Node → Nat
  | .dir _ => DEFAULT_DIR_MODE
  | _ => DEFAULT_FILE_MODE

attribute [local instance] lawfulBEq_name

/-- The rootfs and the directories that are bound keep the default, but for `tmp`. -/
def entryMode : List Name → Node → Nat
  | [], node => defaultMode node
  | c :: _, node =>
    if c ∈ ignoreRootfsSubDirs then if c = "tmp".toList then 0o777 else defaultMode node
      else modeOf node

/-- The entry of a node of the tree; `name` is the name of the rootfs. -/
def entryAt (name : Name) (rel : List Name) (node : Node) : TarArchiveEntry :=
  tarEntry (name :: rel) (entryMode rel node) node

/-- The entries of the nodes at the given places. -/
def entriesOf (fs : FileSystem) (root : Loc) (name : Name) (rels : List (List Name)) :
    List TarArchiveEntry :=
  rels.filterMap fun rel => (fs.get (root ++ rel)).map (entryAt name rel)

theorem getLast_joinNames {names : List Name} (h : ∀ c ∈ names, Whole c) (hne : names ≠ []) :
    (joinNames names).getLast? ≠ some '/' := by
  intro hlast
  obtain ⟨s, hs⟩ := List.getLast?_eq_some_iff.mp hlast
  have hsplit : (joinNames names).splitOn '/' = names :=
    List.splitOn_intercalate '/' (fun c hc => (h c hc).2) hne
  rw [hs, List.splitOn_append_cons_self] at hsplit
  have hmem : [] ∈ names := by
    rw [← hsplit]
    simp
  exact (h [] hmem).1 rfl

section Entry

variable {names : List Name} {mode : Nat} {node : Node}

theorem tarEntry_path (h : ∀ c ∈ names, Whole c) : (tarEntry names mode node).path = names := by
  cases node with
  | dir m => exact components_joinNames_slash h
  | file content m => exact components_joinNames h
  | link target => exact components_joinNames h

theorem tarEntry_isDirectory (h : ∀ c ∈ names, Whole c) (hne : names ≠ []) :
    (tarEntry names mode node).isDirectory = node.isDir := by
  have hlast := decide_eq_false (getLast_joinNames h hne)
  cases node with
  | dir m => rfl
  | file content m => exact hlast
  | link target => exact hlast

end Entry

section Tree

variable {fs : FileSystem} {root : Loc} {rootfsDir : Path}

/-! ## The stream -/

/-- What the exporter writes: the rootfs, what its walk comes by and the directories that are
bound. -/
structure Streams (fs : FileSystem) (root : Loc) (rels : List (List Name)) : Prop where
  nodup : rels.Nodup
  there : ∀ r ∈ rels, fs.get (root ++ r) ≠ none
  order : ∀ pre r post, rels = pre ++ r :: post → r ≠ [] → r.dropLast ∈ pre

section Entries

variable {name : Name} {rels : List (List Name)}

theorem mem_entriesOf {e : TarArchiveEntry} :
    e ∈ entriesOf fs root name rels ↔ ∃ r ∈ rels, ∃ node, fs.get (root ++ r) = some node ∧
      e = entryAt name r node := by
  simp only [entriesOf, List.mem_filterMap, Option.map_eq_some_iff, @eq_comm _ e]

/-- The name of the rootfs and the names below it. -/
theorem Source.whole (h : Source fs root rootfsDir) (hname : Whole name) {r : List Name}
    (hget : fs.get (root ++ r) ≠ none) : ∀ c ∈ name :: r, Whole c := by
  intro c hc
  rcases List.mem_cons.mp hc with rfl | hc
  · exact hname
  · obtain ⟨hproper, hslash⟩ := h.names hget c hc
    exact ⟨hproper.1, hslash⟩

theorem Source.entryAt_path (h : Source fs root rootfsDir) (hname : Whole name) {r : List Name}
    {node : Node}
    (hget : fs.get (root ++ r) = some node) : (entryAt name r node).path = name :: r :=
  tarEntry_path (h.whole hname (by rw [hget]; exact nofun))

theorem Source.entryAt_isDirectory (h : Source fs root rootfsDir) (hname : Whole name)
    {r : List Name} {node : Node}
    (hget : fs.get (root ++ r) = some node) : (entryAt name r node).isDirectory = node.isDir :=
  tarEntry_isDirectory (h.whole hname (by rw [hget]; exact nofun)) (List.cons_ne_nil _ _)

/-- The entries carry the paths of their files, below the rootfs' name. -/
theorem Source.entriesOf_path (h : Source fs root rootfsDir) (hname : Whole name)
    (hthere : ∀ r ∈ rels, fs.get (root ++ r) ≠ none) :
    (entriesOf fs root name rels).map TarArchiveEntry.path = rels.map (name :: ·) := by
  induction rels with
  | nil => rfl
  | cons r rels ih =>
    obtain ⟨node, hnode⟩ := Option.ne_none_iff_exists'.mp (hthere r List.mem_cons_self)
    have hcons :
        entriesOf fs root name (r :: rels) = entryAt name r node :: entriesOf fs root name
          rels := by
      rw [entriesOf, List.filterMap_cons, hnode]
      rfl
    rw [hcons, List.map_cons, List.map_cons, h.entryAt_path hname hnode,
      ih fun r hr => hthere r (List.mem_cons_of_mem _ hr)]

/-- **The stream is well ordered.** A directory stands before what is below it, and no path stands
twice. -/
theorem Source.wellOrdered (h : Source fs root rootfsDir) (hname : Whole name)
    (hproper : Proper name)
    (hstreams : Streams fs root rels) : WellOrdered (entriesOf fs root name rels) where
  proper := by
    intro e he
    obtain ⟨r, hr, node, hnode, rfl⟩ := mem_entriesOf.mp he
    rw [h.entryAt_path hname hnode]
    refine ⟨List.cons_ne_nil _ _, fun c hc => ?_⟩
    rcases List.mem_cons.mp hc with rfl | hc
    · exact hproper
    · exact (h.names (hstreams.there r hr) c hc).1
  distinct := by
    rw [h.entriesOf_path hname hstreams.there]
    exact hstreams.nodup.map fun _ _ heq => (List.cons.inj heq).2
  parents := by
    intro pre e post heq hdrop
    have hpaths := h.entriesOf_path hname hstreams.there
    rw [heq, List.map_append, List.map_cons] at hpaths
    obtain ⟨pre', rest, rfl, hpre, hrest⟩ := List.map_eq_append_iff.mp hpaths.symm
    obtain ⟨r, post', rfl, hr, -⟩ := List.map_eq_cons_iff.mp hrest
    have hne : r ≠ [] := by
      rintro rfl
      rw [← hr] at hdrop
      exact hdrop rfl
    obtain ⟨q, c, rfl⟩ : ∃ q c, r = q ++ [c] := ⟨_, _, (List.dropLast_append_getLast hne).symm⟩
    -- the parent has been written, and it is a directory
    have hparent : name :: q ∈ pre.map TarArchiveEntry.path := by
      rw [← hpre]
      refine List.mem_map_of_mem ?_
      have hmem := hstreams.order pre' _ post' rfl hne
      rwa [List.dropLast_concat] at hmem
    obtain ⟨d, hd, hpath⟩ := List.mem_map.mp hparent
    obtain ⟨m, hm⟩ := h.closed.parent h.ne_nil (hstreams.there (q ++ [c]) (by simp))
    refine ⟨d, hd, ?_, ?_⟩
    · have hmem : d ∈ entriesOf fs root name (pre' ++ (q ++ [c]) :: post') := by
        rw [heq]
        exact List.mem_append_left _ hd
      obtain ⟨r', -, node, hnode, rfl⟩ := mem_entriesOf.mp hmem
      rw [h.entryAt_path hname hnode] at hpath
      obtain rfl := (List.cons.inj hpath).2
      rw [h.entryAt_isDirectory hname hnode]
      rw [hm] at hnode
      obtain rfl := Option.some.inj hnode
      rfl
    · rw [hpath, ← hr, ← List.cons_append, List.dropLast_concat]

end Entries

/-! ## The export -/

/-- The directories that are written without what is in them. -/
def boundDirs : List Name := ignoreRootfsSubDirs.filter (· ≠ "storage".toList)

/-- What the exporter needs: the directories that are bound are there, and it can write them without
a content. -/
def BoundThere (fs : FileSystem) (root : Loc) : Prop :=
  ∀ dir ∈ boundDirs, ∃ node, fs.get (root ++ [dir]) = some node ∧ ∀ content m,
    node = .file content m → content = []

/-- The names at the top that the walk starts from. -/
def topNames (fs : FileSystem) (root : Loc) : List Name :=
  (children fs root).filter fun c => !ignoreRootfsSubDirs.contains c

/-- The top names are the children of the root that are not ignored. -/
theorem mem_topNames {c : Name} :
    c ∈ topNames fs root ↔ fs.get (root ++ [c]) ≠ none ∧ c ∉ ignoreRootfsSubDirs := by
  rw [topNames, List.mem_filter, mem_children]
  simp

/-- The walk starts with every top name pending. -/
theorem pending_topNames (fs : FileSystem) (root : Loc) :
    Pending fs root fs.entries.length ((topNames fs root).map fun c => [c]) [] where
  apart := by
    refine List.Pairwise.map _ (fun c c' hne => ?_) ((nodup_children fs root).filter _)
    exact ⟨fun hle => hne (by simpa using hle), fun hle => hne (by simpa using hle : c' = c).symm⟩
  there := by
    intro q hq
    obtain ⟨c, hc, rfl⟩ := List.mem_map.mp hq
    exact (mem_topNames.mp hc).1
  nodup := List.nodup_nil
  past := nofun
  new := nofun
  fuel := Nat.le_refl _

section Export

variable {q : Path} {name : Name} {visited : List (List Name)}

theorem lstat_getTarEntry {path : Path} {node : Node} (removeLen : Nat)
    (h : lstat fs path = some node) :
    getTarEntry fs path removeLen =
      some (tarEntry (path.drop removeLen) (defaultMode node) node) := by
  rw [getTarEntry, h]
  cases node <;> rfl

/-- The names of a path in the archive. -/
theorem drop_rootfsDir (q : Path) (name : Name) (rel : List Name) :
    (q ++ [name] ++ rel).drop (q ++ [name]).dropLast.length = name :: rel := by
  rw [List.dropLast_concat, List.append_assoc, List.drop_left]
  rfl

theorem modeOf_tarEntry (names : List Name) (mode mode' : Nat) (node : Node) :
    { tarEntry names mode node with mode := mode' } = tarEntry names mode' node := by
  cases node <;> rfl

/-- Every file on the walk becomes the entry of its path. -/
theorem Source.walkEntry_eq (h : Source fs root (q ++ [name])) {c : Name} {rel : List Name}
    (hc : c ∉ ignoreRootfsSubDirs) (hget : fs.get (root ++ c :: rel) ≠ none) :
    walkEntry fs (q ++ [name]).dropLast.length (q ++ [name] ++ c :: rel) =
      (fs.get (root ++ c :: rel)).map (entryAt name (c :: rel)) := by
  obtain ⟨node, hnode⟩ := Option.ne_none_iff_exists'.mp hget
  have hlstat := (h.lstat_eq hget).trans hnode
  rw [walkEntry, hlstat, Option.bind_some, lstat_getTarEntry _ hlstat, Option.map_some,
    modeOf_tarEntry, drop_rootfsDir,
    hnode, Option.map_some, entryAt, entryMode, if_neg hc]

/-- The bound directories become empty entries of their own. -/
theorem Source.boundEntry_eq (h : Source fs root (q ++ [name])) {dir : Name}
    (hdir : dir ∈ ignoreRootfsSubDirs)
    {node : Node} (hget : fs.get (root ++ [dir]) = some node)
    (hempty : ∀ content m, node = .file content m → content = []) :
    boundEntry fs (q ++ [name]) (q ++ [name]).dropLast.length dir =
      some (entryAt name [dir] node) := by
  have hlstat : lstat fs (q ++ [name] ++ [dir]) = some node :=
    (h.lstat_eq (by rw [hget]; exact nofun)).trans hget
  have hcontent : (tarEntry (name :: [dir]) (defaultMode node) node).content = [] := by
    cases node with
    | dir m => rfl
    | link target => rfl
    | file content m => exact hempty content m rfl
  rw [boundEntry, lstat_getTarEntry _ hlstat, Option.bind_some, drop_rootfsDir,
    if_neg (not_not_intro hcontent), entryAt,
    entryMode, if_pos hdir, modeOf_tarEntry]
  split <;> rfl

/-- No file of the source leaves its entry of the archive open. -/
theorem Source.not_leavesOpen (h : Source fs root rootfsDir) {rel : List Name}
    (hget : fs.get (root ++ rel) ≠ none) :
    leavesOpen fs (rootfsDir ++ rel) = false := by
  rw [leavesOpen, h.lstat_eq hget]
  split
  next content m hfile => rw [h.isRootfs.files rel content m hfile, Bool.not_true, Bool.false_and]
  next => rfl

theorem mapM_eq_filterMap {α β : Type} {f : α → Option β} {xs : List α} (h : ∀ x ∈ xs, f x ≠ none) :
    xs.mapM f = some (xs.filterMap f) := by
  induction xs with
  | nil => rfl
  | cons x xs ih =>
    obtain ⟨y, hy⟩ := Option.ne_none_iff_exists'.mp (h x List.mem_cons_self)
    rw [List.mapM_cons, List.filterMap_cons, hy, ih fun x hx => h x (List.mem_cons_of_mem _ hx)]
    rfl

theorem mem_ignored_of_mem_boundDirs {dir : Name} (h : dir ∈ boundDirs) :
    dir ∈ ignoreRootfsSubDirs :=
  (List.mem_filter.mp h).1

/-- All the bound directories are written, each as one entry. -/
theorem Source.bound_eq (h : Source fs root (q ++ [name])) (hbound : BoundThere fs root) :
    boundDirs.mapM (boundEntry fs (q ++ [name]) (q ++ [name]).dropLast.length) =
      some (entriesOf fs root name (boundDirs.map fun dir => [dir])) := by
  have hentry : ∀ dir ∈ boundDirs, boundEntry fs (q ++ [name]) (q ++ [name]).dropLast.length dir =
      (fs.get (root ++ [dir])).map (entryAt name [dir]) := by
    intro dir hdir
    obtain ⟨node, hnode, hempty⟩ := hbound dir hdir
    rw [h.boundEntry_eq (mem_ignored_of_mem_boundDirs hdir) hnode hempty, hnode, Option.map_some]
  rw [mapM_eq_filterMap, entriesOf, List.filterMap_map]
  · exact congrArg _ (List.filterMap_congr hentry)
  · intro dir hdir
    obtain ⟨node, hnode, -⟩ := hbound dir hdir
    rw [hentry dir hdir, hnode]
    exact nofun

/-- Listing the rootfs gives its top names. -/
theorem Source.rootfsContents_eq (h : Source fs root rootfsDir) :
    ∃ contents, listDirectoryEntries fs rootfsDir = some contents ∧
      (contents.filter fun path => !ignoreRootfsSubDirs.contains (getName path)) =
        ((topNames fs root).map fun c => [c]).map (rootfsDir ++ ·) := by
  obtain ⟨m, hm⟩ := h.isRootfs.dir
  have hlist :=
    h.listDirectoryEntries_eq (show fs.get (root ++ []) = some (.dir m) by rwa [List.append_nil])
  rw [List.append_nil, List.append_nil] at hlist
  refine ⟨_, hlist, ?_⟩
  rw [List.filter_map, List.map_map, topNames]
  congr 1
  refine List.filter_congr fun c _ => ?_
  simp [getName]

/-- The places of the entries. -/
theorem Source.streams (h : Source fs root rootfsDir) (hbound : BoundThere fs root)
    (hvisits : Visits fs root ((topNames fs root).map fun c => [c]) visited) :
    Streams fs root ([] :: (visited ++ boundDirs.map fun dir => [dir])) where
  nodup := by
    have hne : ∀ r ∈ visited ++ boundDirs.map fun dir => [dir], r ≠ [] := by
      intro r hr
      rcases List.mem_append.mp hr with hr | hr
      · obtain ⟨-, p, hp, hle⟩ := (hvisits.mem r).mp hr
        obtain ⟨c, -, rfl⟩ := List.mem_map.mp hp
        rintro rfl
        exact absurd (List.prefix_nil.mp hle) (List.cons_ne_nil _ _)
      · obtain ⟨dir, -, rfl⟩ := List.mem_map.mp hr
        exact List.cons_ne_nil _ _
    refine List.nodup_cons.mpr ⟨fun hnil => hne [] hnil rfl, ?_⟩
    refine List.nodup_append.mpr ⟨hvisits.nodup, ?_, fun r hr r' hr' heq => ?_⟩
    · exact List.Nodup.map (fun _ _ heq => (List.cons.inj heq).1) (by decide)
    · obtain ⟨-, p, hp, hle⟩ := (hvisits.mem r).mp hr
      obtain ⟨c, hc, rfl⟩ := List.mem_map.mp hp
      obtain ⟨dir, hdir, rfl⟩ := List.mem_map.mp hr'
      rw [heq] at hle
      have hcdir : c = dir := by simpa using hle
      exact (mem_topNames.mp hc).2 (hcdir ▸ mem_ignored_of_mem_boundDirs hdir)
  there := by
    intro r hr
    rcases List.mem_cons.mp hr with rfl | hr
    · obtain ⟨m, hm⟩ := h.isRootfs.dir
      rw [List.append_nil, hm]
      exact nofun
    · rcases List.mem_append.mp hr with hr | hr
      · exact ((hvisits.mem r).mp hr).1
      · obtain ⟨dir, hdir, rfl⟩ := List.mem_map.mp hr
        obtain ⟨node, hnode, -⟩ := hbound dir hdir
        rw [hnode]
        exact nofun
  order := by
    intro pre r post heq hne
    cases pre with
    | nil => exact absurd (List.cons.inj heq).1.symm hne
    | cons p pre =>
      obtain ⟨hp, htail⟩ := List.cons.inj heq
      rw [← hp]
      -- what stands at the top follows the rootfs itself
      have htop : (∃ c, r = [c]) → r.dropLast ∈ [] :: pre := by
        rintro ⟨c, rfl⟩
        exact List.mem_cons_self
      rcases List.append_eq_append_iff.mp htail with ⟨pre', rfl, hrest⟩ | ⟨post', hvisited, hrest⟩
      · have hr : r ∈ boundDirs.map fun dir => [dir] := by
          rw [hrest]
          simp
        obtain ⟨dir, -, rfl⟩ := List.mem_map.mp hr
        exact htop ⟨dir, rfl⟩
      · cases post' with
        | nil =>
          have hr : r ∈ boundDirs.map fun dir => [dir] := by
            rw [List.nil_append] at hrest
            rw [← hrest]
            exact List.mem_cons_self
          obtain ⟨dir, -, rfl⟩ := List.mem_map.mp hr
          exact htop ⟨dir, rfl⟩
        | cons r' post' =>
          obtain ⟨rfl, -⟩ := List.cons.inj hrest
          rcases hvisits.order pre r post' hvisited with hstart | hpre
          · obtain ⟨c, -, rfl⟩ := List.mem_map.mp hstart
            exact htop ⟨c, rfl⟩
          · exact List.mem_cons_of_mem _ hpre

/-- **The archive has an entry for each node outside of the bound directories, and one for each of
these.** -/
theorem Source.export_eq (h : Source fs root (q ++ [name])) (hbound : BoundThere fs root) :
    ∃ visited, Visits fs root ((topNames fs root).map fun c => [c]) visited ∧
      exportRootfsArchive fs (q ++ [name]) =
        some (entriesOf fs root name ([] :: (visited ++ boundDirs.map fun dir => [dir]))) := by
  obtain ⟨visited, hwalk, hvisits⟩ := h.walk_visits (pending_topNames fs root)
  obtain ⟨contents, hlist, hcontents⟩ := h.rootfsContents_eq
  obtain ⟨m, hm⟩ := h.isRootfs.dir
  have hroot :
      getTarEntry fs (q ++ [name]) (q ++ [name]).dropLast.length =
        some (entryAt name [] (.dir m)) := by
    have hlstat : lstat fs (q ++ [name]) = some (.dir m) := by
      rw [lstat, h.place, Option.bind_some, hm]
    have hdrop := drop_rootfsDir q name []
    rw [List.append_nil] at hdrop
    rw [lstat_getTarEntry _ hlstat, hdrop]
    rfl
  have hopen : ¬ (visited.map (q ++ [name] ++ ·)).any (leavesOpen fs) = true := by
    rw [List.any_map, List.any_eq_true]
    rintro ⟨r, hr, hopen⟩
    rw [Function.comp_apply, h.not_leavesOpen ((hvisits.mem r).mp hr).1] at hopen
    cases hopen
  have hwalked :
      (visited.map (q ++ [name] ++ ·)).filterMap (walkEntry fs (q ++ [name]).dropLast.length) =
      entriesOf fs root name visited := by
    rw [List.filterMap_map, entriesOf]
    refine List.filterMap_congr fun r hr => ?_
    obtain ⟨hget, p, hp, hle⟩ := (hvisits.mem r).mp hr
    obtain ⟨c, hc, rfl⟩ := List.mem_map.mp hp
    obtain ⟨rel, rfl⟩ := hle
    exact h.walkEntry_eq (mem_topNames.mp hc).2 hget
  refine ⟨visited, hvisits, ?_⟩
  rw [exportRootfsArchive, hlist, Option.bind_some, hcontents, hroot, Option.bind_some, hwalk,
    Option.bind_some,
    if_neg hopen, hwalked]
  show Option.map _ (boundDirs.mapM _) = _
  rw [h.bound_eq hbound, Option.map_some]
  simp only [entriesOf, List.filterMap_cons, List.append_nil, hm, Option.map_some,
    List.filterMap_append,
    List.cons_append]

theorem ne_none_of_mapM {α β : Type} {f : α → Option β} {xs : List α} {ys : List β}
    (h : xs.mapM f = some ys) :
    ∀ x ∈ xs, f x ≠ none := by
  induction xs generalizing ys with
  | nil => nofun
  | cons x xs ih =>
    rw [List.mapM_cons] at h
    obtain ⟨y, hy, hrest⟩ := Option.bind_eq_some_iff.mp h
    obtain ⟨zs, hzs, -⟩ := Option.bind_eq_some_iff.mp hrest
    intro x' hx'
    rcases List.mem_cons.mp hx' with rfl | hx'
    · rw [hy]
      exact nofun
    · exact ih hzs x' hx'

theorem Source.lstat_top (h : Source fs root rootfsDir) {c : Name} (hc : Proper c) :
    lstat fs (rootfsDir ++ [c]) = fs.get (root ++ [c]) := by
  obtain ⟨m, hm⟩ := h.isRootfs.dir
  have hget : fs.get (root ++ []) = some (.dir m) := by rwa [List.append_nil]
  have hsearch := h.search hget
  rw [List.append_nil] at hsearch
  have hplace : Fs.place fs (rootfsDir ++ ([] ++ [c])) = some (root ++ ([] ++ [c])) :=
    place_below h.path ((walk_clear clear_nil h.path).concat hc hsearch)
  rw [lstat, show Fs.place fs (rootfsDir ++ [c]) = some (root ++ [c]) from hplace, Option.bind_some]

/-- **Without them there is no archive.** -/
theorem Source.boundThere_of_export {archive : List TarArchiveEntry}
    (h : Source fs root (q ++ [name]))
    (hexport : exportRootfsArchive fs (q ++ [name]) = some archive) : BoundThere fs root := by
  obtain ⟨contents, -, hexport⟩ := Option.bind_eq_some_iff.mp hexport
  obtain ⟨top, -, hexport⟩ := Option.bind_eq_some_iff.mp hexport
  obtain ⟨paths, -, hexport⟩ := Option.bind_eq_some_iff.mp hexport
  split at hexport
  · cases hexport
  · obtain ⟨bound, hbound, -⟩ := Option.map_eq_some_iff.mp hexport
    intro dir hdir
    have hproper : ∀ dir ∈ boundDirs, Proper dir := by decide
    obtain ⟨written, hwritten⟩ := Option.ne_none_iff_exists'.mp (ne_none_of_mapM hbound dir hdir)
    obtain ⟨entry, hentry, hcontent⟩ := Option.bind_eq_some_iff.mp hwritten
    cases hget : fs.get (root ++ [dir]) with
    | none =>
      rw [getTarEntry, h.lstat_top (hproper dir hdir), hget] at hentry
      cases hentry
    | some node =>
      refine ⟨node, rfl, ?_⟩
      rintro content m rfl
      rw [getTarEntry, h.lstat_top (hproper dir hdir), hget] at hentry
      obtain rfl := Option.some.inj hentry
      by_contra hne
      rw [if_pos hne] at hcontent
      cases hcontent

/-- No link of it is one of another proot. -/
theorem Source.links_kept (h : Source fs root rootfsDir) (hname : Whole name) (outDir : Path)
    (rels : List (List Name)) :
    ∀ e ∈ entriesOf fs root name rels, e.isPutOff = true →
      e.linkName ≠ [] ∧ Archive.isL2s (e.symLink outDir) = false := by
  intro e he hputOff
  obtain ⟨r, -, node, hnode, rfl⟩ := mem_entriesOf.mp he
  have hpath := h.entryAt_path hname hnode
  have hlink := (isPutOff_parts hputOff).2.2
  cases node with
  | dir m => cases hlink
  | file content m => cases hlink
  | link target =>
    refine ⟨pathString_ne_nil (h.isRootfs.links r target hnode), ?_⟩
    -- the rootfs itself is no link, so the link has a name in the tree
    obtain ⟨q, c, rfl⟩ : ∃ q c, r = q ++ [c] := by
      cases r using List.reverseRecOn with
      | nil =>
        obtain ⟨m, hm⟩ := h.isRootfs.dir
        rw [List.append_nil, hm] at hnode
        cases hnode
      | append_singleton q c => exact ⟨q, c, rfl⟩
    have hnot := h.isRootfs.names (q ++ [c]) (by rw [hnode]; exact nofun) c (by simp)
    have hlast : getName (outDir ++ (name :: (q ++ [c]))) = c := by
      rw [← List.cons_append, ← List.append_assoc, getName_concat]
    have hsymlink : ((entryAt name (q ++ [c]) (.link target)).symLink outDir).symlink =
        outDir ++ (name :: (q ++ [c])) := congrArg (outDir ++ ·) hpath
    rw [Archive.isL2s, hsymlink, hlast, hnot, Bool.false_or]
    show ".l2s.".toList.isPrefixOf (getName (components (pathString target))) = false
    rw [components_pathString]
    exact h.isRootfs.targets _ target hnode

/-- **And it can be extracted.** -/
theorem Source.extractable (h : Source fs root rootfsDir) (hname : Whole name)
    (hl2s : name ≠ ".l2s".toList)
    (outDir : Path) (rels : List (List Name)) :
    Extractable outDir (entriesOf fs root name rels) where
  links := h.links_kept hname outDir rels
  modes := by
    intro e he hdir
    obtain ⟨r, -, node, hnode, rfl⟩ := mem_entriesOf.mp he
    rw [h.entryAt_isDirectory hname hnode] at hdir
    cases node with
    | file content m => cases hdir
    | link target => cases hdir
    | dir m =>
      have hdefault : grants (modeBits DEFAULT_DIR_MODE) .search = true := by decide
      show grants (modeBits (entryMode r (.dir m))) .search = true
      cases r with
      | nil => exact hdefault
      | cons c r =>
        rw [entryMode]
        split
        · split
          · decide
          · exact hdefault
        · rw [modeOf, grants_modeBits]
          exact (h.isRootfs.dirs (c :: r) m hnode).2
  l2s := by
    intro e he
    obtain ⟨r, -, node, hnode, rfl⟩ := mem_entriesOf.mp he
    rw [h.entryAt_path hname hnode]
    intro heq
    exact hl2s (List.cons.inj heq).1

end Export

end Tree

end WinEmulator.App.Rootfs
