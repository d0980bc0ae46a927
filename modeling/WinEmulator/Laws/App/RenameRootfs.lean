import WinEmulator.App.RenameRootfs
import WinEmulator.Lib.FileTree
import WinEmulator.Lib.RelativePath
import WinEmulator.Lib.Subtree

/-!
# A rename of a rootfs, all or nothing

A rename that is not refused goes on as if `renameTo` had succeeded. It does where the new name is
one name, the directory of the rootfs can be written, and nothing stands in the way; then the link
of the running rootfs, which always is a link, is made anew. Where it does not, nothing is thrown,
and the link of the running rootfs leads to nothing.
-/

set_option autoImplicit false

namespace WinEmulator.App

open WinEmulator.Lib WinEmulator.Lib.Fs WinEmulator.Lib.JavaFile

/-- `current`. -/
def currentName : Text := "current".toList

/-- The path leads to the directory, whatever stands in there. -/
def Reaches (fs : FileSystem) (p : Path) (base : Loc) : Prop :=
  ∀ fs', (∀ x, (∀ c, ¬base ++ [c] <+: x) → fs'.get x = fs.get x) → resolve fs' false p = some base

/-- One name in a directory has what the other one had, which is gone. -/
structure Renamed (fs fs' : FileSystem) (base : Loc) (oldName newName : Name) : Prop where
  content : ∀ rel, fs'.get (base ++ newName :: rel) = fs.get (base ++ oldName :: rel)
  absent : fs'.get (base ++ [oldName]) = none

/-- A link stands at the one location, and its target at the other. -/
def LinksTo (fs : FileSystem) (l l' : Loc) : Prop :=
  ∃ target, fs.get l = some (.link target) ∧
    place fs ((if target.head? = some '/' then [] else l.dropLast) ++ targetPath target) = some l'

/-- Either something is thrown, and nothing has changed; or the rootfs has its new name, which is
that of a file right in the directory, and `current` leads there if it led to the old one. -/
def AllOrNothing (digit : Char → Option Nat) (lines : List UInt8 → List Text) (dirs : AppDirs)
    (base : Loc)
    (s : RootfsSettings) (oldName newName : Text) : Prop :=
  let outcome := s.onRootfsNameChange digit lines dirs oldName newName
  (outcome.2 ≠ none ∧ outcome.1 = s) ∨
    (outcome.2 = none ∧ ∃ name, components newName = [name] ∧ Proper name ∧
      Renamed s.disk.fs outcome.1.disk.fs base oldName name ∧
      (oldName = dirs.currRootfs s.disk.fs →
        LinksTo outcome.1.disk.fs (base ++ [currentName]) (base ++ [name])))

/-- The new name is taken. -/
def Taken (dirs : AppDirs) (fs : FileSystem) (newName : Text) : Prop :=
  newName = currentName ∨ exists_ fs (dirs.rootfsFile newName) = true

/-- `renameTo` can succeed: the new name is another name in the directory, which can be written, and
what stands there, a link to nothing at best, can be replaced by what has the old name. -/
structure CanRename (fs : FileSystem) (base : Loc) (oldName : Name) (newName : Text) (name : Name) :
    Prop where
  single : components newName = [name]
  proper : Proper name
  other : oldName ≠ name
  search : dirGrants fs base .search = true
  write : dirGrants fs base .write = true
  free : fs.get (base ++ [name]) = none ∨ ∀ m, fs.get (base ++ [oldName]) ≠ some (.dir m)

variable {dirs : AppDirs} {fs fs' : FileSystem} {p : Path} {base : Loc} {oldName newName : Text}
  {name : Name}

/-- The field is for a rootfs in the directory. -/
structure Listed (dirs : AppDirs) (fs : FileSystem) (base : Loc) (oldName : Name) : Prop where
  closed : Closed fs
  reaches : Reaches fs (components dirs.rootfsAllDir) base
  there : oldName ∈ children fs base
  notCurrent : oldName ≠ currentName

/-! ## The directory -/

theorem Reaches.resolve (h : Reaches fs p base) : Fs.resolve fs false p = some base :=
  h fs fun _ _ => rfl

/-- Changes below the entries of the directory keep the way to it. -/
theorem Reaches.congr (h : Reaches fs p base)
    (hsame : ∀ x, (∀ c, ¬base ++ [c] <+: x) → fs'.get x = fs.get x) :
    Reaches fs' p base :=
  fun fs'' hsame' => h fs'' fun x hx => (hsame' x hx).trans (hsame x hx)

theorem Reaches.set (h : Reaches fs p base) (c : Name) (node : Option Node) :
    Reaches (fs.set (base ++ [c]) node) p base := by
  refine h.congr fun x hx => ?_
  rw [LinkedMap.get_set, if_neg]
  rintro rfl
  exact hx c (List.prefix_refl _)

theorem Reaches.clear (h : Reaches fs p base) : Clear fs base := walk_clear clear_nil h.resolve

/-- Nothing in the directory is the directory. -/
theorem not_below (base : Loc) (c : Name) : ¬base ++ [c] <+: base := by
  intro hle
  have hlength := hle.length_le
  rw [List.length_append, List.length_singleton] at hlength
  omega

theorem not_below_siblings {c c' : Name} (hne : c ≠ c') : ¬base ++ [c] <+: base ++ [c'] := by
  intro hle
  rw [List.prefix_append_right_inj, List.cons_prefix_cons] at hle
  exact hne hle.1

/-- Where the path of an entry leads. -/
theorem Reaches.place_iff (h : Reaches fs p base) {c : Name} {l : Loc} :
    place fs (p ++ [c]) = some l ↔ Proper c ∧ dirGrants fs base .search = true ∧
      l = base ++ [c] := by
  rw [place_concat_iff]
  refine and_congr_right fun _ => ⟨?_, ?_⟩
  · rintro ⟨parent, hparent, hsearch, rfl⟩
    obtain rfl := Option.some.inj (h.resolve.symm.trans hparent)
    exact ⟨hsearch, rfl⟩
  · rintro ⟨hsearch, rfl⟩
    exact ⟨base, h.resolve, hsearch, rfl⟩

/-! ## Paths of the app -/

theorem rootfsFile_eq (dirs : AppDirs) (name : Text) :
    dirs.rootfsFile name = components dirs.rootfsAllDir ++ components name :=
  components_append_slash _ _

theorem currDir_eq (dirs : AppDirs) :
    dirs.currDir = components dirs.rootfsAllDir ++ [currentName] := by
  have hname : components currentName = [currentName] :=
    components_of_not_mem (by decide) (by decide)
  rw [← hname]
  exact components_append_slash _ _

/-! ## `Files.symlink` -/

theorem createEffect_place {node : Node} {e : Effect} (h : createEffect fs p node = some e) :
    place fs p = some e.1 := by
  obtain ⟨l, hl, he⟩ := Option.bind_eq_some_iff.mp h
  obtain ⟨-, heq⟩ := Option.ite_none_right_eq_some.mp he
  rw [← Option.some.inj heq]
  exact hl

theorem symlinkEffect_place {target : Text} {e : Effect} (h : symlinkEffect fs target p = some e) :
    place fs p = some e.1 :=
  createEffect_place (Option.ite_none_left_eq_some.mp h).2

/-- What is done at a name in the directory changes nothing but that name. -/
theorem Reaches.perform {d : Disk} (h : Reaches d.fs p base) (c : Name) (effect : Option Effect)
    (hplace : ∀ e, effect = some e → place d.fs (p ++ [c]) = some e.1) :
    Reaches (d.perform effect).fs p base ∧ ∀ x, x ≠ base ++ [c] →
      (d.perform effect).fs.get x = d.fs.get x := by
  cases heffect : effect with
  | none => exact ⟨h, fun _ _ => rfl⟩
  | some e =>
    obtain ⟨-, -, heq⟩ := h.place_iff.mp (hplace e heffect)
    refine ⟨?_, fun x hx => ?_⟩
    · change Reaches (d.fs.set e.1 e.2) p base
      rw [heq]
      exact h.set c e.2
    · change (d.fs.set e.1 e.2).get x = _
      rw [LinkedMap.get_set, heq, if_neg hx]

/-- A link in the directory changes nothing but its name. -/
theorem symlink_get {d : Disk} (h : Reaches d.fs p base) (realFile : Path) (c : Name) {x : Loc}
    (hx : x ≠ base ++ [c]) :
    (Files.symlink d realFile (p ++ [c])).fs.get x = d.fs.get x := by
  unfold Files.symlink
  split
  · rfl
  · obtain ⟨hreaches, hdeleted⟩ := h.perform c (removeEffect d.fs (p ++ [c])) fun e he => by
      obtain ⟨l, hl, rfl⟩ := remove_of_effect he
      exact hl
    have hmade : mkdirs (delete d (p ++ [c])) (p ++ [c]).dropLast =
        (delete d (p ++ [c]), false) := by
      refine mkdirs_of_exists ?_
      rw [List.dropLast_concat, exists_]
      exact Option.isSome_iff_exists.mpr ⟨base, hreaches.resolve⟩
    simp only [hmade]
    obtain ⟨-, hlinked⟩ := hreaches.perform c
      (symlinkEffect (delete d (p ++ [c])).fs (absolutePath realFile) (p ++ [c])) fun e he =>
        symlinkEffect_place he
    exact (hlinked x hx).trans (hdeleted x hx)

theorem Reaches.symlink {d : Disk} (h : Reaches d.fs p base) (realFile : Path) (c : Name) :
    Reaches (Files.symlink d realFile (p ++ [c])).fs p base := by
  refine h.congr fun x hx => symlink_get h realFile c ?_
  rintro rfl
  exact hx c (List.prefix_refl _)

/-- Where a link is in a directory that can be written, another one takes its place. -/
theorem symlink_link {d : Disk} (h : Reaches d.fs p base) {realFile : Path} (hreal : realFile ≠ [])
    {c : Name} {target : Text}
    (hc : Proper c)
    (hsearch : dirGrants d.fs base .search = true) (hwrite : dirGrants d.fs base .write = true)
    (hlink : d.fs.get (base ++ [c]) = some (.link target)) :
    (Files.symlink d realFile (p ++ [c])).fs.get (base ++ [c]) = some
    (.link (absolutePath realFile)) := by
  have hplace : place d.fs (p ++ [c]) = some (base ++ [c]) := h.place_iff.mpr ⟨hc, hsearch, rfl⟩
  have hsymbolic : isSymbolicLink d.fs (p ++ [c]) = true := by
    rw [isSymbolicLink, hplace, Option.bind_some, hlink]
  have hdelete : delete d (p ++ [c]) = d.apply (base ++ [c], none) := by
    have heffect : removeEffect d.fs (p ++ [c]) = some (base ++ [c], none) := by
      rw [removeEffect, hplace, Option.bind_some, hlink, List.dropLast_concat]
      exact if_pos hwrite
    rw [delete, heffect]
    rfl
  have hsame : ∀ a, dirGrants (d.fs.set (base ++ [c]) none) base a = dirGrants d.fs base a := by
    intro a
    refine dirGrants_congr a ?_
    rw [LinkedMap.get_set, if_neg]
    intro heq
    exact not_below base c (heq ▸ List.prefix_refl base)
  have hreaches : Reaches (d.apply (base ++ [c], none)).fs p base := h.set c none
  have hmade :
      mkdirs (d.apply (base ++ [c], none)) (p ++ [c]).dropLast =
        (d.apply (base ++ [c], none), false) := by
    refine mkdirs_of_exists ?_
    rw [List.dropLast_concat, exists_]
    exact Option.isSome_iff_exists.mpr ⟨base, hreaches.resolve⟩
  have hcreate : symlinkEffect (d.apply (base ++ [c], none)).fs (absolutePath realFile) (p ++ [c]) =
      some (base ++ [c], some (.link (absolutePath realFile))) := by
    have hplaceNow : place (d.apply (base ++ [c], none)).fs (p ++ [c]) = some (base ++ [c]) :=
      hreaches.place_iff.mpr ⟨hc, (hsame .search).trans hsearch, rfl⟩
    have hne : absolutePath realFile ≠ [] := by
      intro hnil
      have hhead := head?_absolutePath hreal
      rw [hnil] at hhead
      cases hhead
    rw [symlinkEffect, if_neg hne, createEffect, hplaceNow, Option.bind_some]
    refine if_pos ⟨?_, ?_⟩
    · change (d.fs.set (base ++ [c]) none).get (base ++ [c]) = none
      rw [LinkedMap.get_set, if_pos rfl]
    · rw [List.dropLast_concat]
      exact (hsame .write).trans hwrite
  rw [Files.symlink, hsymbolic, Bool.not_true, Bool.and_false, Bool.false_and,
    if_neg Bool.false_ne_true, hdelete]
  simp only [hmade, hcreate]
  change ((d.fs.set (base ++ [c]) none).set (base ++ [c])
    (some (.link (absolutePath realFile)))).get (base ++ [c]) = _
  rw [LinkedMap.get_set, if_pos rfl]

/-! ## `renameTo` -/

theorem Listed.rootfsFile (h : Listed dirs fs base oldName) :
    dirs.rootfsFile oldName = components dirs.rootfsAllDir ++ [oldName] := by
  obtain ⟨hne, -, -, hslash⟩ := h.closed.names base oldName (mem_children.mp h.there)
  rw [rootfsFile_eq, components_of_not_mem hne hslash]

theorem Listed.proper (h : Listed dirs fs base oldName) : Proper oldName := by
  exact proper_of_mem_children h.closed h.there

theorem rootfsFile_single (dirs : AppDirs) (hsingle : components newName = [name]) :
    dirs.rootfsFile newName = components dirs.rootfsAllDir ++ [name] := by
  rw [rootfsFile_eq, hsingle]

/-- Only a link can stand where a path leads nowhere. -/
theorem Reaches.link_of_not_exists (h : Reaches fs p base) (hproper : Proper name)
    (hsearch : dirGrants fs base .search = true)
    (hnot : ¬exists_ fs (p ++ [name]) = true) {node : Node}
    (hnode : fs.get (base ++ [name]) = some node) :
    ∃ target, node = .link target := by
  by_contra hlink
  refine hnot ?_
  have hresolve := resolve_node_below h.resolve (h.clear.concat hproper hsearch) false hnode
    fun target heq => hlink ⟨target, heq⟩
  rw [exists_, hresolve]
  rfl

/-- What `rename` does with a rootfs that is given one name. -/
theorem Listed.rename_eq {d : Disk} (h : Listed dirs d.fs base oldName)
    (hsingle : components newName = [name])
    (hproper : Proper name) (hsearch : dirGrants d.fs base .search = true) {node : Node}
    (hnode : d.fs.get (base ++ [oldName]) = some node) :
    rename d (dirs.rootfsFile oldName) (dirs.rootfsFile newName) =
      if dirGrants d.fs base .write ∧ oldName ≠ name ∧ mayReplace d.fs node (base ++ [name]) then
        some ((moveEffects d.fs (base ++ [oldName]) (base ++ [name])).foldl Disk.apply d)
      else if oldName = name then some d
      else none := by
  rw [h.rootfsFile, rootfsFile_single dirs hsingle]
  exact rename_siblings (h.reaches.place_iff.mpr ⟨h.proper, hsearch, rfl⟩)
    (h.reaches.place_iff.mpr ⟨hproper, hsearch, rfl⟩)
    hnode

/-- A rename replaces nothing, or a link by what is no directory. -/
theorem mayReplace_iff {node : Node} {l : Loc}
    (hlink : ∀ node', fs.get l = some node' → ∃ target, node' = .link target) :
    mayReplace fs node l = true ↔ fs.get l = none ∨ ∀ m, node ≠ .dir m := by
  unfold mayReplace
  cases hget : fs.get l with
  | none => cases node <;> simp
  | some node' =>
    obtain ⟨target, rfl⟩ := hlink node' hget
    cases node <;> simp

/-- The directories after a rename that succeeds. -/
theorem Listed.renamed {d : Disk} (h : Listed dirs d.fs base oldName)
    (hcan : CanRename d.fs base oldName newName name)
    (hfree : ¬exists_ d.fs (dirs.rootfsFile newName) = true) :
    ∃ d', rename d (dirs.rootfsFile oldName) (dirs.rootfsFile newName) = some d' ∧
      Moved (base ++ [oldName]) (base ++ [name]) d.fs d'.fs := by
  obtain ⟨hsingle, hproper, hother, hsearch, hwrite, hplace⟩ := hcan
  obtain ⟨node, hnode⟩ := Option.ne_none_iff_exists'.mp (mem_children.mp h.there)
  rw [rootfsFile_single dirs hsingle] at hfree
  have hlink : ∀ node', d.fs.get (base ++ [name]) = some node' → ∃ target, node' = .link target :=
    fun node' hnode' => h.reaches.link_of_not_exists hproper hsearch hfree hnode'
  have hplace' : d.fs.get (base ++ [name]) = none ∨ ∀ m, node ≠ .dir m :=
    hplace.imp_right fun hfile m heq => hfile m (heq ▸ hnode)
  refine ⟨_, (h.rename_eq hsingle hproper hsearch hnode).trans
    (if_pos ⟨hwrite, hother, (mayReplace_iff hlink).mpr hplace'⟩), ?_⟩
  refine moved_moveEffects d (not_below_siblings hother) (not_below_siblings hother.symm) ?_
  refine free_of_mayReplace h.closed (by simp) hnode
    (hplace'.imp_right fun hfile => ⟨hfile, fun m hdir => ?_⟩)
  obtain ⟨target, heq⟩ := hlink _ hdir
  cases heq

theorem Reaches.moveEffects {d : Disk} (h : Reaches d.fs p base) (c c' : Name) :
    Reaches ((moveEffects d.fs (base ++ [c]) (base ++ [c'])).foldl Disk.apply d).fs p base := by
  refine h.congr fun x hx => get_foldl_apply_of_not_mem ?_ d
  rw [List.mem_map]
  rintro ⟨e, he, rfl⟩
  obtain ⟨rel, node, -, rfl | rfl⟩ := mem_moveEffects.mp he
  · exact hx c (List.prefix_append _ _)
  · exact hx c' (List.prefix_append _ _)

/-- Without search permission on the directory the rename fails. -/
theorem Listed.rename_eq_none {d : Disk} (h : Listed dirs d.fs base oldName) (q : Path)
    (hnot : ¬dirGrants d.fs base .search = true) : rename d (dirs.rootfsFile oldName) q = none := by
  have hplace : place d.fs (dirs.rootfsFile oldName) = none := by
    rw [h.rootfsFile, Option.eq_none_iff_forall_ne_some]
    intro l hl
    exact hnot (h.reaches.place_iff.mp hl).2.1
  rw [rename, hplace]
  rfl

/-- Whether or not a rename succeeds, the path leads to the directory. -/
theorem Listed.reaches_rename {d : Disk} (h : Listed dirs d.fs base oldName)
    (hsingle : components newName = [name])
    (hproper : Proper name) :
    Reaches ((rename d (dirs.rootfsFile oldName) (dirs.rootfsFile newName)).getD d).fs
      (components dirs.rootfsAllDir) base := by
  obtain ⟨node, hnode⟩ := Option.ne_none_iff_exists'.mp (mem_children.mp h.there)
  by_cases hsearch : dirGrants d.fs base .search = true
  · rw [h.rename_eq hsingle hproper hsearch hnode]
    split
    · exact h.reaches.moveEffects oldName name
    · split
      · exact h.reaches
      · exact h.reaches
  · rw [h.rename_eq_none _ hsearch]
    exact h.reaches

/-- A rename after which the old name is gone has succeeded. -/
theorem Listed.canRename {d : Disk} (h : Listed dirs d.fs base oldName)
    (hsingle : components newName = [name])
    (hproper : Proper name) (hfree : ¬exists_ d.fs (dirs.rootfsFile newName) = true)
    (habsent : ((rename d (dirs.rootfsFile oldName) (dirs.rootfsFile newName)).getD d).fs.get
      (base ++ [oldName]) = none) :
    CanRename d.fs base oldName newName name := by
  have hthere := mem_children.mp h.there
  obtain ⟨node, hnode⟩ := Option.ne_none_iff_exists'.mp hthere
  have hsearch : dirGrants d.fs base .search = true := by
    by_contra hnot
    rw [h.rename_eq_none _ hnot] at habsent
    exact hthere habsent
  rw [h.rename_eq hsingle hproper hsearch hnode] at habsent
  split at habsent
  next hmoves =>
    obtain ⟨hwrite, hother, hreplace⟩ := hmoves
    rw [rootfsFile_single dirs hsingle] at hfree
    have hlink : ∀ node', d.fs.get (base ++ [name]) = some node' → ∃ target, node' = .link target :=
      fun node' hnode' => h.reaches.link_of_not_exists hproper hsearch hfree hnode'
    refine ⟨hsingle, hproper, hother, hsearch, hwrite,
      ((mayReplace_iff hlink).mp hreplace).imp_right fun hfile m heq => ?_⟩
    exact hfile m (Option.some.inj (hnode.symm.trans heq))
  next =>
    split at habsent
    · exact absurd habsent hthere
    · exact absurd habsent hthere

/-! ## The running rootfs -/

/-- What `current` leads to has another name only where it is a link. -/
theorem Listed.current_link (h : Listed dirs fs base oldName)
    (hsearch : dirGrants fs base .search = true)
    (hcurr : oldName = dirs.currRootfs fs) :
    (∃ target, fs.get (base ++ [currentName]) = some (.link target)) ∧
      exists_ fs dirs.currDir = true := by
  have hproper : Proper currentName := by decide
  have hcanonical : canonical fs dirs.currDir ≠ base ++ [currentName] := by
    intro heq
    rw [AppDirs.currRootfs, heq, getName_concat] at hcurr
    exact h.notCurrent hcurr
  rw [currDir_eq] at hcanonical ⊢
  have hexists : exists_ fs (components dirs.rootfsAllDir ++ [currentName]) = true := by
    by_contra hnot
    refine hcanonical (canonical_of_parent hproper h.reaches.resolve ?_)
    rw [exists_, Bool.not_eq_true, Option.isSome_eq_false_iff, Option.isNone_iff_eq_none] at hnot
    exact hnot
  refine ⟨?_, hexists⟩
  have hclear : Clear fs (base ++ [currentName]) := h.reaches.clear.concat hproper hsearch
  cases hget : fs.get (base ++ [currentName]) with
  | none =>
    have hnone : resolve fs false (components dirs.rootfsAllDir ++ ([] ++ [currentName])) = none :=
      resolve_below_none h.reaches.resolve hclear hget
    rw [exists_, ← List.nil_append [currentName], hnone] at hexists
    cases hexists
  | some node =>
    by_contra hlink
    refine hcanonical
      (canonical_of_resolve
      (resolve_node_below h.reaches.resolve hclear false hget fun target heq => ?_))
    exact hlink ⟨target, congrArg some heq⟩

/-- A leading slash changes nothing. -/
theorem resolve_nil_cons (fs : FileSystem) (p : Path) :
    resolve fs false ([] :: p) = resolve fs false p := by
  have hroot : dirGrants fs [] .search = true := rfl
  obtain ⟨follow, heq⟩ := walk_eq fs false maxLinks
  rw [resolve, resolve, heq, heq, walkWith, if_pos hroot, if_pos (Or.inl rfl)]

/-- The directory after a rename in it. -/
theorem Reaches.moved (h : Reaches fs p base)
    (hmoved : Moved (base ++ [oldName]) (base ++ [name]) fs fs') :
    Reaches fs' p base ∧ ∀ a, dirGrants fs' base a = dirGrants fs base a :=
  ⟨h.congr fun x hx => hmoved.others x (hx oldName) (hx name),
    fun a => dirGrants_congr a (hmoved.others base (not_below base oldName) (not_below base name))⟩

/-- A moved tree is a renamed rootfs. -/
theorem Renamed.of_moved (hmoved : Moved (base ++ [oldName]) (base ++ [name]) fs fs') :
    Renamed fs fs' base oldName name where
  content rel := by
    rw [List.append_cons base name, List.append_cons base oldName]
    exact hmoved.there rel
  absent := by
    have hgone := hmoved.gone []
    rwa [List.append_nil] at hgone

/-- A new link elsewhere in the directory. -/
theorem Renamed.symlink {d : Disk} (h : Renamed fs d.fs base oldName name)
    (hreaches : Reaches d.fs p base)
    (realFile : Path) (hother : oldName ≠ currentName) (hname : name ≠ currentName) :
    Renamed fs (Files.symlink d realFile (p ++ [currentName])).fs base oldName name where
  content rel := by
    rw [symlink_get hreaches realFile currentName, h.content rel]
    intro heq
    have hhead := List.append_cancel_left heq
    exact hname (List.cons.inj hhead).1
  absent := by
    rw [symlink_get hreaches realFile currentName, h.absent]
    intro heq
    exact hother (List.singleton_inj.mp (List.append_cancel_left heq))

/-- `current` is linked to the rootfs with its new name. -/
theorem Listed.linksTo {d : Disk} (h : Listed dirs fs base oldName)
    (hcan : CanRename fs base oldName newName name)
    (hmoved : Moved (base ++ [oldName]) (base ++ [name]) fs d.fs) (hname : name ≠ currentName)
    {target : Text}
    (hlink : fs.get (base ++ [currentName]) = some (.link target)) :
    LinksTo (Files.symlink d (dirs.rootfsFile newName) dirs.currDir).fs (base ++ [currentName])
      (base ++ [name]) := by
  obtain ⟨hreaches, hgrants⟩ := h.reaches.moved hmoved
  have hlinkNow : d.fs.get (base ++ [currentName]) = some (.link target) := by
    rw [hmoved.others _ (not_below_siblings h.notCurrent) (not_below_siblings hname), hlink]
  have hfile := rootfsFile_single dirs hcan.single
  have hne : dirs.rootfsFile newName ≠ [] := by
    rw [hfile]
    exact List.append_ne_nil_of_right_ne_nil _ (List.cons_ne_nil name [])
  have hslash : ∀ c ∈ dirs.rootfsFile newName, '/' ∉ c := fun c => not_mem_of_mem_components
  rw [currDir_eq]
  refine ⟨absolutePath (dirs.rootfsFile newName), ?_, ?_⟩
  · exact symlink_link hreaches hne (by decide) ((hgrants .search).trans hcan.search)
      ((hgrants .write).trans hcan.write) hlinkNow
  · rw [head?_absolutePath hne, if_pos rfl, List.nil_append, targetPath_absolutePath hslash, hfile,
      ← List.cons_append]
    refine place_concat_iff.mpr ⟨hcan.proper, base, ?_, ?_, rfl⟩
    · rw [resolve_nil_cons]
      exact (hreaches.symlink _ currentName).resolve
    · refine (dirGrants_congr .search (symlink_get hreaches _ currentName ?_)).trans
        ((hgrants .search).trans hcan.search)
      intro heq
      exact not_below base currentName (heq ▸ List.prefix_refl base)

/-! ## The callback -/

section Callback

variable (digit : Char → Option Nat) (lines : List UInt8 → List Text) {s : RootfsSettings}

/-- A taken name is refused before anything is changed. -/
theorem onRootfsNameChange_taken (h : Taken dirs s.disk.fs newName) :
    s.onRootfsNameChange digit lines dirs oldName newName = (s, some .fileExists) := by
  have hedit : editRootfsName dirs s.disk oldName newName = ⟨s.disk, some .fileExists⟩ := if_pos h
  rw [RootfsSettings.onRootfsNameChange, RootfsSettings.onChangeRootfsName, hedit]

/-- A rename that is not refused throws nothing. -/
theorem onRootfsNameChange_free (h : ¬Taken dirs s.disk.fs newName) {renamed : Disk}
    (hrenamed : (rename s.disk (dirs.rootfsFile oldName) (dirs.rootfsFile newName)).getD s.disk =
      renamed) :
    (s.onRootfsNameChange digit lines dirs oldName newName).2 = none ∧
      (s.onRootfsNameChange digit lines dirs oldName newName).1.disk =
        if oldName = dirs.currRootfs s.disk.fs then Files.symlink renamed
          (dirs.rootfsFile newName) dirs.currDir
        else renamed := by
  have hedit : editRootfsName dirs s.disk oldName newName = ⟨renamed, none⟩ := hrenamed ▸ if_neg h
  rw [RootfsSettings.onRootfsNameChange, RootfsSettings.onChangeRootfsName, hedit]
  refine ⟨rfl, ?_⟩
  dsimp only
  by_cases hcurr : oldName = dirs.currRootfs s.disk.fs
  · rw [if_pos hcurr, if_pos hcurr]
    rfl
  · rw [if_neg hcurr, if_neg hcurr]
    rfl

/-- The rename is refused, or it can succeed, exactly where it is all or nothing. -/
theorem allOrNothing_iff (h : Listed dirs s.disk.fs base oldName) :
    AllOrNothing digit lines dirs base s oldName newName ↔
      Taken dirs s.disk.fs newName ∨ ∃ name, CanRename s.disk.fs base oldName newName name := by
  by_cases htaken : Taken dirs s.disk.fs newName
  · refine iff_of_true (Or.inl ?_) (Or.inl htaken)
    rw [onRootfsNameChange_taken digit lines htaken]
    exact ⟨Option.some_ne_none _, rfl⟩
  obtain ⟨hnone, hdisk⟩ := onRootfsNameChange_free digit lines htaken rfl
  have hfree : ¬exists_ s.disk.fs (dirs.rootfsFile newName) = true :=
    fun hexists => htaken (Or.inr hexists)
  constructor
  · rintro (⟨hthrown, -⟩ | ⟨-, name, hsingle, hproper, hrenamed, -⟩)
    · exact absurd hnone hthrown
    · refine Or.inr ⟨name, h.canRename hsingle hproper hfree ?_⟩
      have habsent := hrenamed.absent
      rw [hdisk] at habsent
      split at habsent
      · rw [currDir_eq, symlink_get (h.reaches_rename hsingle hproper) _ currentName] at habsent
        · exact habsent
        · intro heq
          exact h.notCurrent (List.singleton_inj.mp (List.append_cancel_left heq))
      · exact habsent
  · rintro (htaken' | ⟨name, hcan⟩)
    · exact absurd htaken' htaken
    · refine Or.inr ⟨hnone, name, hcan.single, hcan.proper, ?_⟩
      obtain ⟨d', hrename, hmoved⟩ := h.renamed hcan hfree
      rw [hdisk, hrename, Option.getD_some]
      by_cases hcurr : oldName = dirs.currRootfs s.disk.fs
      · obtain ⟨⟨target, hlink⟩, hexists⟩ := h.current_link hcan.search hcurr
        have hname : name ≠ currentName := by
          rintro rfl
          rw [rootfsFile_single dirs hcan.single, ← currDir_eq] at hfree
          exact hfree hexists
        rw [if_pos hcurr]
        refine ⟨?_, fun _ => h.linksTo hcan hmoved hname hlink⟩
        rw [currDir_eq]
        exact (Renamed.of_moved hmoved).symlink (h.reaches.moved hmoved).1 _ h.notCurrent hname
      · rw [if_neg hcurr]
        exact ⟨.of_moved hmoved, fun heq => absurd heq hcurr⟩

end Callback

/-! ## A running rootfs -/

/-- A path along directories is the location. -/
theorem reaches_of_clear {m : Mode} (hclear : Clear fs base) (hdir : fs.get base = some (.dir m)) :
    Reaches fs base base := by
  intro fs' hsame
  have hshort : ∀ x, x.length ≤ base.length → fs'.get x = fs.get x := by
    intro x hx
    refine hsame x fun c hle => ?_
    have hlength := hle.length_le
    rw [List.length_append, List.length_singleton] at hlength
    omega
  have hclear' : Clear fs' base := hclear.of_shorter fun x hx => hshort x (Nat.le_of_lt hx)
  have hdir' : fs'.get base = some (.dir m) := (hshort base (Nat.le_refl _)).trans hdir
  have hnil : resolve fs' false [] = some [] := walk_nil fs' false maxLinks []
  have hthere : fs'.get base ≠ none := by
    rw [hdir']
    exact nofun
  have hresolve : resolve fs' false ([] ++ base) = some ([] ++ base) :=
    resolve_below hnil hclear' false (fun target heq => nomatch hdir'.symm.trans heq) (.inl hthere)
  exact hresolve

/-- The location of `rootfsAllDir`. -/
def allRootfs : Loc := components AppDirs.primary.rootfsAllDir

def debianName : Name := "debian".toList

/-- A device with one rootfs, which `current` is linked to. -/
def runningDebian : FileSystem where
  entries :=
    (allRootfs.inits.drop 1).map (·, Node.dir 0o700)
      ++ [(allRootfs ++ [currentName], .link (absolutePath (allRootfs ++ [debianName]))),
        (allRootfs ++ [debianName], .dir 0o700),
        (allRootfs ++ [debianName, "etc".toList], .dir 0o755)]
  nodup := by decide +kernel

def debianSettings : RootfsSettings :=
  ⟨⟨runningDebian, []⟩, debianName, ⟨fun _ => none, fun _ => none, fun _ => none⟩⟩

theorem clear_of_all
    (h : ∀ k < base.length, Proper (base.getD k []) ∧ dirGrants fs (base.take k) .search = true) :
    Clear fs base := by
  intro q c hle
  obtain ⟨rest, rfl⟩ := hle
  have hk := h q.length (by simp)
  rw [List.append_assoc, List.take_left] at hk
  simpa [List.getD_eq_getElem?_getD, List.getElem?_append_right] using hk

theorem listed_debian : Listed .primary debianSettings.disk.fs allRootfs debianName where
  closed := closed_of_wellPlaced (by decide +kernel)
  reaches := by
    have hdir : runningDebian.get allRootfs = some (.dir 0o700) := by decide +kernel
    exact reaches_of_clear (clear_of_all (by decide +kernel)) hdir
  there := by decide +kernel
  notCurrent := by decide

/-- The running rootfs gets another name. -/
theorem allOrNothing_bookworm :
    AllOrNothing asciiDigit (fun _ => []) .primary allRootfs debianSettings debianName
      "bookworm".toList := by
  refine (allOrNothing_iff asciiDigit (fun _ => []) listed_debian).mpr
    (Or.inr ⟨"bookworm".toList, ?_⟩)
  exact ⟨by decide +kernel, by decide, by decide, by decide +kernel, by decide +kernel,
    Or.inl (by decide +kernel)⟩

/-- A name with a slash leads into a directory that is not there: nothing is renamed, nothing is
thrown. -/
theorem not_allOrNothing_slash :
    ¬AllOrNothing asciiDigit (fun _ => []) .primary allRootfs debianSettings debianName
      "debian-12/slim".toList := by
  have hfree : ¬Taken .primary debianSettings.disk.fs "debian-12/slim".toList := by
    rintro (h | h)
    · exact absurd h (by decide)
    · exact absurd h (by decide +kernel)
  rintro (⟨hthrown, -⟩ | ⟨-, name, hsingle, -⟩)
  · exact hthrown (onRootfsNameChange_free asciiDigit (fun _ => []) hfree rfl).1
  · have hlength : (components "debian-12/slim".toList).length = 2 := by decide +kernel
    rw [hsingle] at hlength
    cases hlength

end WinEmulator.App
