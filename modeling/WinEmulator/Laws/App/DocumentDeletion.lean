import WinEmulator.App.DocumentFiles
import WinEmulator.Lib.LinkedDir
import WinEmulator.Lib.Subtree

/-!
# What deleting a document deletes

`isDirectory` and `listFiles` follow links, and only the test for a link keeps the deletion from
going through one. So a file that it goes into stands where its path says, what it finds there
stands below, and the deletion goes down the tree of what is really there, which is finite.
-/

set_option autoImplicit false

namespace WinEmulator.App

open WinEmulator.Lib WinEmulator.Lib.Fs WinEmulator.Lib.JavaFile

variable {fs fs' : FileSystem} {file : Path} {l : Loc} {c : Name}

/-! ## Files and their paths -/

/-- Nothing but the one location is at the path. -/
def LeadsTo (fs : FileSystem) (file : Path) (l : Loc) : Prop := ∀ x, fileAt fs file = some x → x = l

theorem fileAt_concat (hc : Proper c) (file : Path) :
    fileAt fs (file ++ [c]) = place fs (file ++ [c]) := by
  unfold fileAt
  rw [getName_concat, if_neg]
  rintro (h | h | h)
  · exact hc.1 h
  · exact hc.2.1 h
  · exact hc.2.2 h

theorem fileAt_of_place (h : place fs file = some l) : fileAt fs file = some l := by
  obtain ⟨q, c, rfl⟩ := ne_nil_of_place h
  rw [fileAt_concat (place_concat_iff.mp h).1, h]

/-- Where a path leads to does not change with removals. -/
theorem LeadsTo.shrinks (h : LeadsTo fs file l) (hshrinks : Shrinks fs fs') :
    LeadsTo fs' file l := by
  intro x hx
  refine h x ?_
  unfold fileAt at hx ⊢
  split at hx
  next hname => rw [if_pos hname, hshrinks.grows.resolve hx]
  next hname => rw [if_neg hname, hshrinks.grows.place hx]

/-- What is no link is where following links leads. -/
theorem LeadsTo.resolve {x : Loc} (h : LeadsTo fs file l) (hlink : ¬ isSymbolicLink fs file = true)
    (hx : resolve fs false file = some x) : x = l := by
  cases file using List.reverseRecOn with
  | nil => exact h x hx
  | append_singleton file c =>
    by_cases hc : Proper c
    · obtain ⟨x', hplace, -, rfl | ⟨target, htarget⟩⟩ := place_of_resolve hc hx
      · exact h x' (fileAt_of_place hplace)
      · refine absurd ?_ hlink
        rw [isSymbolicLink, hplace, Option.bind_some, htarget]
    · refine h x ?_
      rw [fileAt, getName_concat, if_pos, hx]
      by_contra hnot
      simp only [not_or] at hnot
      exact hc hnot

/-- What is in a directory is found below it. -/
theorem LeadsTo.child (h : LeadsTo fs file l) (hlink : ¬ isSymbolicLink fs file = true)
    (hc : Proper c) :
    LeadsTo fs (file ++ [c]) (l ++ [c]) := by
  intro x hx
  rw [fileAt_concat hc] at hx
  obtain ⟨-, parent, hparent, -, rfl⟩ := place_concat_iff.mp hx
  rw [h.resolve hlink hparent]

namespace MTDataFilesProvider

variable {d d' : Disk}

/-! ## When files can be deleted -/

/-- All but what stands below a location is as it was. -/
def SameAround (fs : FileSystem) (l : Loc) (fs' : FileSystem) : Prop :=
  ∀ l', (l <+: l' → l' = l) → fs'.get l' = fs.get l'

/-- Whatever the system has removed below the location, the path is still that of the location: it
does not go through the tree itself. -/
def Steady (fs : FileSystem) (file : Path) (l : Loc) : Prop :=
  ∀ fs', Shrinks fs fs' → SameAround fs l fs' → place fs' file = some l

/-- What has to be so for a tree to be deleted file by file: the file is there, its path stays its
path, its directory lets it go, and every directory of the tree that has something in it can be
listed and emptied. -/
structure Deletable (fs : FileSystem) (file : Path) (l : Loc) : Prop where
  there : fs.get l ≠ none
  steady : Steady fs file l
  writable : dirGrants fs l.dropLast .write = true
  empties : ∀ l' m, l <+: l' → fs.get l' = some (.dir m) →
    children fs l' = [] ∨ grants m .read = true ∧ grants m .write = true ∧ grants m .search = true

/-- The system refuses no `file.delete()` in the tree. -/
def NotRefused (refuses : Disk → Path → Bool) (fs : FileSystem) (file : Path) (l : Loc) : Prop :=
  ∀ q, fs.get (l ++ q) ≠ none → ∀ d, refuses d (file ++ q) = false

/-- There is a file in the tree that the system never lets go. -/
def Refused (refuses : Disk → Path → Bool) (fs : FileSystem) (file : Path) (l : Loc) : Prop :=
  ∃ q, fs.get (l ++ q) ≠ none ∧ ∀ d, refuses d (file ++ q) = true

/-- The root is the place of no path. -/
theorem ne_nil_of_place_eq (h : place fs file = some l) : l ≠ [] := by
  obtain ⟨q, c, rfl⟩ := ne_nil_of_place h
  obtain ⟨-, parent, -, -, rfl⟩ := place_concat_iff.mp h
  exact List.append_ne_nil_of_right_ne_nil parent (List.cons_ne_nil c [])

theorem SameAround.refl (fs : FileSystem) (l : Loc) : SameAround fs l fs := fun _ _ => rfl

theorem SameAround.trans {fs'' : FileSystem} (h : SameAround fs l fs')
    (h' : SameAround fs' l fs'') :
    SameAround fs l fs'' := fun l' hl' => (h' l' hl').trans (h l' hl')

/-- What happens at a child or below leaves the rest as it was. -/
theorem sameAround_of_child (h : Within (l ++ [c]) d d') : SameAround d.fs l d'.fs := by
  refine fun l' hl' => h.outside l' fun hle => ?_
  obtain rfl := hl' ((List.prefix_append l [c]).trans hle)
  exact not_prefix_parent l' c hle

/-- Of a directory that is searched the way to its children is steady. -/
theorem Steady.child {m : Mode} (h : Steady fs file l) (hdir : fs.get l = some (.dir m))
    (hsearch : grants m .search = true)
    (hc : Proper c) (hshrinks : Shrinks fs fs') (haround : SameAround fs l fs') :
    Steady fs' (file ++ [c]) (l ++ [c]) := by
  intro fs'' hshrinks' haround'
  have hsame : SameAround fs l fs'' := by
    intro l' hl'
    rw [haround' l' fun hle => ?_, haround l' hl']
    obtain rfl := hl' ((List.prefix_append l [c]).trans hle)
    exact absurd hle (not_prefix_parent l' c)
  have hplace := h fs'' (hshrinks.trans hshrinks') hsame
  have hget : fs''.get l = some (.dir m) := (hsame l fun _ => rfl).trans hdir
  refine place_concat_iff.mpr ⟨hc, l, resolve_of_place_dir hplace hget, ?_, rfl⟩
  rw [dirGrants, node_of_ne_nil (ne_nil_of_place_eq hplace), hget]
  exact hsearch

/-- Whether a directory can be emptied depends on what is below it alone. -/
theorem empties_congr {m : Mode} (h : ∀ l', l <+: l' → fs'.get l' = fs.get l') {l' : Loc}
    (hle : l <+: l')
    (hdir : fs'.get l' = some (.dir m)) (hempties : ∀ m, fs.get l' = some (.dir m) →
      children fs l' = [] ∨ grants m .read = true ∧ grants m .write = true ∧
        grants m .search = true) :
    children fs' l' = [] ∨ grants m .read = true ∧ grants m .write = true ∧
      grants m .search = true := by
  refine (hempties m ((h l' hle).symm.trans hdir)).imp_left fun hnil => ?_
  rw [children_eq_nil_iff] at hnil ⊢
  exact fun c => (h _ (hle.trans (List.prefix_append l' [c]))).trans (hnil c)

/-! ## One deletion -/

/-- What a deletion has done: nothing but removals, all of them at the location or below; and
everything there is gone if it returns `true`, which it does if every `file.delete()` did, and that
is so just if the tree can be deleted. -/
structure Deletes (refuses : Disk → Path → Bool) (file : Path) (l : Loc) (d : Disk) (r : Deletion) :
    Prop where
  within : Within l d r.disk
  shrinks : Shrinks d.fs r.disk.fs
  closed : Closed r.disk.fs
  gone : r.returned = true → Removed l d.fs r.disk.fs
  returned : r.returned = r.deletes.all id
  succeeds : Deletable d.fs file l → NotRefused refuses d.fs file l → r.returned = true
  needs : r.returned = true → Deletable d.fs file l ∧ ¬ Refused refuses d.fs file l

/-- What has been done when it is the file's own turn: only things below it are gone, and if it is a
directory and now empty, the tree below it could be deleted. -/
structure Ready (refuses : Disk → Path → Bool) (file : Path) (l : Loc) (d : Disk)
    (below : Deletion) : Prop where
  within : Within l d below.disk
  around : SameAround d.fs l below.disk.fs
  shrinks : Shrinks d.fs below.disk.fs
  closed : Closed below.disk.fs
  returned : below.deletes.all id = true
  empty : Deletable d.fs file l → ∀ m, d.fs.get l = some (.dir m) → children below.disk.fs l = []
  needs : l ≠ [] → (∀ m, d.fs.get l = some (.dir m) → children below.disk.fs l = []) →
    (∀ l' m, l <+: l' → d.fs.get l' = some (.dir m) →
      children d.fs l' = [] ∨ grants m .read = true ∧ grants m .write = true ∧
        grants m .search = true) ∧
    ∀ q, q ≠ [] → d.fs.get (l ++ q) ≠ none → ∃ d', refuses d' (file ++ q) = false

/-- What is removed was there, in a directory that can be written. -/
theorem granted_of_effect {q : Path} (he : removeEffect fs q = some (l, none)) :
    l ≠ [] ∧ fs.get l ≠ none ∧ dirGrants fs l.dropLast .write = true := by
  obtain ⟨x, hx, heq⟩ := remove_of_effect he
  obtain rfl : l = x := congrArg Prod.fst heq
  rw [removeEffect, hx, Option.bind_some] at he
  cases hget : fs.get l with
  | none =>
    rw [hget] at he
    cases he
  | some n =>
    rw [hget] at he
    refine ⟨ne_nil_of_place_eq hx, Option.some_ne_none n, ?_⟩
    cases n with
    | dir m =>
      by_contra hnot
      exact absurd (he.symm.trans (if_neg fun hboth => hnot hboth.2)) (Option.some_ne_none _)
    | file content m =>
      by_contra hnot
      exact absurd (he.symm.trans (if_neg hnot)) (Option.some_ne_none _)
    | link target =>
      by_contra hnot
      exact absurd (he.symm.trans (if_neg hnot)) (Option.some_ne_none _)

/-- A deletable file whose directory is empty by now is removed. -/
theorem removeEffect_of_deletable {fs₀ : FileSystem} (h : Deletable fs₀ file l)
    (hshrinks : Shrinks fs₀ fs)
    (haround : SameAround fs₀ l fs) (hempty : ∀ m, fs₀.get l = some (.dir m) → children fs l = []) :
    removeEffect fs file = some (l, none) := by
  have hplace := h.steady fs hshrinks haround
  have hwritable : dirGrants fs l.dropLast .write = true := by
    have hsame : fs.get l.dropLast = fs₀.get l.dropLast := haround _ fun hle =>
      (List.dropLast_prefix l).eq_of_length_le hle.length_le
    rw [dirGrants_congr _ hsame]
    exact h.writable
  have hget : fs.get l = fs₀.get l := haround l fun _ => rfl
  obtain ⟨n, hn⟩ := Option.ne_none_iff_exists'.mp h.there
  rw [removeEffect, hplace, Option.bind_some, hget, hn]
  cases n with
  | dir m => exact if_pos ⟨hempty m hn, hwritable⟩
  | file content m => exact if_pos hwritable
  | link target => exact if_pos hwritable

/-- `file.delete()` after the rest. -/
theorem Ready.last {refuses : Disk → Path → Bool} {below : Deletion}
    (h : Ready refuses file l d below)
    (hat : LeadsTo d.fs file l) :
    Deletes refuses file l d
      ⟨(deleteFile refuses below.disk file).1, (deleteFile refuses below.disk file).2,
        below.deletes ++ [(deleteFile refuses below.disk file).2]⟩ := by
  have hreturned : ∀ b : Bool, b = (below.deletes ++ [b]).all id := by
    intro b
    rw [List.all_append, h.returned]
    simp
  unfold deleteFile
  cases he : if refuses below.disk file then none else removeEffect below.disk.fs file with
  | none =>
    refine ⟨h.within, h.shrinks, h.closed, nofun, hreturned false, fun hdeletable hnotRefused =>
      ?_, nofun⟩
    have hallowed : ¬ refuses below.disk file = true := by
      have := hnotRefused [] (by rw [List.append_nil]; exact hdeletable.there) below.disk
      rw [List.append_nil] at this
      rw [this]
      exact Bool.false_ne_true
    rw [if_neg hallowed,
      removeEffect_of_deletable hdeletable h.shrinks h.around (h.empty hdeletable)] at he
    cases he
  | some e =>
    split at he
    case isTrue => cases he
    case isFalse hallowed =>
      obtain ⟨x, hx, rfl⟩ := remove_of_effect he
      obtain rfl := hat.shrinks h.shrinks x (fileAt_of_place hx)
      have hremoved := removed_of_effect h.closed he
      refine ⟨h.within.trans (within_apply _ (List.prefix_refl x)),
        h.shrinks.trans (shrinks_apply _ x),
        closed_of_removed h.closed hremoved, fun _ => removed_of_within h.within hremoved,
          hreturned true,
        fun _ _ => rfl, fun _ => ?_⟩
      have hget : below.disk.fs.get x = d.fs.get x := h.around x fun _ => rfl
      obtain ⟨hroot, hthere, hwritable⟩ := granted_of_effect he
      obtain ⟨hempties, hbelow⟩ := h.needs hroot fun m hdir => empty_of_effect he (hget.trans hdir)
      refine ⟨⟨hget ▸ hthere, fun fs' hshrinks haround => ?_, h.shrinks.grows.dirGrants hwritable,
        hempties⟩, ?_⟩
      · -- nothing is left below, so whatever else is as it was is all that the path needs
        refine Grows.place (fun l' hl' => ?_) hx
        by_cases hle : x <+: l'
        · by_cases heq : x = l'
          · obtain rfl := heq
            rw [hget, haround x fun _ => rfl]
          · have hnone := hremoved l'
            rw [get_apply_none, if_neg (Ne.symm heq), if_pos hle] at hnone
            exact absurd hnone hl'
        · rw [haround l' fun hle' => absurd hle' hle, h.around l' fun hle' => absurd hle' hle]
      · rintro ⟨q, hq, hrefused⟩
        by_cases hnil : q = []
        · subst hnil
          rw [List.append_nil] at hrefused
          exact hallowed (hrefused below.disk)
        · obtain ⟨d', hd'⟩ := hbelow q hnil hq
          rw [hrefused d'] at hd'
          cases hd'

/-! ## The loop over the files of a directory -/

/-- While the files of a directory are deleted: the tree of a child that is still to come is as it
was. -/
structure Before (l : Loc) (c : Name) (d d' : Disk) : Prop where
  closed : Closed d'.fs
  shrinks : Shrinks d.fs d'.fs
  around : SameAround d.fs l d'.fs
  tree : ∀ l', l ++ [c] <+: l' → d'.fs.get l' = d.fs.get l'

theorem Before.refl (closed : Closed d.fs) : Before l c d d :=
  ⟨closed, .refl d.fs, .refl d.fs l, fun _ _ => rfl⟩

theorem Before.trans {d'' : Disk} (h : Before l c d d') (h' : Before l c d' d'') :
    Before l c d d'' :=
  ⟨h'.closed, h.shrinks.trans h'.shrinks, h.around.trans h'.around,
    fun l' hl' => (h'.tree l' hl').trans (h.tree l' hl')⟩

/-- What the deletion of one child leaves is before the deletion of the next. -/
theorem Deletes.before {refuses : Disk → Path → Bool} {r : Deletion} {c' : Name}
    (h : Deletes refuses (file ++ [c]) (l ++ [c]) d r) (hne : c ≠ c') : Before l c' d r.disk :=
  ⟨h.closed, h.shrinks, sameAround_of_child h.within,
    fun l' hl' => h.within.outside l' (not_prefix_sibling hne hl')⟩

/-- What the loop has done. -/
structure Empties (refuses : Disk → Path → Bool) (file : Path) (l : Loc) (d : Disk)
    (names : List Name) (r : Deletion) :
    Prop where
  within : Within l d r.disk
  around : SameAround d.fs l r.disk.fs
  shrinks : Shrinks d.fs r.disk.fs
  closed : Closed r.disk.fs
  returned : r.returned = r.deletes.all id
  gone : r.returned = true → ∀ c ∈ names, r.disk.fs.get (l ++ [c]) = none
  succeeds : (∀ c ∈ names, ∀ d', Before l c d d' →
      Deletable d'.fs (file ++ [c]) (l ++ [c]) ∧
        NotRefused refuses d'.fs (file ++ [c]) (l ++ [c])) → r.returned = true
  needs : r.returned = true → ∀ c ∈ names, ∃ d', Before l c d d' ∧
    Deletable d'.fs (file ++ [c]) (l ++ [c]) ∧
    ¬ Refused refuses d'.fs (file ++ [c]) (l ++ [c])

section Loop

variable {refuses : Disk → Path → Bool} {delete delete' : Disk → Path → Deletion}
  {names : List Name}

/-- What the loop does if each turn deletes one of the children. -/
theorem deleteSubFiles_spec (file : Path) (hnodup : names.Nodup) (hd : Closed d.fs)
    (h : ∀ c ∈ names, ∀ d', Before l c d d' →
      Deletes refuses (file ++ [c]) (l ++ [c]) d' (delete d' (file ++ [c])) ∧
        delete' d' (file ++ [c]) = delete d' (file ++ [c])) :
    let r := deleteSubFiles delete d (names.map fun name => file ++ [name])
    Empties refuses file l d names r ∧
        deleteSubFiles delete' d (names.map fun name => file ++ [name]) = r := by
  induction names generalizing d with
  | nil => exact ⟨⟨.refl l d, .refl d.fs l, .refl d.fs, hd, rfl, nofun, fun _ => rfl, nofun⟩, rfl⟩
  | cons c names ih =>
    obtain ⟨hnot, hrest⟩ := List.nodup_cons.mp hnodup
    obtain ⟨hfirst, hsame⟩ := h c List.mem_cons_self d (.refl hd)
    have hin : Within l d (delete d (file ++ [c])).disk :=
      hfirst.within.mono (List.prefix_append l [c])
    have hbefore : ∀ c' ∈ names, Before l c' d (delete d (file ++ [c])).disk := fun c' hc' =>
      hfirst.before fun heq => hnot (heq ▸ hc')
    rw [List.map_cons, deleteSubFiles, deleteSubFiles, hsame]
    dsimp only
    split
    case isTrue hreturned =>
      obtain ⟨hloop, heq⟩ := ih hrest hfirst.closed fun c' hc' d' hd' =>
        h c' (List.mem_cons_of_mem c hc') d' ((hbefore c' hc').trans hd')
      refine ⟨⟨hin.trans hloop.within, (sameAround_of_child hfirst.within).trans hloop.around,
        hfirst.shrinks.trans hloop.shrinks, hloop.closed, ?_, fun hr => ?_, fun hall => ?_,
          fun hr => ?_⟩, by rw [heq]⟩
      · rw [List.all_append, ← hfirst.returned, hreturned, Bool.true_and]
        exact hloop.returned
      · refine List.forall_mem_cons.mpr ⟨?_, hloop.gone hr⟩
        have hremoved := hfirst.gone hreturned (l ++ [c])
        rw [if_pos (List.prefix_refl _)] at hremoved
        obtain hkept | hnone := hloop.shrinks (l ++ [c])
        · exact hkept.trans hremoved
        · exact hnone
      · exact hloop.succeeds fun c' hc' d' hd' =>
          hall c' (List.mem_cons_of_mem c hc') d' ((hbefore c' hc').trans hd')
      · refine List.forall_mem_cons.mpr ⟨⟨d, .refl hd, hfirst.needs hreturned⟩, fun c' hc' => ?_⟩
        obtain ⟨d', hd', hneeds⟩ := hloop.needs hr c' hc'
        exact ⟨d', (hbefore c' hc').trans hd', hneeds⟩
    case isFalse hreturned =>
      refine ⟨⟨hin, sameAround_of_child hfirst.within, hfirst.shrinks, hfirst.closed,
        hfirst.returned,
        fun hr => absurd hr hreturned, fun hall => ?_, fun hr => absurd hr hreturned⟩, rfl⟩
      obtain ⟨hdeletable, hnotRefused⟩ := hall c List.mem_cons_self d (.refl hd)
      exact hfirst.succeeds hdeletable hnotRefused

end Loop

/-! ## The whole deletion -/

/-- Nothing is deeper below the location. -/
def DepthAtMost (fs : FileSystem) (l : Loc) (n : Nat) : Prop :=
  ∀ l', l <+: l' → fs.get l' ≠ none → l'.length ≤ l.length + n

/-- The children of a directory are less deep than the directory. -/
theorem DepthAtMost.child {n : Nat} (h : DepthAtMost fs l (n + 1)) (hshrinks : Shrinks fs fs')
    (c : Name) :
    DepthAtMost fs' (l ++ [c]) n := by
  intro l' hle hthere
  have hlength := h l' ((List.prefix_append l [c]).trans hle) (hshrinks.grows l' hthere ▸ hthere)
  rw [List.length_append, List.length_singleton]
  omega

/-- What the tree of a directory needs, the trees of its children need when their turn comes. -/
theorem Deletable.child {m : Mode} (h : Deletable d.fs file l) (hd : Closed d.fs)
    (hdir : d.fs.get l = some (.dir m))
    (hc : c ∈ children d.fs l) (hbefore : Before l c d d') :
    Deletable d'.fs (file ++ [c]) (l ++ [c]) := by
  have hgrants : grants m .read = true ∧ grants m .write = true ∧ grants m .search = true :=
    (h.empties l m (List.prefix_refl l) hdir).resolve_left (List.ne_nil_of_mem hc)
  have hget : d'.fs.get l = some (.dir m) := (hbefore.around l fun _ => rfl).trans hdir
  have hnonempty : l ≠ [] := by
    rintro rfl
    rw [hd.root] at hdir
    cases hdir
  refine ⟨?_, h.steady.child hdir hgrants.2.2 (proper_of_mem_children hd hc) hbefore.shrinks
    hbefore.around, ?_, ?_⟩
  · rw [hbefore.tree _ (List.prefix_refl _)]
    exact mem_children.mp hc
  · rw [List.dropLast_concat, dirGrants, node_of_ne_nil hnonempty, hget]
    exact hgrants.2.1
  · intro l' m' hle hdir'
    exact empties_congr hbefore.tree hle hdir' fun m' =>
      h.empties l' m' ((List.prefix_append l [c]).trans hle)

/-- A directory that can be deleted and has something in it is gone into. -/
theorem Deletable.descends {m : Mode} (h : Deletable d.fs file l)
    (hdir : d.fs.get l = some (.dir m))
    (hne : children d.fs l ≠ []) : list d.fs file = some (children d.fs l) ∧
      (isDirectory d.fs file && !isSymbolicLink d.fs file) = true := by
  have hplace := h.steady d.fs (.refl _) (.refl _ _)
  have hresolve := resolve_of_place_dir hplace hdir
  have hread := ((h.empties l m (List.prefix_refl l) hdir).resolve_left hne).1
  have hnode : node d.fs l = some (.dir m) :=
    (node_of_ne_nil (ne_nil_of_place_eq hplace)).trans hdir
  refine ⟨?_, ?_⟩
  · rw [list, hresolve, Option.bind_some, dirGrants, hnode]
    exact if_pos hread
  · rw [isDirectory, hresolve, Option.any_some, hnode, Option.any_some, isSymbolicLink, hplace,
      Option.bind_some, hdir]
    rfl

/-- Below a directory without anything in it, or what is no directory, there is nothing. -/
theorem nothing_below (hd : Closed fs) (hroot : l ≠ [])
    (hempty : ∀ m, fs.get l = some (.dir m) → children fs l = [])
    {q : List Name} (hq : q ≠ []) : fs.get (l ++ q) = none := by
  cases q with
  | nil => exact absurd rfl hq
  | cons c rest =>
    by_contra hthere
    have hchild := hd.child_above hthere
    obtain ⟨m, hm⟩ := hd.parents l c hchild
    rw [node_of_ne_nil hroot] at hm
    have hc := mem_children.mpr hchild
    rw [hempty m hm] at hc
    cases hc

/-- A file that is not gone into: no directory, a link, or a directory without anything in it that
could be listed. -/
theorem ready_alone (refuses : Disk → Path → Bool) (hd : Closed d.fs)
    (hempty : Deletable d.fs file l → ∀ m, d.fs.get l = some (.dir m) → children d.fs l = []) :
    Ready refuses file l d ⟨d, true, []⟩ := by
  refine ⟨.refl l d, .refl d.fs l, .refl d.fs, hd, rfl, hempty,
    fun hroot hnone => ⟨?_, fun q hq hthere => ?_⟩⟩
  · rintro l' m ⟨q, rfl⟩ hdir
    by_cases hq : q = []
    · subst hq
      rw [List.append_nil] at hdir ⊢
      exact .inl (hnone m hdir)
    · rw [nothing_below hd hroot hnone hq] at hdir
      cases hdir
  · exact absurd (nothing_below hd hroot hnone hq) hthere

/-- A directory that has been gone into, and all of whose files are gone. -/
theorem Empties.ready {refuses : Disk → Path → Bool} {r : Deletion} (hd : Closed d.fs)
    (h : Empties refuses file l d (children d.fs l) r) (hreturned : r.returned = true)
    (hread : dirGrants d.fs l .read = true) : Ready refuses file l d r := by
  have hempty : children r.disk.fs l = [] := by
    rw [children_eq_nil_iff]
    intro c
    by_contra hthere
    have hc : c ∈ children d.fs l := mem_children.mpr (h.shrinks.grows _ hthere ▸ hthere)
    exact hthere (h.gone hreturned c hc)
  have hchild : ∀ c rest, d.fs.get (l ++ c :: rest) ≠ none → ∃ d', Before l c d d' ∧
      Deletable d'.fs (file ++ [c]) (l ++ [c]) ∧
          ¬ Refused refuses d'.fs (file ++ [c]) (l ++ [c]) := fun c rest hthere =>
    h.needs hreturned c (mem_children.mpr (hd.child_above hthere))
  refine ⟨h.within, h.around, h.shrinks, h.closed, h.returned ▸ hreturned, fun _ _ _ => hempty,
    fun hroot _ => ⟨?_, ?_⟩⟩
  · obtain ⟨m, hdir, hlists⟩ := get_of_dirGrants hroot hread
    rintro l' m' ⟨q, rfl⟩ hdir'
    cases q with
    | nil =>
      rw [List.append_nil] at hdir' ⊢
      rw [hdir] at hdir'
      cases hdir'
      cases hcs : children d.fs l with
      | nil => exact .inl rfl
      | cons c cs =>
        -- that the child could be deleted says that this directory can be searched and written
        obtain ⟨d', hbefore, hdeletable, -⟩ := h.needs hreturned c (hcs ▸ List.mem_cons_self)
        have hget : d'.fs.get l = some (.dir m) := (hbefore.around l fun _ => rfl).trans hdir
        have hwrite := hdeletable.writable
        obtain ⟨-, parent, -, hsearch, heq⟩ :=
          place_concat_iff.mp (hdeletable.steady d'.fs (.refl _) (.refl _ _))
        obtain ⟨rfl, -⟩ := List.append_inj' heq rfl
        rw [List.dropLast_concat, dirGrants, node_of_ne_nil hroot, hget] at hwrite
        rw [dirGrants, node_of_ne_nil hroot, hget] at hsearch
        exact .inr ⟨hlists, hwrite, hsearch⟩
    | cons c rest =>
      obtain ⟨d', hbefore, hdeletable, -⟩ :=
        hchild c rest (by rw [hdir']; exact Option.some_ne_none _)
      have hle : l ++ [c] <+: l ++ c :: rest := ⟨rest, by simp⟩
      exact empties_congr (fun l' hl' => (hbefore.tree l' hl').symm) hle hdir' fun m' =>
        hdeletable.empties _ m' hle
  · intro q hq hthere
    cases q with
    | nil => exact absurd rfl hq
    | cons c rest =>
      obtain ⟨d', hbefore, -, hnotRefused⟩ := hchild c rest hthere
      by_contra hall
      refine hnotRefused ⟨rest, ?_, fun d'' => ?_⟩
      · rw [hbefore.tree _ (List.prefix_append _ rest), List.append_assoc]
        exact hthere
      · rw [List.append_assoc]
        exact Bool.not_eq_false _ ▸ fun hfalse => hall ⟨d'', hfalse⟩

/-- One level: the files of the directory are those of the location, as no link is gone through. -/
theorem delete_level (refuses : Disk → Path → Bool) (n m : Nat) (hd : Closed d.fs)
    (hat : LeadsTo d.fs file l)
    (h : ∀ c ∈ children d.fs l, ∀ d', Before l c d d' → LeadsTo d'.fs (file ++ [c]) (l ++ [c]) →
      Deletes refuses (file ++ [c]) (l ++ [c]) d'
        (a_deleteFileOrDirectory refuses n d' (file ++ [c])) ∧
        a_deleteFileOrDirectory refuses m d' (file ++ [c]) = a_deleteFileOrDirectory refuses n d'
          (file ++ [c])) :
    Deletes refuses file l d (a_deleteFileOrDirectory refuses (n + 1) d file) ∧
      a_deleteFileOrDirectory refuses (m + 1) d file = a_deleteFileOrDirectory refuses
        (n + 1) d file := by
  -- what is not gone into is deleted at once
  have halone : ¬ (list d.fs file = some (children d.fs l) ∧
      (isDirectory d.fs file && !isSymbolicLink d.fs file) = true) →
      Deletes refuses file l d
        ⟨(deleteFile refuses d file).1, (deleteFile refuses d file).2,
            [(deleteFile refuses d file).2]⟩ := fun hnot =>
    Ready.last (ready_alone refuses hd fun hdeletable m hdir => by_contra fun hne =>
      hnot (hdeletable.descends hdir hne)) hat
  rw [a_deleteFileOrDirectory, a_deleteFileOrDirectory]
  cases hnames : list d.fs file with
  | none => exact ⟨halone fun hdescends => absurd (hnames.symm.trans hdescends.1) nofun, rfl⟩
  | some names =>
    by_cases hdescends : (isDirectory d.fs file && !isSymbolicLink d.fs file) = true
    · have hlink : ¬ isSymbolicLink d.fs file = true := by
        intro hlink
        rw [hlink, Bool.not_true, Bool.and_false] at hdescends
        cases hdescends
      obtain ⟨x, hx, hread⟩ := Option.bind_eq_some_iff.mp hnames
      split at hread
      case isFalse => cases hread
      case isTrue hlists =>
        obtain rfl := hat.resolve hlink hx
        obtain rfl := Option.some.inj hread
        obtain ⟨hloop, hsame⟩ :=
            deleteSubFiles_spec file (nodup_children d.fs x) hd fun c hc d' hd' =>
          h c hc d' hd' ((hat.child hlink (proper_of_mem_children hd hc)).shrinks hd'.shrinks)
        simp only [Option.map_some, if_pos hdescends, hsame]
        split
        case isTrue hreturned => exact ⟨(hloop.ready hd hreturned hlists).last hat, trivial⟩
        case isFalse hreturned =>
          refine ⟨⟨hloop.within, hloop.shrinks, hloop.closed, fun hr => absurd hr hreturned,
            hloop.returned,
            fun hdeletable hnotRefused => hloop.succeeds fun c hc d' hd' => ?_, fun hr =>
              absurd hr hreturned⟩, trivial⟩
          have hroot : x ≠ [] := by
            rintro rfl
            exact hdeletable.there hd.root
          obtain ⟨m, hdir, -⟩ := get_of_dirGrants hroot hlists
          refine ⟨hdeletable.child hd hdir hc hd', fun q hq d'' => ?_⟩
          rw [hd'.tree _ (List.prefix_append _ q), List.append_assoc] at hq
          rw [List.append_assoc]
          exact hnotRefused ([c] ++ q) hq d''
    · simp only [Option.map_some, if_neg hdescends]
      exact ⟨halone fun hboth => hdescends hboth.2, trivial⟩

/-- With as many levels as there are, and with more, a deletion does what it is to do. -/
theorem delete_spec (refuses : Disk → Path → Bool) (n : Nat) (hd : Closed d.fs)
    (hat : LeadsTo d.fs file l)
    (hdepth : DepthAtMost d.fs l n) :
    Deletes refuses file l d (a_deleteFileOrDirectory refuses (n + 1) d file) ∧
      ∀ m ≥ n, a_deleteFileOrDirectory refuses (m + 1) d file = a_deleteFileOrDirectory refuses
        (n + 1) d file := by
  induction n generalizing d file l with
  | zero =>
    have hempty : ∀ c, c ∉ children d.fs l := by
      intro c hc
      have hlength := hdepth (l ++ [c]) (List.prefix_append l [c]) (mem_children.mp hc)
      rw [List.length_append, List.length_singleton] at hlength
      omega
    have hlevel := fun m => delete_level refuses 0 m hd hat fun c hc => absurd hc (hempty c)
    exact ⟨(hlevel 0).1, fun m _ => (hlevel m).2⟩
  | succ n ih =>
    have hbelow := fun c (_ : c ∈ children d.fs l) d' (hd' : Before l c d d') hat' =>
      @ih (file ++ [c]) (l ++ [c]) d' hd'.closed hat' (hdepth.child hd'.shrinks c)
    refine ⟨(delete_level refuses (n + 1) (n + 1) hd hat fun c hc d' hd' hat' =>
      ⟨(hbelow c hc d' hd' hat').1, rfl⟩).1, ?_⟩
    intro m hm
    obtain ⟨m, rfl⟩ : ∃ m', m = m' + 1 := ⟨m - 1, by omega⟩
    refine (delete_level refuses (n + 1) (m + 1) hd hat fun c hc d' hd' hat' => ?_).2
    exact ⟨(hbelow c hc d' hd' hat').1, (hbelow c hc d' hd' hat').2 m (by omega)⟩

/-- **A deletion removes exactly the tree of the file.** It comes to an end and only removes, at the
file or below. If the tree can be deleted and the system refuses nothing in it, it returns `true`
and the file is gone with everything below it, links being nodes of the tree like any other; if some
of the tree cannot be deleted, or a `file.delete()` fails, it returns `false`. -/
theorem a_deleteFileOrDirectory_removes (refuses : Disk → Path → Bool) (d : Disk) (file : Path)
    (l : Loc)
    (closed : Closed d.fs) (hat : fileAt d.fs file = some l) :
    ∃ r, (∃ turns, ∀ n ≥ turns, a_deleteFileOrDirectory refuses n d file = r) ∧
      Shrinks d.fs r.disk.fs ∧ Within l d r.disk ∧
      (Deletable d.fs file l → NotRefused refuses d.fs file l → r.returned = true) ∧
      ((∀ deleted ∈ r.deletes, deleted = true) → r.returned = true) ∧
      (r.returned = true → Removed l d.fs r.disk.fs) ∧
      (¬ Deletable d.fs file l ∨ Refused refuses d.fs file l ∨
        ¬ (∀ deleted ∈ r.deletes, deleted = true) →
        r.returned = false) := by
  have hleads : LeadsTo d.fs file l := fun x hx => Option.some.inj (hx.symm.trans hat)
  have hdepth : DepthAtMost d.fs l (height d.fs) := fun l' _ hthere =>
    Nat.le_trans (length_le_height hthere) (Nat.le_add_left _ _)
  obtain ⟨hspec, hstable⟩ := delete_spec refuses (height d.fs) closed hleads hdepth
  have hall :
      (∀ deleted ∈ (a_deleteFileOrDirectory refuses (height d.fs + 1) d file).deletes,
        deleted = true) ↔
      (a_deleteFileOrDirectory refuses (height d.fs + 1) d file).returned = true := by
    rw [hspec.returned, List.all_eq_true]
    rfl
  refine ⟨_, ⟨height d.fs + 1, fun n hn => ?_⟩, hspec.shrinks, hspec.within, hspec.succeeds,
    hall.mp, hspec.gone, ?_⟩
  · obtain ⟨n, rfl⟩ : ∃ n', n = n' + 1 := ⟨n - 1, by omega⟩
    exact hstable n (by omega)
  · rintro hfails
    refine Bool.eq_false_iff.mpr fun hr => ?_
    obtain ⟨hdeletable, hnotRefused⟩ := hspec.needs hr
    obtain hnot | hrefused | hdeletes := hfails
    · exact hnot hdeletable
    · exact hnotRefused hrefused
    · exact hdeletes (hall.mpr hr)

/-- A location as a path, without links on its way. -/
theorem steady_of_clear {c : Name} (h : Clear fs (l ++ [c])) : Steady fs (l ++ [c]) (l ++ [c]) := by
  intro fs' _ haround
  have hclear : Clear fs' ([] ++ (l ++ [c])) := h.of_shorter fun x hx => haround x fun hle =>
    absurd hle.length_le (Nat.not_le_of_lt hx)
  exact place_below (p := []) (l := []) rfl hclear

/-- A directory with a link to itself, one to the directory beside it and one that leads nowhere. -/
def linkedTree : FileSystem where
  entries :=
    [(["a".toList], .dir 0o700), (["a", "d"].map String.toList, .dir 0o700),
      (["a", "d", "self"].map String.toList, .link ".".toList),
        (["a", "d", "out"].map String.toList, .link "/a/other".toList),
      (["a", "d", "gone"].map String.toList, .link "x".toList),
        (["a", "d", "sub"].map String.toList, .dir 0o700),
      (["a", "d", "sub", "f"].map String.toList, .file [] 0o600),
        (["a", "other"].map String.toList, .dir 0o700),
      (["a", "other", "f"].map String.toList, .file [] 0o600)]
  nodup := by decide +kernel

/-- All of it goes, the other directory stays. -/
theorem a_deleteFileOrDirectory_removes_linked :
    ∃ r, (∃ turns, ∀ n ≥ turns,
      a_deleteFileOrDirectory (fun _ _ => false) n ⟨linkedTree, []⟩ ["a".toList, "d".toList] = r) ∧
      r.returned = true ∧ Removed ["a".toList, "d".toList] linkedTree r.disk.fs := by
  have hclear : Clear linkedTree (["a".toList] ++ ["d".toList]) :=
    (clear_nil.concat (c := "a".toList) (by decide) (by decide +kernel)).concat (by decide)
      (by decide +kernel)
  have hremovable : Removable linkedTree ["a".toList, "d".toList] :=
    removable_of_canEmpty (by decide +kernel)
  have hdeletable : Deletable linkedTree ["a".toList, "d".toList] ["a".toList, "d".toList] := by
    refine ⟨by decide +kernel, steady_of_clear hclear, by decide +kernel, fun l' m hle hdir => ?_⟩
    obtain ⟨hread, hempty⟩ := hremovable l' m hle hdir
    exact hempty.imp_right fun hgrants => ⟨hread, hgrants⟩
  obtain ⟨r, hends, -, -, hsucceeds, -, hremoved, -⟩ :=
    a_deleteFileOrDirectory_removes (fun _ _ => false) ⟨linkedTree, []⟩
    ["a".toList, "d".toList] ["a".toList, "d".toList]
      (closed_of_wellPlaced (List.all_eq_true.mp (by decide +kernel)))
    (by decide +kernel)
  have hreturned := hsucceeds hdeletable fun _ _ _ => rfl
  exact ⟨r, hends, hreturned, hremoved hreturned⟩

example :
    (a_deleteFileOrDirectory (fun _ _ => false) 4 ⟨linkedTree, []⟩
      ["a".toList, "d".toList]).deletes =
      [true, true, true, true, true, true] := by
  decide +kernel

/-- So a document is deleted if and only if no `file.delete()` fails. -/
theorem deleteDocument_ok_iff (p : MTDataFilesProvider) (refuses : Disk → Path → Bool) {d : Disk}
    {documentId : Text}
    {file : Path} {l : Loc} (closed : Closed d.fs)
    (hfile : p.b_getFileForDocId (lstatSucceeds d.fs) documentId true = .ok (some file))
    (hat : fileAt d.fs file = some l) :
    ∃ turns, ∀ n ≥ turns,
      ((p.deleteDocument refuses n d documentId).2 = .ok () ↔
          ∀ deleted ∈ (a_deleteFileOrDirectory refuses n d file).deletes, deleted = true) ∧
        ((p.deleteDocument refuses n d documentId).2 = .ok () →
          Removed l d.fs (p.deleteDocument refuses n d documentId).1.fs) := by
  have hleads : LeadsTo d.fs file l := fun x hx => Option.some.inj (hx.symm.trans hat)
  refine ⟨height d.fs + 1, fun n hn => ?_⟩
  obtain ⟨n, rfl⟩ : ∃ n', n = n' + 1 := ⟨n - 1, by omega⟩
  have hspec := (delete_spec refuses n closed hleads fun l' _ hthere =>
    Nat.le_trans (length_le_height hthere) (by omega)).1
  have hok : (p.deleteDocument refuses (n + 1) d documentId).2 = .ok () ↔
      (a_deleteFileOrDirectory refuses (n + 1) d file).returned = true := by
    unfold deleteDocument
    rw [hfile]
    dsimp only
    split
    next h => exact iff_of_true rfl h
    next h => exact iff_of_false nofun h
  have hdisk :
      (p.deleteDocument refuses (n + 1) d documentId).1 =
        (a_deleteFileOrDirectory refuses (n + 1) d file).disk := by
    unfold deleteDocument
    rw [hfile]
  rw [hok, hdisk]
  refine ⟨?_, hspec.gone⟩
  rw [hspec.returned, List.all_eq_true]
  rfl

end MTDataFilesProvider

end WinEmulator.App
