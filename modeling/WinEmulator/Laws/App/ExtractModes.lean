import WinEmulator.Laws.App.ExtractLayout

/-!
# The last passes over a tree that was laid out

`fixL2sFiles` deletes what stands at `.l2s`, a directory with everything in it and a link that leads
somewhere. The modes of the directories are restored in the order of the stream, so a directory that
loses the search keeps the modes of those below it from being restored after it.
-/

set_option autoImplicit false

namespace WinEmulator.App

open WinEmulator.Lib WinEmulator.Lib.Fs WinEmulator.Lib.JavaFile Archive

variable {fs₀ fs fs' : FileSystem} {out : Loc} {outDir : Path} {entries dirs : List TarArchiveEntry}
  {f : TarArchiveEntry → Option Node} {e : TarArchiveEntry} {cs : List Name}

/-! ## A layout is well formed -/

namespace Laid

/-- What stands below the directory stands at an entry or above one. -/
theorem exists_below (h : Laid fs₀ out entries f fs) (hcs : cs ≠ [])
    (hget : fs.get (out ++ cs) ≠ none) :
    ∃ e ∈ entries, cs <+: e.path := by
  by_contra hnot
  exact hget (h.others cs hcs fun e he hle => hnot ⟨e, he, hle⟩)

/-- Above an entry there are directories. -/
theorem dir_above (fresh : Fresh fs₀ out) (h : Laid fs₀ out entries f fs)
    (hlayered : Layered entries)
    (hdirs : ∀ d ∈ entries, d.isDirectory = true → ∃ m, f d = some (.dir m)) (he : e ∈ entries)
    (hle : cs <+: e.path)
    (hne : cs ≠ e.path) : ∃ m, fs.get (out ++ cs) = some (.dir m) := by
  by_cases hcs : cs = []
  · obtain ⟨m, hm, -⟩ := fresh.dir
    exact ⟨m, by rw [hcs, List.append_nil, h.top, hm]⟩
  · by_cases hpath : ∃ d ∈ entries, d.path = cs
    · obtain ⟨d, hd, rfl⟩ := hpath
      rw [h.there d hd]
      exact hdirs d hd (hlayered.dir_of_below he hd hle hne)
    · exact ⟨_, h.between cs hcs (fun d hd heq => hpath ⟨d, hd, heq⟩) ⟨e, he, hle⟩⟩

/-- What is laid in a closed file system leaves it closed. -/
theorem closed (closed : Closed fs₀) (fresh : Fresh fs₀ out) (hout : out ≠ [])
    (hlayered : Layered entries)
    (hdirs : ∀ d ∈ entries, d.isDirectory = true → ∃ m, f d = some (.dir m))
    (h : Laid fs₀ out entries f fs) :
    Closed fs where
  root := by
    rw [h.outside [] fun hle => hout (List.prefix_nil.mp hle)]
    exact closed.root
  names := by
    intro l c hget
    by_cases hold : fs₀.get (l ++ [c]) = none
    · by_cases hle : out <+: l ++ [c]
      · obtain ⟨cs, hcs⟩ := hle
        rw [← hcs] at hget hold
        have hne : cs ≠ [] := by
          rintro rfl
          rw [List.append_nil, h.top] at hget
          rw [List.append_nil] at hold
          exact hget hold
        obtain ⟨e, he, hle⟩ := h.exists_below hne hget
        -- the name is one of the entry's
        have hmem : c ∈ e.path := by
          have hlast := congrArg List.getLast? hcs
          rw [List.getLast?_append_of_ne_nil _ hne, List.getLast?_concat] at hlast
          exact hle.subset (List.mem_of_getLast? hlast)
        obtain ⟨hproper, hdot, hdots⟩ := (hlayered.proper e he).2 c hmem
        exact ⟨hproper, hdot, hdots, (whole_of_mem_components hmem).2⟩
      · rw [h.outside _ hle] at hget
        exact absurd hold hget
    · exact closed.names l c hold
  parents := by
    intro l c hget
    by_cases hle : out <+: l
    · rw [node_of_ne_nil fun hnil => hout (List.prefix_nil.mp (hnil ▸ hle))]
      obtain ⟨cs, rfl⟩ := hle
      rw [List.append_assoc] at hget
      obtain ⟨e, he, hle⟩ := h.exists_below (by simp) hget
      refine h.dir_above fresh hlayered hdirs he ((List.prefix_append cs [c]).trans hle) ?_
      rintro rfl
      exact not_prefix_parent _ c hle
    · -- the directory itself stands where it stood
      have hsame : node fs l = node fs₀ l := by
        by_cases hl : l = []
        · rw [hl]
          rfl
        · rw [node_of_ne_nil hl, node_of_ne_nil hl, h.outside l hle]
      rw [hsame]
      refine closed.parents l c fun hnone => hget ?_
      by_cases heq : out = l ++ [c]
      · rw [← heq, h.top, heq, hnone]
      · rw [h.outside, hnone]
        intro hle'
        rcases List.prefix_concat_iff.mp hle' with heq' | hle'
        · exact heq heq'
        · exact hle hle'

theorem kept (fresh : Fresh fs₀ out) (h : Laid fs₀ out entries f fs) : Kept fs₀ out fs := by
  obtain ⟨m, hm, -⟩ := fresh.dir
  exact ⟨h.outside, .inr ⟨m, h.top.trans hm⟩⟩

/-- No link stands on the way to a directory. -/
theorem noLinks (fresh : Fresh fs₀ out) (h : Laid fs₀ out entries f fs) (hlayered : Layered entries)
    (hdirs : ∀ d ∈ entries, d.isDirectory = true → ∃ m, f d = some (.dir m)) (he : e ∈ entries)
    (hdir : e.isDirectory = true) : NoLinks fs out e.path := by
  intro pre hle t hlink
  have hproper : ∀ c ∈ pre, Proper c := fun c hc => (hlayered.proper e he).2 c (hle.subset hc)
  rw [collapse_names out hproper] at hlink
  by_cases hsame : pre = e.path
  · obtain ⟨m, hm⟩ := hdirs e he hdir
    rw [hsame, h.there e he, hm] at hlink
    cases hlink
  · obtain ⟨m, hm⟩ := h.dir_above fresh hlayered hdirs he hle hsame
    rw [hm] at hlink
    cases hlink

end Laid

/-! ## What stands at `.l2s` -/

section L2s

variable {d : Disk}

theorem linkedNode_dir (hdir : e.isDirectory = true) : e.linkedNode = .dir newDirMode := if_pos hdir

theorem linked_dirs :
    ∀ d ∈ entries, d.isDirectory = true → ∃ m, some d.linkedNode = some (.dir m) :=
  fun _ _ hdir => ⟨newDirMode, congrArg some (linkedNode_dir hdir)⟩

/-- Before their modes are restored all directories are new. -/
theorem Laid.mode_new (h : Laid fs₀ out entries (fun e => some e.linkedNode) fs) (hcs : cs ≠ [])
    {m : Mode}
    (hdir : fs.get (out ++ cs) = some (.dir m)) : m = newDirMode := by
  by_cases hpath : ∃ e ∈ entries, e.path = cs
  · obtain ⟨e, he, rfl⟩ := hpath
    rw [h.there e he, TarArchiveEntry.linkedNode] at hdir
    split at hdir
    next => exact (Node.dir.inj (Option.some.inj hdir)).symm
    next hnot =>
      rw [TarArchiveEntry.node, if_neg hnot] at hdir
      split at hdir <;> cases hdir
  · obtain ⟨e, he, hle⟩ := h.exists_below hcs (by rw [hdir]; exact Option.some_ne_none _)
    rw [h.between cs hcs (fun e he heq => hpath ⟨e, he, heq⟩) ⟨e, he, hle⟩] at hdir
    exact (Node.dir.inj (Option.some.inj hdir)).symm

/-- The way to what stands right below the directory. -/
theorem Laid.clear_l2s (target : Target fs₀ out outDir) (h : Laid fs₀ out entries f fs) :
    Clear fs (out ++ ([] ++ [".l2s".toList])) ∧ dirGrants fs (out ++ []) .write = true := by
  obtain ⟨m, hm, hall⟩ := target.fresh.dir
  have hgrants : ∀ a, dirGrants fs out a = true := by
    intro a
    rw [dirGrants, node_of_ne_nil target.ne_nil, h.top, hm]
    exact hall a
  rw [List.append_nil]
  exact ⟨((h.grows target.fresh).clear target.clear).concat (by decide) (hgrants .search),
    hgrants .write⟩

/-- A directory goes with everything in it. -/
theorem Laid.l2s_removed (target : Target fs₀ out outDir) (closed : Closed fs₀)
    (hlayered : Layered entries)
    (h : Laid fs₀ out entries (fun e => some e.linkedNode) d.fs) {m : Mode}
    (hdir : d.fs.get (out ++ [".l2s".toList]) = some (.dir m)) :
    Removed (out ++ [".l2s".toList]) d.fs (deleteDirectory d (l2sDir outDir)).fs := by
  obtain ⟨hclear, hwrite⟩ := h.clear_l2s target
  refine deleteDirectory_removed (h.closed closed target.fresh target.ne_nil hlayered linked_dirs)
    target.path
    (h.grows target.fresh) (fun x hle => ?_) hclear hdir (fun x m' hle hm' => ?_) hwrite
  · refine target.fresh.empty x ((List.prefix_append _ _).trans hle) ?_
    rintro rfl
    exact not_prefix_parent _ _ hle
  · obtain ⟨cs, rfl⟩ := hle
    rw [List.append_assoc] at hm'
    rw [h.mode_new (by simp) hm']
    exact ⟨grantsAll_newDirMode .read,
      .inr ⟨grantsAll_newDirMode .write, grantsAll_newDirMode .search⟩⟩

/-- A link that leads somewhere goes itself. -/
theorem Laid.l2s_unlinked (target : Target fs₀ out outDir) (h : Laid fs₀ out entries f d.fs)
    {t : Text}
    (hlink : d.fs.get (out ++ [".l2s".toList]) = some (.link t))
    (hexists : exists_ d.fs (l2sDir outDir) = true) :
    (deleteDirectory d (l2sDir outDir)).fs.get (out ++ [".l2s".toList]) = none := by
  obtain ⟨hclear, hwrite⟩ := h.clear_l2s target
  have hp := (h.grows target.fresh).resolve target.path
  have hplace : place d.fs (l2sDir outDir) = some (out ++ [".l2s".toList]) := place_below hp hclear
  rw [deleteDirectory, if_pos hexists, hplace]
  simp only [hlink]
  have hremove : removeEffect d.fs (l2sDir outDir) = some (out ++ [".l2s".toList], none) :=
    removeEffect_below hp hclear hlink (fun _ h => by cases h) hwrite
  rw [delete, hremove]
  exact (LinkedMap.get_set _ _ _ _).trans (if_pos rfl)

/-- Nothing else goes. -/
theorem Laid.l2s_left (target : Target fs₀ out outDir) (h : Laid fs₀ out entries f d.fs)
    (hdir : ∀ m, d.fs.get (out ++ [".l2s".toList]) ≠ some (.dir m))
    (hlink : ∀ t, d.fs.get (out ++ [".l2s".toList]) = some (.link t) →
      exists_ d.fs (l2sDir outDir) = false) :
    deleteDirectory d (l2sDir outDir) = d := by
  obtain ⟨hclear, -⟩ := h.clear_l2s target
  have hplace : place d.fs (l2sDir outDir) = some (out ++ [".l2s".toList]) :=
    place_below ((h.grows target.fresh).resolve target.path) hclear
  rw [deleteDirectory]
  split
  next hexists =>
    rw [hplace]
    dsimp only
    split
    next t ht =>
      rw [hlink t ht] at hexists
      cases hexists
    next m hm => exact absurd hm (hdir m)
    next => rfl
  next => rfl

end L2s

/-! ## The modes of the directories -/

section Modes

variable {d : Disk}

theorem restoreDirModes_concat (d : Disk) (items : List (Path × Nat)) (item : Path × Nat) :
    restoreDirModes d (items ++ [item]) =
      (restoreDirModes d items).perform
        (chmodEffect (restoreDirModes d items).fs item.1 (modeBits item.2)) :=
  List.foldl_concat _ _ _ _

theorem restoreDirModes_append (d : Disk) (items items' : List (Path × Nat)) :
    restoreDirModes d (items ++ items') = restoreDirModes (restoreDirModes d items) items' :=
  List.foldl_append

/-- Restoring the modes changes nothing but modes. -/
theorem restoreDirModes_modesOnly (d : Disk) (items : List (Path × Nat)) :
    ModesOnly d.fs (restoreDirModes d items).fs := by
  induction items using List.reverseRecOn with
  | nil => exact .refl d.fs
  | append_singleton items item ih =>
    rw [restoreDirModes_concat]
    exact ih.trans (.chmod _ _ _)

/-- The directories whose modes are restored can be named, and no link stands on the way to them. -/
def Straight (out : Loc) (dirs : List TarArchiveEntry) (fs : FileSystem) : Prop :=
  ∀ e ∈ dirs, (∀ c ∈ e.path, Proper c) ∧ NoLinks fs out e.path

theorem Straight.tidies {d' : Disk} (h : Straight out dirs d.fs) (htidies : Tidies fs₀ out d d') :
    Straight out dirs d'.fs :=
  fun e he => ⟨(h e he).1, (h e he).2.mono htidies.noNewLinks⟩

/-- The modes of straight directories are restored where they stand. -/
theorem Straight.restore (fresh : Fresh fs₀ out) (hplace : place fs₀ outDir = some out)
    (kept : Kept fs₀ out d.fs)
    (h : Straight out dirs d.fs) :
    Tidies fs₀ out d (restoreDirModes d (dirs.map fun e => (outDir ++ e.path, e.mode))) := by
  refine restoreDirModes_tidies fresh hplace kept fun item hitem => ?_
  obtain ⟨e, he, rfl⟩ := List.mem_map.mp hitem
  exact ⟨e.path, rfl, stays_of_proper (h e he).1, (h e he).2⟩

/-- Nothing changes but at the directories. -/
theorem Straight.restore_get (fresh : Fresh fs₀ out) (hplace : place fs₀ outDir = some out)
    (kept : Kept fs₀ out d.fs)
    (h : Straight out dirs d.fs) (cs : List Name) (hnot : ∀ e ∈ dirs, e.path ≠ cs) :
    (restoreDirModes d (dirs.map fun e => (outDir ++ e.path, e.mode))).fs.get (out ++ cs) = d.fs.get
    (out ++ cs) := by
  induction dirs using List.reverseRecOn with
  | nil => rfl
  | append_singleton dirs e ih =>
    have hbefore : Straight out dirs d.fs := fun e he => h e (List.mem_append_left _ he)
    have htidies := hbefore.restore fresh hplace kept
    have hget := ih hbefore fun e he => hnot e (List.mem_append_left _ he)
    obtain ⟨hproper, hlinks⟩ := h e (by simp)
    rw [List.map_append, List.map_singleton, restoreDirModes_concat]
    generalize restoreDirModes d (dirs.map fun e => (outDir ++ e.path, e.mode)) =
      d' at htidies hget ⊢
    rw [← hget]
    rcases htidies.kept.chmodEffect_cases fresh hplace hproper (hlinks.mono htidies.noNewLinks)
      (modeBits e.mode) with
      hnone | ⟨-, n, -, hsome⟩
    · rw [hnone]
      rfl
    · rw [hsome]
      refine (get_set_below d'.fs e.path cs _).trans (if_neg ?_)
      exact fun heq => hnot e (by simp) heq.symm

/-- No mode is restored below a directory that has lost the search. -/
theorem Straight.restore_blocked (fresh : Fresh fs₀ out) (hplace : place fs₀ outDir = some out)
    (kept : Kept fs₀ out d.fs) (h : Straight out dirs d.fs)
    (hdistinct : (dirs.map TarArchiveEntry.path).Nodup)
    {upper : TarArchiveEntry} (hbefore : [upper, e].Sublist dirs) (hle : upper.path <+: e.path)
    {m : Mode}
    (hdir : (restoreDirModes d (dirs.map fun e => (outDir ++ e.path, e.mode))).fs.get
      (out ++ upper.path) = some (.dir m))
    (hm : grants m .search = false) :
    (restoreDirModes d (dirs.map fun e => (outDir ++ e.path, e.mode))).fs.get (out ++ e.path) =
      d.fs.get (out ++ e.path) := by
  obtain ⟨pre, rest, rfl, hupper, hrest⟩ := List.cons_sublist_iff.mp hbefore
  obtain ⟨mid, post, rfl⟩ := List.append_of_mem (List.singleton_sublist.mp hrest)
  rw [← List.append_assoc] at h hdistinct hdir ⊢
  rw [List.map_append, List.nodup_append] at hdistinct
  obtain ⟨-, hpost, hapart⟩ := hdistinct
  rw [List.map_cons, List.nodup_cons] at hpost
  have hupper' : upper.path ∈ (pre ++ mid).map TarArchiveEntry.path :=
    List.mem_map_of_mem (List.mem_append_left _ hupper)
  have hfirst : Straight out (pre ++ mid) d.fs := fun e he => h e (List.mem_append_left _ he)
  have hsecond : Straight out (e :: post) d.fs := fun e he => h e (List.mem_append_right _ he)
  have htidies := hfirst.restore fresh hplace kept
  have hself := hfirst.restore_get fresh hplace kept e.path fun e' he' heq =>
    hapart _ (List.mem_map_of_mem he') _ List.mem_cons_self heq
  rw [List.map_append, restoreDirModes_append] at hdir ⊢
  generalize restoreDirModes d ((pre ++ mid).map fun e => (outDir ++ e.path, e.mode)) =
    d' at htidies hself hdir ⊢
  have hsecond' := hsecond.tidies htidies
  -- the directory above has its last mode when it is the turn of the one below
  have habove := hsecond'.restore_get fresh hplace htidies.kept upper.path fun e' he' heq =>
    hapart _ hupper' _ (List.mem_map_of_mem he') heq.symm
  rw [habove] at hdir
  have hne : upper.path ≠ e.path := fun heq => hapart _ hupper' _ List.mem_cons_self heq
  have hblocked : chmodEffect d'.fs (outDir ++ e.path) (modeBits e.mode) = none := by
    obtain ⟨hproper, hlinks⟩ := hsecond' e List.mem_cons_self
    refine (htidies.kept.chmodEffect_cases fresh hplace hproper hlinks
      (modeBits e.mode)).resolve_right ?_
    rintro ⟨hclear, -⟩
    obtain ⟨rest', hrest'⟩ := hle
    obtain ⟨c, rest', rfl⟩ : ∃ c cs, rest' = c :: cs := List.exists_cons_of_ne_nil (by
      rintro rfl
      exact hne (by rw [← hrest', List.append_nil]))
    have hsearch := (hclear (out ++ upper.path) c ⟨rest', by rw [← hrest']; simp⟩).2
    rw [dirGrants,
      node_of_ne_nil (List.append_ne_nil_of_left_ne_nil (ne_nil_of_place_some hplace) _), hdir]
      at hsearch
    rw [show grants m .search = true from hsearch] at hm
    cases hm
  have hcons : restoreDirModes d' ((e :: post).map fun e => (outDir ++ e.path, e.mode)) =
      restoreDirModes d' (post.map fun e => (outDir ++ e.path, e.mode)) := by
    show restoreDirModes (d'.perform (chmodEffect d'.fs (outDir ++ e.path) (modeBits e.mode))) _ = _
    rw [hblocked]
    rfl
  have hlast : Straight out post d'.fs := fun e' he' => hsecond' e' (List.mem_cons_of_mem _ he')
  rw [hcons, ← hself]
  exact hlast.restore_get fresh hplace htidies.kept e.path fun e' he' heq =>
    hpost.1 (heq ▸ List.mem_map_of_mem he')

/-- All modes are restored if no directory loses the search too early. -/
theorem restoreDirModes_laid (fresh : Fresh fs₀ out) (hplace : place fs₀ outDir = some out)
    (hlayered : Layered entries)
    (h : Laid fs₀ out entries f d.fs)
    (hnew : ∀ d ∈ entries, d.isDirectory = true → f d = some (.dir newDirMode))
    (hdirs : ∀ e ∈ dirs, e ∈ entries ∧ e.isDirectory = true) (hnodup : dirs.Nodup)
    (hmodes : ∀ upper e, [upper, e].Sublist dirs → upper.path <+: e.path →
      grants (modeBits upper.mode) .search = false → modeBits e.mode = newDirMode) :
    Laid fs₀ out entries (fun e => if e ∈ dirs then some (.dir (modeBits e.mode)) else f e)
      (restoreDirModes d (dirs.map fun e => (outDir ++ e.path, e.mode))).fs := by
  have target := target_of_place fresh hplace
  induction dirs using List.reverseRecOn with
  | nil => exact h.congr fun e _ => by simp
  | append_singleton dirs e ih =>
    obtain ⟨he, hdir⟩ := hdirs e (by simp)
    have hnot : e ∉ dirs := fun hmem => (List.nodup_append.mp hnodup).2.2 e hmem e (by simp) rfl
    have hdone :=
      ih (fun e he => hdirs e (List.mem_append_left _ he)) (List.nodup_append.mp hnodup).1
      fun upper e hsub => hmodes upper e (hsub.trans (List.sublist_append_left _ _))
    rw [List.map_append, List.map_singleton, restoreDirModes_concat]
    generalize restoreDirModes d (dirs.map fun e => (outDir ++ e.path, e.mode)) = d' at hdone ⊢
    have hstill : ∀ d ∈ entries, d.isDirectory = true →
        ∃ m, (if d ∈ dirs then some (Node.dir (modeBits d.mode)) else f d) = some (.dir m) := by
      intro d hd hdir
      split
      · exact ⟨_, rfl⟩
      · exact ⟨_, hnew d hd hdir⟩
    have hget : d'.fs.get (out ++ e.path) = some (.dir newDirMode) := by
      rw [hdone.there e he, if_neg hnot, hnew e he hdir]
    have hcongr : ∀ e' ∈ entries, e' ≠ e →
        (if e' ∈ dirs then some (Node.dir (modeBits e'.mode)) else f e') =
          if e' ∈ dirs ++ [e] then some (Node.dir (modeBits e'.mode)) else f e' := by
      intro e' _ hne
      simp [hne]
    have hlinks := hdone.noLinks fresh hlayered hstill he hdir
    rcases (hdone.kept fresh).chmodEffect_cases fresh hplace (hlayered.proper e he).2 hlinks
      (modeBits e.mode) with
      hnone | ⟨-, n, hn, hsome⟩
    · -- the way is blocked, and the directory has its mode already
      have hmode : modeBits e.mode = newDirMode := by
        by_contra hmode
        have hclear := hdone.clear target hlayered he fun d hd hdir' hle _ => by
          split
          next hmem =>
            refine ⟨_, rfl, ?_⟩
            by_contra hsearch
            exact hmode (hmodes d e
              ((List.singleton_sublist.mpr hmem).append (List.Sublist.refl [e])) hle
              (Bool.eq_false_iff.mpr hsearch))
          next => exact ⟨_, hnew d hd hdir', grantsAll_newDirMode .search⟩
        rw [chmodEffect_below ((hdone.grows fresh).resolve target.path) hclear hget nofun] at hnone
        cases hnone
      rw [hnone]
      refine hdone.congr fun e' he' => ?_
      by_cases heq : e' = e
      · rw [heq, if_neg hnot, if_pos (by simp), hnew e he hdir, hmode]
      · exact hcongr e' he' heq
    · rw [hget] at hn
      cases hn
      rw [hsome]
      refine (hdone.update hlayered he (some (.dir (modeBits e.mode)))).congr fun e' he' => ?_
      by_cases heq : e' = e
      · rw [heq, Function.update_self, if_pos (by simp)]
      · rw [Function.update_of_ne heq]
        exact hcongr e' he' heq

/-- All passes over a stream from which nothing is deleted. -/
theorem decompress_laid (fresh : Fresh fs₀ out) (hplace : place fs₀ outDir = some out)
    (hlayered : Layered entries)
    (hlinks : ∀ e ∈ entries, e.isPutOff = true → e.linkName ≠ [] ∧ isL2s (e.symLink outDir) = false)
    (log : List Effect)
    (hleft : deleteDirectory (linkedDisk outDir ⟨fs₀, log⟩ entries) (l2sDir outDir) =
      linkedDisk outDir ⟨fs₀, log⟩ entries)
    (hmodes : ∀ upper e, [upper, e].Sublist entries → upper.isDirectory = true →
      e.isDirectory = true →
      upper.path <+: e.path → grants (modeBits upper.mode) .search = false →
        modeBits e.mode = newDirMode) :
    Laid fs₀ out entries (fun e => some e.node)
      (decompressCompressedTarStream id outDir ⟨fs₀, log⟩ entries).fs := by
  have hunpacked := extractEntries_unpacked fresh hplace hlayered log
  have hlinked :=
    hunpacked.linked (target_of_place fresh hplace) hlayered fun e he hlink => (hlinks e he hlink).1
  rw [decompress_passes fresh hplace (fun e he => (hlayered.proper e he).2)
    (fun e he hlink => (hlinks e he hlink).2) log,
    hleft, hunpacked.dirModes]
  refine (restoreDirModes_laid fresh hplace hlayered hlinked
    (fun _ _ hdir => congrArg some (linkedNode_dir hdir))
    (fun e he => List.mem_filter.mp he) (hlayered.distinct.of_map.filter _) ?_).congr fun e he => ?_
  · intro upper e hsub hle hsearch
    have hmem : ∀ e' ∈ [upper, e], e' ∈ entries ∧ e'.isDirectory = true := fun e' he' =>
      List.mem_filter.mp (hsub.subset he')
    exact hmodes upper e (hsub.trans List.filter_sublist) (hmem upper (by simp)).2
      (hmem e (by simp)).2 hle hsearch
  · by_cases hdir : e.isDirectory = true
    · simp [he, hdir, TarArchiveEntry.node]
    · simp [hdir, TarArchiveEntry.linkedNode]

end Modes

end WinEmulator.App
