import WinEmulator.Laws.App.ExtractTree

/-!
# A tree that is extracted as `.l2s`

`fixL2sFiles` takes the directory `.l2s` next to what it extracts for what another proot left, and
deletes it. A stream that has everything below a directory of that name is extracted to nothing.
-/

set_option autoImplicit false

namespace WinEmulator.App

open WinEmulator.Lib WinEmulator.Lib.Fs WinEmulator.Lib.JavaFile Archive

variable {fs₀ fs : FileSystem} {out : Loc} {outDir : Path} {entries : List TarArchiveEntry}

/-- Below a directory without the name there is no path. -/
theorem resolve_through_none {p : Path} {l : Loc} {c : Name} (hp : resolve fs false p = some l)
    (hc : Proper c)
    (hnone : fs.get (l ++ [c]) = none) (cs : List Name) :
    resolve fs false (p ++ c :: cs) = none := by
  obtain ⟨n, hn⟩ := walk_append_same (fun _ _ => rfl) false (c :: cs) hp
  show walk fs false maxLinks [] (p ++ c :: cs) = none
  obtain ⟨follow, heq⟩ := walk_eq fs false n
  rw [hn, heq]
  by_cases hgrants : dirGrants fs l .search = true
  · rw [walkWith_proper cs hc hgrants, hnone]
    rfl
  · rw [walkWith, if_neg hgrants]

/-- The modes of directories that are gone are not restored. -/
theorem restoreDirModes_of_none {d : Disk} {dirModeList : List (Path × Nat)}
    (h : ∀ item ∈ dirModeList, resolve d.fs false item.1 = none) :
    restoreDirModes d dirModeList = d := by
  induction dirModeList with
  | nil => rfl
  | cons item items ih =>
    show restoreDirModes (d.perform (chmodEffect d.fs item.1 (modeBits item.2))) items = d
    rw [chmodEffect, h item List.mem_cons_self]
    exact ih fun item hitem => h item (List.mem_cons_of_mem _ hitem)

/-- What is left when everything was below `.l2s`. -/
structure LeftEmpty (fs₀ : FileSystem) (out : Loc) (fs : FileSystem) : Prop where
  top : fs.get out = fs₀.get out
  outside : ∀ l, ¬ out <+: l → fs.get l = fs₀.get l
  children : children fs out = []

/-- **A stream below `.l2s` leaves the directory empty.** -/
theorem decompress_l2s (fresh : Fresh fs₀ out) (hplace : place fs₀ outDir = some out)
    (closed : Closed fs₀)
    (horder : WellOrdered entries)
    (hlinks : ∀ e ∈ entries, e.isPutOff = true → e.linkName ≠ [] ∧ isL2s (e.symLink outDir) = false)
    (htop : ∃ e ∈ entries, e.isDirectory = true ∧ e.path = [".l2s".toList])
    (hbelow : ∀ e ∈ entries, ∃ cs, e.path = ".l2s".toList :: cs) (log : List Effect) :
    LeftEmpty fs₀ out (decompressCompressedTarStream id outDir ⟨fs₀, log⟩ entries).fs := by
  have target := target_of_place fresh hplace
  have hunpacked := extractEntries_unpacked fresh hplace horder.layered log
  have hlinked := hunpacked.linked target horder.layered fun e he hputOff => (hlinks e he hputOff).1
  have hremoved : Removed (out ++ [".l2s".toList]) (linkedDisk outDir ⟨fs₀, log⟩ entries).fs
      (deleteDirectory (linkedDisk outDir ⟨fs₀, log⟩ entries) (l2sDir outDir)).fs := by
    obtain ⟨e, he, hdir, hpath⟩ := htop
    have hget := hlinked.there e he
    rw [hpath, linkedNode_dir hdir] at hget
    exact hlinked.l2s_removed target closed horder.layered hget
  rw [decompress_passes fresh hplace (fun e he => (horder.proper e he).2)
    (fun e he hputOff => (hlinks e he hputOff).2) log,
    hunpacked.dirModes]
  generalize deleteDirectory _ (l2sDir outDir) = d at hremoved ⊢
  have houtside : ∀ l, fs₀.get l ≠ none ∨ ¬ out <+: l → d.fs.get l = fs₀.get l := by
    intro l hl
    rw [hremoved l, if_neg]
    · rcases hl with hl | hl
      · exact hlinked.grows fresh l hl
      · exact hlinked.outside l hl
    · intro hle
      have hout : out <+: l := (List.prefix_append _ _).trans hle
      rcases hl with hl | hl
      · refine hl (fresh.empty l hout ?_)
        rintro rfl
        exact not_prefix_parent _ _ hle
      · exact hl hout
  have hout : fs₀.get out ≠ none := by
    obtain ⟨m, hm, -⟩ := fresh.dir
    rw [hm]
    exact nofun
  have hnone : d.fs.get (out ++ [".l2s".toList]) = none :=
    (hremoved _).trans (if_pos (List.prefix_refl _))
  have hpath : resolve d.fs false outDir = some out :=
    Grows.resolve (fun l hl => houtside l (.inl hl)) target.path
  rw [restoreDirModes_of_none]
  · refine ⟨houtside out (.inl hout), fun l hl => houtside l (.inr hl),
      children_eq_nil_iff.mpr fun c => ?_⟩
    rw [hremoved]
    split
    next => rfl
    next hnot =>
      refine (hlinked.holds horder).others [c] (List.cons_ne_nil _ _) fun e he heq => hnot ?_
      obtain ⟨cs, hcs⟩ := hbelow e he
      obtain ⟨rfl, -⟩ := List.cons.inj (heq.symm.trans hcs)
      exact List.prefix_refl _
  · intro item hitem
    obtain ⟨e, he, rfl⟩ := List.mem_map.mp hitem
    obtain ⟨cs, hcs⟩ := hbelow e (List.mem_filter.mp he).1
    show resolve d.fs false (outDir ++ e.path) = none
    rw [hcs]
    exact resolve_through_none hpath (by decide) hnone cs

theorem LeftEmpty.list_eq (target : Target fs₀ out outDir) (h : LeftEmpty fs₀ out fs) :
    list fs outDir = some [] := by
  have hgrows : Grows fs₀ fs := by
    intro l hl
    by_cases hle : out <+: l
    · by_cases heq : l = out
      · rw [heq, h.top]
      · exact absurd (target.fresh.empty l hle heq) hl
    · exact h.outside l hle
  obtain ⟨m, hm, hgrants⟩ := target.fresh.dir
  have hread : dirGrants fs out .read = true := by
    rw [dirGrants, node_of_ne_nil target.ne_nil, h.top, hm]
    exact hgrants .read
  rw [list, hgrows.resolve target.path, Option.bind_some, if_pos hread, h.children]

end WinEmulator.App
