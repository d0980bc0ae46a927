import WinEmulator.Laws.App.RenameRootfs
import WinEmulator.Lib.Lines

/-!
# Saved login users

When a change of one rootfs's login user leaves the others as they were. The new map says about
another rootfs what `generalState` says about it, if the app lists that user, and else the app's own
choice. So a saved user survives exactly when `generalState` already shows it, or shows nobody the
app lists and the saved user is the app's choice.

What is stored is always a choice among the users that are offered; and a rename of the rootfs
itself looks its user up under the new name, where nobody saved it.
-/

set_option autoImplicit false

namespace WinEmulator.App

open ProotRootfs
open WinEmulator.Lib WinEmulator.Lib.Fs WinEmulator.Lib.JavaFile

/-- The user is in the file: a line of seven fields starts with its name. -/
def InPasswd (passwd : Option (List Text)) (user : Text) : Prop :=
  ∃ lines, passwd = some lines ∧
    ∃ line ∈ lines, (line.splitOn ':').length = 7 ∧ (line.splitOn ':').head? = some user

/-- A remembered user that is listed is preferred; otherwise what was remembered plays no part. -/
theorem getPreferredUser_name_eq_iff (last : Option Text) (users : List UserInfo) (user : Text) :
    (getPreferredUser last users).name = user ↔
      (last = some user ∧ ∃ info ∈ users, info.name = user) ∨
        ((∀ info ∈ users, last ≠ some info.name) ∧ (getPreferredUser none users).name = user) := by
  have hnone : users.find? (fun info => some info.name = (none : Option Text)) = none := by
    simp
  cases hfind : users.find? (fun info => some info.name = last) with
  | some info =>
    have hname : some info.name = last := by simpa using List.find?_some hfind
    have hmem := List.mem_of_find?_eq_some hfind
    have hpref : getPreferredUser last users = info := by
      unfold getPreferredUser
      rw [hfind]
    rw [hpref]
    constructor
    · rintro rfl
      exact .inl ⟨hname.symm, info, hmem, rfl⟩
    · rintro (⟨hlast, -⟩ | ⟨habsent, -⟩)
      · exact Option.some.inj (hname.trans hlast)
      · exact absurd hname.symm (habsent info hmem)
  | none =>
    have habsent : ∀ info ∈ users, last ≠ some info.name := by
      intro info hmem heq
      have := List.find?_eq_none.mp hfind info hmem
      simp [heq] at this
    have hpref : getPreferredUser last users = getPreferredUser none users := by
      unfold getPreferredUser
      rw [hfind, hnone]
    rw [hpref]
    constructor
    · intro h
      exact .inr ⟨habsent, h⟩
    · rintro (⟨hlast, info, hmem, hname⟩ | ⟨-, h⟩)
      · exact absurd (hname ▸ hlast) (habsent info hmem)
      · exact h

variable (digit : Char → Option Nat)

section Stored

variable {dirs : RootfsDirs} {k : Text}

/-- An installed rootfs gets the user that is preferred among its own. -/
theorem stored_of_mem (s : LoginUsers) {rootfsName userName : Text} (h : k ∈ dirs.getRootfsList) :
    (s.onChangeRootfsLoginUser digit dirs rootfsName userName).stored k =
      some (getPreferredUser (s.generalState.plus rootfsName userName k)
        (getUserInfos digit (dirs.passwd k))).name := by
  show (dirs.getRootfsUsersOptions digit k).map _ = _
  rw [RootfsDirs.getRootfsUsersOptions, if_pos h]
  rfl

/-- Nothing is stored for a rootfs that is not installed. -/
theorem stored_of_not_mem (s : LoginUsers) {rootfsName userName : Text}
    (h : k ∉ dirs.getRootfsList) :
    (s.onChangeRootfsLoginUser digit dirs rootfsName userName).stored k = none := by
  show (dirs.getRootfsUsersOptions digit k).map _ = _
  rw [RootfsDirs.getRootfsUsersOptions, if_neg h]
  rfl

theorem stored_eq_none_iff (s : LoginUsers) {rootfsName userName : Text} :
    (s.onChangeRootfsLoginUser digit dirs rootfsName userName).stored k = none ↔
      k ∉ dirs.getRootfsList := by
  by_cases h : k ∈ dirs.getRootfsList
  · rw [stored_of_mem digit s h]
    exact iff_of_false (Option.some_ne_none _) (not_not_intro h)
  · exact iff_of_true (stored_of_not_mem digit s h) h

/-- What is stored for a rootfs after the change. -/
theorem stored_eq_some_iff (s : LoginUsers) {rootfsName userName user : Text} :
    (s.onChangeRootfsLoginUser digit dirs rootfsName userName).stored k = some user ↔
      k ∈ dirs.getRootfsList ∧
        (getPreferredUser (s.generalState.plus rootfsName userName k)
          (getUserInfos digit (dirs.passwd k))).name = user := by
  by_cases h : k ∈ dirs.getRootfsList
  · rw [stored_of_mem digit s h, Option.some.injEq, and_iff_right h]
  · rw [stored_of_not_mem digit s h]
    exact iff_of_false (Option.some_ne_none _).symm fun hk => h hk.1

end Stored

/-- The saved users of the other rootfs that the change is not about and that still exist. -/
def Saved (s : LoginUsers) (dirs : RootfsDirs) (rootfsName k user : Text) : Prop :=
  k ∈ dirs.getRootfsList ∧ k ≠ rootfsName ∧ s.stored k = some user ∧ InPasswd (dirs.passwd k) user

/-- **Saved login users survive unrelated operations** if and only if for each of them
`generalState` shows the same user and the app lists it, or `generalState` shows nobody the app
lists and the app would choose the saved user itself. -/
theorem loginUsers_kept_iff (s : LoginUsers) (dirs : RootfsDirs) (rootfsName userName : Text) :
    (∀ k user, Saved s dirs rootfsName k user →
        (s.onChangeRootfsLoginUser digit dirs rootfsName userName).stored k = some user) ↔
      ∀ k user, Saved s dirs rootfsName k user →
        (s.generalState k = some user ∧
            ∃ info ∈ getUserInfos digit (dirs.passwd k), info.name = user) ∨
          ((∀ info ∈ getUserInfos digit (dirs.passwd k), s.generalState k ≠ some info.name) ∧
            (getPreferredUser none (getUserInfos digit (dirs.passwd k))).name = user) := by
  have pointwise : ∀ k user, Saved s dirs rootfsName k user →
      ((s.onChangeRootfsLoginUser digit dirs rootfsName userName).stored k = some user ↔
        (getPreferredUser (s.generalState k) (getUserInfos digit (dirs.passwd k))).name =
            user) := by
    rintro k user ⟨hlisted, hother, -, -⟩
    rw [stored_of_mem digit s hlisted, Option.some.injEq]
    unfold UserMap.plus
    rw [if_neg hother]
  constructor
  · intro kept k user saved
    exact (getPreferredUser_name_eq_iff _ _ _).mp ((pointwise k user saved).mp (kept k user saved))
  · intro shown k user saved
    exact (pointwise k user saved).mpr
      ((getPreferredUser_name_eq_iff _ _ _).mpr (shown k user saved))

/-- One rootfs whose `/etc/passwd` has root and one more user. -/
def debian : RootfsDirs where
  names := ["current".toList, "debian".toList]
  passwd k := if k = "debian".toList then
      some ["root:x:0:0:root:/root:/bin/bash".toList,
        "anna:x:1000:1000:,,,:/home/anna:/bin/sh".toList]
    else none

/-- Root is the saved user of it, and nothing was emitted yet. -/
def rootSaved : LoginUsers where
  stored k := if k = "debian".toList then some "root".toList else none
  generalState _ := none

/-- Entering the settings screen makes `anna` the login user. -/
theorem loginUsers_not_kept_rootSaved :
    (rootSaved.onChangeRootfsLoginUser asciiDigit debian [] []).stored "debian".toList
        = some "anna".toList ∧
      ¬ ∀ k user, Saved rootSaved debian [] k user →
        (rootSaved.onChangeRootfsLoginUser asciiDigit debian [] []).stored k = some user := by
  have saved : Saved rootSaved debian [] "debian".toList "root".toList :=
    ⟨by decide, by decide, by decide, _, rfl, "root:x:0:0:root:/root:/bin/bash".toList,
      by decide, by decide +kernel, by decide +kernel⟩
  have hanna : (rootSaved.onChangeRootfsLoginUser asciiDigit debian [] []).stored "debian".toList
      = some "anna".toList := by decide +kernel
  refine ⟨hanna, fun kept => ?_⟩
  have hroot := kept _ _ saved
  rw [hanna] at hroot
  revert hroot
  decide

/-! ## What is stored and what is offered -/

/-- Every rootfs has the user root. -/
theorem root_mem_getUserInfos (passwd : Option (List Text)) :
    ∃ info ∈ getUserInfos digit passwd, info.name = "root".toList := by
  have hkeeps :
      ∀ info : UserInfo, info.name = "root".toList → !("aid_".toList.isPrefixOf info.name) := by
    intro info hname
    rw [hname]
    decide
  unfold getUserInfos
  generalize ((passwd.bind fun lines => lines.mapM (parseLine digit)).map (·.reduceOption)).getD
    [] = parsed
  dsimp only
  split
  case isTrue hany =>
    obtain ⟨info, hmem, hname⟩ := List.any_eq_true.mp hany
    have hroot := of_decide_eq_true hname
    exact ⟨info, (List.mem_insertionSort _).mpr (List.mem_filter.mpr ⟨hmem, hkeeps info hroot⟩),
      hroot⟩
  case isFalse =>
    have hmem : UserInfo.ROOT ∈ parsed ++ [.ROOT] :=
      List.mem_append_right parsed (List.mem_singleton_self _)
    exact ⟨.ROOT, (List.mem_insertionSort _).mpr (List.mem_filter.mpr ⟨hmem, hkeeps .ROOT rfl⟩),
      rfl⟩

/-- Where root is one of them, the choice is one of the users. -/
theorem getPreferredUser_mem {users : List UserInfo} (h : ∃ info ∈ users, info.name = "root".toList)
    (last : Option Text) : getPreferredUser last users ∈ users := by
  unfold getPreferredUser
  split
  case h_1 info hfind => exact List.mem_of_find?_eq_some hfind
  case h_2 =>
    split
    case h_1 info hfind => exact List.mem_of_find?_eq_some hfind
    case h_2 =>
      split
      case h_1 info hfind => exact List.mem_of_find?_eq_some hfind
      case h_2 hfind =>
        obtain ⟨info, hmem, hname⟩ := h
        exact absurd hname (by simpa using List.find?_eq_none.mp hfind info hmem)

/-- What one call stores and what it offers: a user for every rootfs, and one of those that are
offered. -/
structure Offers (dirs : RootfsDirs) (after : LoginUsers) : Prop where
  keys : ∀ k, after.stored k ≠ none ↔ k ∈ dirs.names ∧ k ≠ "current".toList
  users : ∀ k user, after.stored k = some user →
    ∃ info ∈ getUserInfos digit (dirs.passwd k), info.name = user
  options : ∀ k user, after.stored k = some user →
    ∃ infos, after.rootfsUsersOptions k = some infos ∧ user ∈ infos.map UserInfo.name
  screen : ∀ k, GeneralRootfsSelect.throws after.stored
    (fun rootfs => (after.rootfsUsersOptions rootfs).map (·.map UserInfo.name)) k = false

/-- **The stored users are always among the offered ones**, whatever the files hold and whatever was
stored. -/
theorem loginUsers_offered (s : LoginUsers) {dirs : RootfsDirs} (h : dirs.names.Nodup)
    (rootfsName userName : Text) :
    Offers digit dirs (s.onChangeRootfsLoginUser digit dirs rootfsName userName) := by
  have hlist : ∀ k, k ∈ dirs.getRootfsList ↔ k ∈ dirs.names ∧ k ≠ "current".toList := fun k =>
    h.mem_erase_iff.trans and_comm
  have hmem :
      ∀ k user, (s.onChangeRootfsLoginUser digit dirs rootfsName userName).stored k = some user →
      k ∈ dirs.getRootfsList ∧ ∃ info ∈ getUserInfos digit (dirs.passwd k), info.name = user := by
    intro k user hstored
    by_cases hk : k ∈ dirs.getRootfsList
    · rw [stored_of_mem digit s hk] at hstored
      exact ⟨hk, _, getPreferredUser_mem (root_mem_getUserInfos digit _) _, Option.some.inj hstored⟩
    · rw [stored_of_not_mem digit s hk] at hstored
      cases hstored
  have hoptions :
      ∀ k user, (s.onChangeRootfsLoginUser digit dirs rootfsName userName).stored k = some user →
      ∃ infos, (s.onChangeRootfsLoginUser digit dirs rootfsName userName).rootfsUsersOptions k =
        some infos ∧
        user ∈ infos.map UserInfo.name := by
    intro k user hstored
    obtain ⟨hk, info, hinfo, hname⟩ := hmem k user hstored
    exact ⟨_, if_pos hk, List.mem_map.mpr ⟨info, hinfo, hname⟩⟩
  refine ⟨fun k => ?_, fun k user hstored => (hmem k user hstored).2, hoptions, fun k => ?_⟩
  · rw [← hlist k]
    by_cases hk : k ∈ dirs.getRootfsList
    · rw [stored_of_mem digit s hk]
      exact iff_of_true (Option.some_ne_none _) hk
    · rw [stored_of_not_mem digit s hk]
      exact iff_of_false (fun hne => hne rfl) hk
  · unfold GeneralRootfsSelect.throws
    split
    case h_1 userNameOptions userName hshown hstored =>
      obtain ⟨infos, hinfos, hin⟩ := hoptions k userName hstored
      simp only [hinfos, Option.map_some, Option.some.injEq] at hshown
      subst hshown
      rw [List.contains_iff_mem.mpr hin]
      rfl
    case h_2 => rfl

/-- A choice for `debian`. -/
theorem loginUsers_offered_debian :
    Offers asciiDigit debian
      (rootSaved.onChangeRootfsLoginUser asciiDigit debian "debian".toList "root".toList) :=
  loginUsers_offered asciiDigit rootSaved (by decide) _ _

/-! ## A rename -/

section Rename

variable {dirs : AppDirs} {fs : FileSystem} {base : Loc} {oldName newName : Text}
  {lines : List UInt8 → List Text} {s : RootfsSettings}

/-- No name has a slash in it, on the disk that a rename leaves either. -/
theorem no_slash_of_rename {d d' : Disk} (closed : Closed d.fs)
    (h : rename d (dirs.rootfsFile oldName)
    (dirs.rootfsFile newName) = some d') {l :
    Loc} {c : Name} (hthere : d'.fs.get (l ++ [c]) ≠ none) : '/' ∉ c := by
  obtain ⟨src, dst, n, -, hdst, hn, ⟨-, rfl⟩ | ⟨-, rfl⟩⟩ := rename_cases h
  · by_cases hmem : l ++ [c] ∈ (moveEffects d.fs src dst).map Prod.fst
    · obtain ⟨e, he, hkey⟩ := List.mem_map.mp hmem
      obtain ⟨rel, m, hm, rfl | rfl⟩ := mem_moveEffects.mp he
      · -- a name that a node had before
        change src ++ rel = l ++ [c] at hkey
        refine (closed.names l c ?_).2.2.2
        rw [← hkey, hm]
        exact Option.some_ne_none m
      · change dst ++ rel = l ++ [c] at hkey
        rcases List.eq_nil_or_concat rel with rfl | ⟨rel, c', rfl⟩
        · -- the new name, a component of the path that the app makes of it
          obtain ⟨q, c', hq⟩ := ne_nil_of_place hdst
          rw [hq] at hdst
          obtain ⟨-, parent, -, -, heq⟩ := place_concat_iff.mp hdst
          rw [List.append_nil, heq] at hkey
          obtain rfl := (List.append_singleton_inj.mp hkey).2
          exact not_mem_of_mem_components
            (hq ▸ List.mem_append_right q (List.mem_singleton_self c'))
        · rw [List.concat_eq_append, ← List.append_assoc] at hkey
          obtain rfl := (List.append_singleton_inj.mp hkey).2
          rw [List.concat_eq_append, ← List.append_assoc] at hm
          refine (closed.names (src ++ rel) c' ?_).2.2.2
          rw [hm]
          exact Option.some_ne_none m
    · rw [get_foldl_apply_of_not_mem hmem] at hthere
      exact (closed.names l c hthere).2.2.2
  · exact (closed.names l c hthere).2.2.2

/-- What `getRootfsList` gives of a directory that can be listed. -/
theorem mem_getRootfsList_iff (hreaches : Reaches fs (components dirs.rootfsAllDir) base)
    (hread : dirGrants fs base .read = true) {k : Text} (hk : k ≠ currentName) :
    k ∈ (dirs.rootfsDirs lines fs).getRootfsList ↔ fs.get (base ++ [k]) ≠ none := by
  have hlist : list fs (components dirs.rootfsAllDir) = some (children fs base) := by
    rw [list, hreaches.resolve, Option.bind_some, if_pos hread]
  have hnames : (dirs.rootfsDirs lines fs).names = children fs base := by
    rw [AppDirs.rootfsDirs, hlist, Option.getD_some]
  rw [RootfsDirs.getRootfsList, hnames]
  exact (List.mem_erase_of_ne hk).trans mem_children

/-- A rootfs is in the list only where its directory can be listed. -/
theorem dirGrants_of_mem_getRootfsList (hreaches : Reaches fs (components dirs.rootfsAllDir) base)
    {k : Text}
    (hmem : k ∈ (dirs.rootfsDirs lines fs).getRootfsList) : dirGrants fs base .read = true := by
  by_contra hread
  have hlist : list fs (components dirs.rootfsAllDir) = none := by
    rw [list, hreaches.resolve, Option.bind_some, if_neg hread]
  have hnames : (dirs.rootfsDirs lines fs).names = [] := by
    rw [AppDirs.rootfsDirs, hlist, Option.getD_none]
  rw [RootfsDirs.getRootfsList, hnames] at hmem
  exact absurd hmem List.not_mem_nil

/-- A name that is not taken is not empty: that would be the directory itself. -/
theorem ne_nil_of_not_taken (hreaches : Reaches fs (components dirs.rootfsAllDir) base)
    (hfree : ¬Taken dirs fs newName) :
    newName ≠ [] := by
  rintro rfl
  refine hfree (.inr ?_)
  rw [rootfsFile_eq, components_nil, List.append_nil, exists_, hreaches.resolve]
  rfl

/-- The disk after `renameTo`, which may have failed. -/
def AppDirs.renamedDisk (dirs : AppDirs) (d : Disk) (oldName newName : Text) : Disk :=
  (rename d (dirs.rootfsFile oldName) (dirs.rootfsFile newName)).getD d

/-- Where the list has the new name and not the old one, a name of the directory was replaced by
another. -/
theorem canRename_of_listed (h : Listed dirs s.disk.fs base oldName)
    (hfree : ¬Taken dirs s.disk.fs newName)
    (hread : dirGrants s.disk.fs base .read = true)
    (hold : oldName ∉
      (dirs.rootfsDirs lines (dirs.renamedDisk s.disk oldName newName).fs).getRootfsList)
    (hnew : newName ∈
      (dirs.rootfsDirs lines (dirs.renamedDisk s.disk oldName newName).fs).getRootfsList) :
    CanRename s.disk.fs base oldName newName newName := by
  have hcurrent : newName ≠ currentName := fun heq => hfree (.inl heq)
  cases hrename : rename s.disk (dirs.rootfsFile oldName) (dirs.rootfsFile newName) with
  | none =>
    rw [AppDirs.renamedDisk, hrename, Option.getD_none,
      mem_getRootfsList_iff h.reaches hread h.notCurrent] at hold
    exact absurd (mem_children.mp h.there) hold
  | some d' =>
    have hthere : ∃ l, d'.fs.get (l ++ [newName]) ≠ none := by
      rw [AppDirs.renamedDisk, hrename, Option.getD_some] at hnew
      have hmem := List.mem_of_mem_erase hnew
      rw [AppDirs.rootfsDirs, list] at hmem
      cases hall : resolve d'.fs false (components dirs.rootfsAllDir) with
      | none =>
        rw [hall] at hmem
        exact absurd hmem List.not_mem_nil
      | some l =>
        rw [hall, Option.bind_some] at hmem
        split at hmem
        · exact ⟨l, mem_children.mp hmem⟩
        · exact absurd hmem List.not_mem_nil
    obtain ⟨l, hl⟩ := hthere
    have hsingle : components newName = [newName] :=
      components_of_not_mem (ne_nil_of_not_taken h.reaches hfree)
        (no_slash_of_rename h.closed hrename hl)
    have hproper : Proper newName := by
      obtain ⟨src, dst, n, -, hdst, -⟩ := rename_cases hrename
      rw [rootfsFile_single dirs hsingle] at hdst
      exact (place_concat_iff.mp hdst).1
    have hreaches := h.reaches_rename hsingle hproper
    have hgrants := dirGrants_of_mem_getRootfsList hreaches hnew
    refine h.canRename hsingle hproper (fun hexists => hfree (.inr hexists)) ?_
    by_contra habsent
    exact hold ((mem_getRootfsList_iff hreaches hgrants h.notCurrent).mpr habsent)

/-- The list has the new name in the place of the old one exactly where the rename can succeed, with
that name. -/
theorem listed_renamed_iff (h : Listed dirs s.disk.fs base oldName)
    (hfree : ¬Taken dirs s.disk.fs newName)
    (hread : dirGrants s.disk.fs base .read = true) :
    (oldName ∉ (dirs.rootfsDirs lines (dirs.renamedDisk s.disk oldName newName).fs).getRootfsList ∧
        newName ∈ (dirs.rootfsDirs lines
          (dirs.renamedDisk s.disk oldName newName).fs).getRootfsList) ↔
      CanRename s.disk.fs base oldName newName newName := by
  constructor
  · rintro ⟨hold, hnew⟩
    exact canRename_of_listed h hfree hread hold hnew
  · intro hcan
    obtain ⟨d', hrename, hmoved⟩ := h.renamed hcan fun hexists => hfree (.inr hexists)
    have hrenamed := Renamed.of_moved hmoved
    obtain ⟨hreaches, hgrants⟩ := h.reaches.moved hmoved
    have hread' : dirGrants d'.fs base .read = true := (hgrants .read).trans hread
    have hcurrent : newName ≠ currentName := fun heq => hfree (.inl heq)
    rw [AppDirs.renamedDisk, hrename, Option.getD_some,
      mem_getRootfsList_iff hreaches hread' h.notCurrent,
      mem_getRootfsList_iff hreaches hread' hcurrent]
    refine ⟨fun hthere => hthere hrenamed.absent, ?_⟩
    rw [hrenamed.content []]
    exact mem_children.mp h.there

/-- What a rename that is not refused makes of the stored map. -/
theorem stored_renamed (hfree : ¬Taken dirs s.disk.fs newName) :
    (s.onChangeRootfsName digit lines dirs oldName newName).1.loginUsers =
      let rootfsDirs := dirs.rootfsDirs lines (dirs.renamedDisk s.disk oldName newName).fs
      s.loginUsers.onChangeRootfsLoginUser digit rootfsDirs newName
        (getPreferredUser (s.loginUsers.stored newName)
            (getUserInfos digit (rootfsDirs.passwd newName))).name := by
  have hedit :
      editRootfsName dirs s.disk oldName newName =
        ⟨dirs.renamedDisk s.disk oldName newName, none⟩ := if_neg hfree
  rw [RootfsSettings.onChangeRootfsName, hedit]
  rfl

/-- **A rename keeps the saved user of the rootfs** if and only if the directory is renamed, to one
name right in `rootfsAllDir`, and the stored map has the user under the new name already and the app
lists it, or has nobody there whom the app lists and the user is the one the app chooses itself. -/
theorem loginUser_renamed_iff {user : Text} (h : Listed dirs s.disk.fs base oldName)
    (saved : Saved s.loginUsers (dirs.rootfsDirs lines s.disk.fs) newName oldName user)
    (hfree : ¬Taken dirs s.disk.fs newName) :
    let after := (s.onChangeRootfsName digit lines dirs oldName newName).1.loginUsers
    let users :=
      getUserInfos digit
      ((dirs.rootfsDirs lines (dirs.renamedDisk s.disk oldName newName).fs).passwd newName)
    (after.stored oldName = none ∧ after.stored newName = some user) ↔
      CanRename s.disk.fs base oldName newName newName ∧
        ((s.loginUsers.stored newName = some user ∧ ∃ info ∈ users, info.name = user) ∨
          (∀ info ∈ users, s.loginUsers.stored newName ≠ some info.name) ∧
              (getPreferredUser none users).name = user) := by
  intro after users
  obtain ⟨hold, hne, -, -⟩ := saved
  have hread := dirGrants_of_mem_getRootfsList h.reaches hold
  have hafter : after = _ := stored_renamed digit hfree
  -- the second look-up finds the user that the first one has chosen
  have hagain :
      (getPreferredUser (some (getPreferredUser (s.loginUsers.stored newName) users).name)
        users).name =
      (getPreferredUser (s.loginUsers.stored newName) users).name :=
    (getPreferredUser_name_eq_iff _ _ _).mpr
      (.inl ⟨rfl, _, getPreferredUser_mem (root_mem_getUserInfos digit _) _, rfl⟩)
  rw [hafter, stored_eq_none_iff, stored_eq_some_iff, UserMap.plus, if_pos rfl, hagain,
    getPreferredUser_name_eq_iff,
    ← and_assoc, listed_renamed_iff h hfree hread]

end Rename

/-- `readLines` of a file in ASCII. -/
def asciiLines (content : List UInt8) : List Text :=
  Lines.readLines (content.map fun byte => Char.ofNat byte.toNat)

/-- The device of `runningDebian`, and the users of its rootfs: root and one more. -/
def debianUsers : FileSystem where
  entries :=
    runningDebian.entries
      ++ [(allRootfs ++ [debianName, "etc".toList, "passwd".toList],
        .file
          ("root:x:0:0:root:/root:/bin/bash\nanna:x:1000:1000:,,,:/home/anna:/bin/sh\n".toList.map
            fun c => UInt8.ofNat c.toNat) 0o644)]
  nodup := by decide +kernel

def debianUsersSettings (loginUsers : LoginUsers) : RootfsSettings :=
  ⟨⟨debianUsers, []⟩, debianName, loginUsers⟩

theorem listed_debianUsers : Listed .primary debianUsers allRootfs debianName where
  closed := closed_of_wellPlaced (by decide +kernel)
  reaches := by
    have hdir : debianUsers.get allRootfs = some (.dir 0o700) := by decide +kernel
    exact reaches_of_clear (clear_of_all (by decide +kernel)) hdir
  there := by decide +kernel
  notCurrent := by decide

/-- The name that `debian` gets. -/
def bookworm : Text := "bookworm".toList

/-- The rootfs is listed, and so are its users. -/
theorem rootfsDirs_debianUsers :
    debianName ∈ (AppDirs.primary.rootfsDirs asciiLines debianUsers).getRootfsList ∧
      (AppDirs.primary.rootfsDirs asciiLines debianUsers).passwd debianName =
        some ["root:x:0:0:root:/root:/bin/bash".toList,
          "anna:x:1000:1000:,,,:/home/anna:/bin/sh".toList] := by
  decide +kernel

theorem bookworm_not_taken : ¬Taken .primary debianUsers bookworm := by
  rintro (h | h)
  · exact absurd h (by decide)
  · exact absurd h (by decide +kernel)

/-- `anna` is the saved user of it. -/
def annaSaved : LoginUsers where
  stored k := if k = "debian".toList then some "anna".toList else none
  generalState _ := none

/-- `anna` is the one user beside root. -/
theorem loginUser_renamed_annaSaved :
    let after :=
      ((debianUsersSettings annaSaved).onChangeRootfsName asciiDigit asciiLines .primary debianName
      bookworm).1.loginUsers
    after.stored debianName = none ∧ after.stored bookworm = some "anna".toList := by
  obtain ⟨hlisted, hpasswd⟩ := rootfsDirs_debianUsers
  have saved :
      Saved annaSaved (AppDirs.primary.rootfsDirs asciiLines debianUsers) bookworm debianName
        "anna".toList :=
    ⟨hlisted, by decide, by decide, _, hpasswd, "anna:x:1000:1000:,,,:/home/anna:/bin/sh".toList,
      by decide, by decide +kernel, by decide +kernel⟩
  refine (loginUser_renamed_iff asciiDigit (s := debianUsersSettings annaSaved) listed_debianUsers
    saved bookworm_not_taken).mpr ⟨?_, ?_⟩
  · exact ⟨by decide +kernel, by decide, by decide, by decide +kernel, by decide +kernel,
      Or.inl (by decide +kernel)⟩
  · refine .inr ⟨fun _ _ => nofun, ?_⟩
    decide +kernel

/-- Where root is saved, a rename makes `anna` the login user. -/
theorem loginUser_renamed_rootSaved :
    let s := debianUsersSettings rootSaved
    let outcome := s.onChangeRootfsName asciiDigit asciiLines .primary debianName bookworm
    Saved rootSaved (AppDirs.primary.rootfsDirs asciiLines s.disk.fs) bookworm debianName
      "root".toList ∧
      outcome.2 = none ∧ outcome.1.loginUsers.stored bookworm = some "anna".toList ∧
      ¬(outcome.1.loginUsers.stored debianName = none ∧
          outcome.1.loginUsers.stored bookworm = some "root".toList) := by
  intro s outcome
  have hanna : outcome.1.loginUsers.stored bookworm = some "anna".toList := by decide +kernel
  obtain ⟨hlisted, hpasswd⟩ := rootfsDirs_debianUsers
  refine ⟨⟨hlisted, by decide, by decide, _, hpasswd, "root:x:0:0:root:/root:/bin/bash".toList,
    by decide, by decide +kernel, by decide +kernel⟩, by decide +kernel, hanna, fun h => ?_⟩
  have hstored := h.2
  rw [hanna] at hstored
  revert hstored
  decide

end WinEmulator.App
