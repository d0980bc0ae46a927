import WinEmulator.App.RootfsChoice
import WinEmulator.Laws.App.InstallRootfs

/-!
# The rootfs that was chosen is started

The preference holds a name, and a rootfs can get another one. In the settings a rename of the
running rootfs is followed by a selection under the new name. In the prepare screen it is not, and
the button at its end selects the installed rootfs under the name it had, whether or not it still
has it. The text field also takes a name with slashes, which can lead out of the directory, or to
the place of the link.
-/

set_option autoImplicit false

namespace WinEmulator.App.RootfsChoice

open WinEmulator.Lib WinEmulator.Lib.Fs

/-- When the app is started again, a rootfs is started if there is one, the link points to it, and
it is the one of the last selection if that is still there. -/
def StartsChoice (s : State) : Prop :=
  ∀ allAvailable, allAvailable.Perm s.list →
    (s.rootfsAllDir ≠ [] → ∃ name ∈ s.names, name ≠ current ∧
      s.getSelectedRootfs allAvailable = some name ∧
      (s.startEmu allAvailable).rootfsCurrDir = .link (.entry name)) ∧
    ∀ id name, s.selected = some id → (name, id) ∈ s.rootfsAllDir →
      s.getSelectedRootfs allAvailable = some name

/-- No rename takes the place of the link. A rename of the running rootfs, or of the selected one,
takes place, in the directory, and the selection of it follows. The button of the prepare screen
finds the installed rootfs under the name it was installed under, if it is not the only one. -/
def FollowsRename (s : State) : Action → Prop
  | .renameInstalled newName newFile fails =>
    match s.screen with
    | .prepare ui =>
      s.alreadyExists newName newFile = false → s.moves ui.rootfsName newFile fails = true →
        newFile ≠ .entry current
    | _ => True
  | .rename oldName newName newFile fails =>
    s.alreadyExists newName newFile = false →
      (s.moves oldName newFile fails = true → newFile ≠ .entry current) ∧
      (oldName = s.canonicalName →
        s.moves oldName newFile fails = true ∧ newFile = .entry (State.nameOf newFile)) ∧
      (oldName ≠ s.canonicalName → s.moves oldName newFile fails = true →
        s.find oldName ≠ s.selected)
  | .finish =>
    match s.screen with
    | .prepare ui =>
      ui.isSetCurrent = true → ∀ entry ∈ s.rootfsAllDir, some entry.2 = ui.installed →
        entry.1 = ui.rootfsName ∨ s.rootfsAllDir = [entry]
    | _ => True
  | _ => True

instance (s : State) : ∀ a, Decidable (FollowsRename s a) := by
  intro a
  unfold FollowsRename
  split
  · split <;> infer_instance
  · infer_instance
  · split <;> infer_instance
  · infer_instance

/-- The entries are different rootfs that were installed, the link is a link, and in the prepare
screen no other rootfs has the name of the installed one, which was not selected yet. -/
structure Sound (s : State) : Prop where
  ids : (s.rootfsAllDir.map Prod.snd).Nodup
  bound : ∀ entry ∈ s.rootfsAllDir, entry.2 < s.installs
  selected : ∀ id, s.selected = some id → id < s.installs
  proper : ∀ name ∈ s.names, name ≠ [] ∧ name ≠ current
  preference : s.curr_rootfs_name ≠ current
  link : ∀ id, s.rootfsCurrDir ≠ .rootfs id
  prepare : ∀ ui, s.screen = .prepare ui → ui.rootfsName ≠ current ∧
    (∀ id, ui.installed = some id → id < s.installs ∧ s.selected ≠ some id) ∧
    ∀ entry ∈ s.rootfsAllDir, entry.1 = ui.rootfsName → ui.installed = some entry.2

/-- Once the app runs, the preference names the rootfs of the last selection if that is still
there. -/
structure Inv (s : State) : Prop extends Sound s where
  choice : ∀ id name, s.selected = some id → (name, id) ∈ s.rootfsAllDir →
    name = s.curr_rootfs_name ∨ s.screen = .closed ∧ s.names = [name]

variable {s s' : State} {a : Action} {allAvailable : List Text} {digit : Char → Option Nat}

/-! ## `getSelectedRootfs` -/

/-- The link is the only name that the list on the screen may have besides. -/
theorem mem_list {name : Text} (hname : name ≠ current) : name ∈ s.list ↔ name ∈ s.names := by
  unfold State.list
  split
  · rfl
  · rw [List.mem_cons, or_iff_right hname]

/-- What is named is there. -/
theorem Inv.existsAt (h : Inv s) {name : Text} (hname : name ∈ s.names) :
    s.existsAt (.entry name) = true := by
  rw [State.existsAt, if_neg (h.proper name hname).2, decide_eq_true_iff]
  exact hname

/-- The name in the preference, if there is a rootfs of that name. -/
theorem Inv.getSelectedRootfs_of_mem (h : Inv s) (hperm : allAvailable.Perm s.list)
    (hmem : s.curr_rootfs_name ∈ s.names) :
    s.getSelectedRootfs allAvailable = some s.curr_rootfs_name := by
  have hproper := h.proper _ hmem
  have havailable : s.curr_rootfs_name ∈ allAvailable :=
    hperm.mem_iff.mpr ((mem_list hproper.2).mpr hmem)
  simp [State.getSelectedRootfs, hproper.1, havailable, h.existsAt hmem]

/-- Any name, if there is none of that name. -/
theorem Inv.getSelectedRootfs_of_not_mem (h : Inv s) (hperm : allAvailable.Perm s.list)
    (hmem : s.curr_rootfs_name ∉ s.names) (hany : s.rootfsAllDir ≠ []) :
    ∃ name ∈ s.names, s.getSelectedRootfs allAvailable = some name := by
  have havailable : s.curr_rootfs_name ∉ allAvailable := fun hin =>
    hmem ((mem_list h.preference).mp (hperm.mem_iff.mp hin))
  obtain ⟨entry, hentry⟩ := List.exists_mem_of_ne_nil _ hany
  have hfirst : entry.1 ∈ s.names := List.mem_map_of_mem hentry
  cases hfind : allAvailable.find? (· ≠ current) with
  | none =>
    rw [List.find?_eq_none] at hfind
    have hnot := hfind entry.1 (hperm.mem_iff.mpr ((mem_list (h.proper _ hfirst).2).mpr hfirst))
    exact absurd (h.proper _ hfirst).2 (by simpa using hnot)
  | some name =>
    have hne : name ≠ current := by simpa using List.find?_some hfind
    have hname : name ∈ s.names :=
      (mem_list hne).mp (hperm.mem_iff.mp (List.mem_of_find?_eq_some hfind))
    refine ⟨name, hname, ?_⟩
    rw [State.getSelectedRootfs, if_pos (.inr havailable), hfind]
    simp [(h.proper name hname).1, h.existsAt hname]

/-- With a rootfs installed, one of them is selected. -/
theorem Inv.exists_getSelectedRootfs (h : Inv s) (hperm : allAvailable.Perm s.list)
    (hany : s.rootfsAllDir ≠ []) :
    ∃ name ∈ s.names, s.getSelectedRootfs allAvailable = some name := by
  by_cases hmem : s.curr_rootfs_name ∈ s.names
  · exact ⟨_, hmem, h.getSelectedRootfs_of_mem hperm hmem⟩
  · exact h.getSelectedRootfs_of_not_mem hperm hmem hany

/-- The selected rootfs, if it is still there. -/
theorem Inv.getSelectedRootfs_of_selected (h : Inv s) (hperm : allAvailable.Perm s.list)
    {id : RootfsId} {name : Text}
    (hselected : s.selected = some id) (hentry : (name, id) ∈ s.rootfsAllDir) :
    s.getSelectedRootfs allAvailable = some name := by
  have hname : name ∈ s.names := List.mem_map_of_mem hentry
  by_cases hmem : s.curr_rootfs_name ∈ s.names
  · rw [h.getSelectedRootfs_of_mem hperm hmem]
    rcases h.choice id name hselected hentry with rfl | ⟨-, honly⟩
    · rfl
    · rw [honly, List.mem_singleton] at hmem
      rw [hmem]
  · rcases h.choice id name hselected hentry with rfl | ⟨-, honly⟩
    · exact absurd hname hmem
    · obtain ⟨other, hother, hget⟩ :=
        h.getSelectedRootfs_of_not_mem hperm hmem (List.ne_nil_of_mem hentry)
      rw [honly, List.mem_singleton] at hother
      rw [hget, hother]

theorem Sound.symlink (h : Sound s) (place : Place) : s.symlink place = .link place := by
  unfold State.symlink
  split
  case h_1 id hdir => exact absurd hdir (h.link id)
  case h_2 => rfl
  case h_3 => rfl

/-- In the states of the invariant a start uses the chosen rootfs. -/
theorem Inv.startsChoice (h : Inv s) : StartsChoice s := by
  intro allAvailable hperm
  refine ⟨fun hany => ?_, fun id name hselected hentry =>
    h.getSelectedRootfs_of_selected hperm hselected hentry⟩
  obtain ⟨name, hname, hget⟩ := h.exists_getSelectedRootfs hperm hany
  refine ⟨name, hname, (h.proper name hname).2, hget, ?_⟩
  rw [State.startEmu, hget]
  exact h.toSound.symlink (.entry name)

/-! ## What the steps preserve -/

theorem current_ne_numbered (baseName : Text) (num : Int) :
    Rootfs.numbered baseName num ≠ current := by
  intro heq
  have hminus : '-' ∈ Rootfs.numbered baseName num := List.mem_append_right _ List.mem_cons_self
  rw [heq] at hminus
  revert hminus
  decide

/-- The name of an installation is free and proper. -/
theorem targetName_proper {names : List Text} {found name : Text}
    (h : targetName digit names found = some name) :
    name ≠ [] ∧ name ≠ current ∧ name ∉ names := by
  obtain ⟨⟨baseName, num⟩, -, hnum⟩ := Option.bind_eq_some_iff.mp h
  obtain ⟨num', hfree, rfl⟩ := Option.map_eq_some_iff.mp hnum
  exact ⟨(Rootfs.proper_numbered baseName num').1, current_ne_numbered baseName num',
    Rootfs.freeNum_not_mem hfree⟩

/-- A new rootfs is not the one of any selection. -/
theorem Inv.extract (h : Inv s) {found name : Text} {after : State} (hopen : s.screen ≠ .closed)
    (hempty : ∀ ui, s.screen = .prepare ui → ui.rootfsName = [])
    (hextract : s.extract digit found = some (after, name)) :
    Inv after ∧ name ≠ current ∧ name ∉ s.names ∧
      after.rootfsAllDir = s.rootfsAllDir ++ [(name, s.installs)] ∧
      after.screen = s.screen ∧ after.installs = s.installs + 1 ∧ after.selected = s.selected := by
  obtain ⟨name', hname, heq⟩ := Option.map_eq_some_iff.mp hextract
  obtain ⟨rfl, rfl⟩ := Prod.mk.inj heq
  obtain ⟨hnonempty, hcurrent, hfree⟩ := targetName_proper hname
  refine ⟨?_, hcurrent, fun hin => hfree ((mem_list hcurrent).mpr hin), rfl, rfl, rfl, rfl⟩
  constructor
  case choice =>
    intro id other hid hentry
    rcases List.mem_append.mp hentry with hold | hnew
    · rcases h.choice id other hid hold with hpref | ⟨hclosed, -⟩
      · exact .inl hpref
      · exact absurd hclosed hopen
    · obtain ⟨-, rfl⟩ := Prod.mk.inj (List.mem_singleton.mp hnew)
      exact absurd (h.selected _ hid) (Nat.lt_irrefl _)
  constructor
  case ids =>
    rw [List.map_append, List.nodup_append]
    refine ⟨h.ids, List.nodup_singleton _, fun id hid other hother => ?_⟩
    obtain ⟨entry, hentry, rfl⟩ := List.mem_map.mp hid
    have hlt := h.bound entry hentry
    rw [List.mem_singleton.mp hother]
    exact Nat.ne_of_lt hlt
  case bound =>
    intro entry hentry
    rcases List.mem_append.mp hentry with hold | hnew
    · exact Nat.lt_succ_of_lt (h.bound entry hold)
    · rw [List.mem_singleton.mp hnew]
      exact Nat.lt_succ_self _
  case selected => exact fun id hid => Nat.lt_succ_of_lt (h.selected id hid)
  case proper =>
    intro other hother
    rw [State.names, List.map_append, List.mem_append] at hother
    rcases hother with hold | hnew
    · exact h.proper other hold
    · rw [List.mem_singleton.mp hnew]
      exact ⟨hnonempty, hcurrent⟩
  case preference => exact h.preference
  case link => exact h.link
  case prepare =>
    intro ui hui
    obtain ⟨hcurr, hinstalled, hentries⟩ := h.prepare ui hui
    refine ⟨hcurr, fun id hid => ⟨Nat.lt_succ_of_lt (hinstalled id hid).1, (hinstalled id hid).2⟩,
      fun entry hentry => ?_⟩
    rcases List.mem_append.mp hentry with hold | hnew
    · exact hentries entry hold
    · rw [List.mem_singleton.mp hnew, hempty ui hui]
      exact fun heq => absurd heq hnonempty

theorem find_eq_some {name : Text} {id : RootfsId} (h : s.find name = some id) :
    (name, id) ∈ s.rootfsAllDir := by
  obtain ⟨entry, hentry, rfl⟩ := Option.map_eq_some_iff.mp h
  have hname : decide (entry.1 = name) = true :=
    List.find?_some (p := fun entry : Text × RootfsId => decide (entry.1 = name)) hentry
  rw [← of_decide_eq_true hname]
  exact List.mem_of_find?_eq_some hentry

/-- A rootfs has one name. -/
theorem Sound.name_inj (h : Sound s) {name name' : Text} {id : RootfsId}
    (hentry : (name, id) ∈ s.rootfsAllDir)
    (hentry' : (name', id) ∈ s.rootfsAllDir) : name = name' :=
  (Prod.mk.inj (List.inj_on_of_nodup_map h.ids hentry hentry' rfl)).1

section Rename

variable {oldName newName : Text} {newFile : Place} {fails : Bool}

theorem exists_find_of_moves (h : s.moves oldName newFile fails = true) :
    ∃ id, s.find oldName = some id := by
  rw [State.moves, Bool.and_eq_true, Bool.and_eq_true] at h
  exact Option.isSome_iff_exists.mp h.1.2

/-- What a rename leaves of the entries, and the entry it makes. -/
theorem mem_renameTo (hfree : s.existsAt newFile = false)
    (hplace : s.moves oldName newFile fails = true → newFile ≠ .entry current)
    {entry : Text × RootfsId}
    (hentry : entry ∈ (s.renameTo oldName newFile fails).rootfsAllDir) :
    entry ∈ s.rootfsAllDir ∧ (s.moves oldName newFile fails = true → entry.1 ≠ oldName) ∨
      s.moves oldName newFile fails = true ∧ s.find oldName = some entry.2 ∧
        newFile = .entry entry.1 ∧
        entry.1 ∉ s.names ∧ entry.1 ≠ current := by
  unfold State.renameTo at hentry
  split at hentry
  case h_1 hfind =>
    have hstays : s.moves oldName newFile fails = false := by simp [State.moves, hfind]
    exact .inl ⟨hentry, fun hmoves => absurd (hstays.symm.trans hmoves) nofun⟩
  case h_2 id hfind =>
    split at hentry
    case isFalse hstays => exact .inl ⟨hentry, fun hmoves => absurd hmoves hstays⟩
    case isTrue hmoves =>
      have hrest : ∀ other ∈ s.rootfsAllDir.filter (fun entry => entry.1 ≠ oldName),
          other ∈ s.rootfsAllDir ∧
              (s.moves oldName newFile fails = true → other.1 ≠ oldName) := fun other hother => by
        obtain ⟨hmem, hne⟩ := List.mem_filter.mp hother
        exact ⟨hmem, fun _ => of_decide_eq_true hne⟩
      split at hentry
      case h_2 => exact .inl (hrest entry hentry)
      case h_1 name =>
        have hname : name ≠ current := fun heq => hplace hmoves (congrArg Place.entry heq)
        rw [if_neg hname] at hentry
        rcases List.mem_cons.mp hentry with rfl | hin
        · rw [State.existsAt, if_neg hname, decide_eq_false_iff_not] at hfree
          exact .inr ⟨hmoves, hfind, rfl, hfree, hname⟩
        · exact .inl (hrest entry hin)

/-- The rest is as it was. -/
theorem renameTo_same (hplace : s.moves oldName newFile fails = true → newFile ≠ .entry current) :
    ∃ entries, s.renameTo oldName newFile fails = { s with rootfsAllDir := entries } := by
  unfold State.renameTo
  split
  case h_1 => exact ⟨_, rfl⟩
  case h_2 id hfind =>
    split
    case isFalse => exact ⟨_, rfl⟩
    case isTrue hmoves =>
      split
      case h_2 => exact ⟨_, rfl⟩
      case h_1 name =>
        rw [if_neg fun hname => hplace hmoves (congrArg Place.entry hname)]
        exact ⟨_, rfl⟩

theorem Sound.ids_renameTo (h : Sound s) :
    ((s.renameTo oldName newFile fails).rootfsAllDir.map Prod.snd).Nodup := by
  have hrest : ((s.rootfsAllDir.filter fun entry => entry.1 ≠ oldName).map Prod.snd).Nodup :=
    h.ids.sublist (List.filter_sublist.map Prod.snd)
  unfold State.renameTo
  split
  case h_1 => exact h.ids
  case h_2 id hfind =>
    split
    case isFalse => exact h.ids
    case isTrue =>
      split
      case h_2 => exact hrest
      case h_1 name =>
        split
        case isTrue => exact hrest
        case isFalse =>
          refine List.nodup_cons.mpr ⟨fun hid => ?_, hrest⟩
          obtain ⟨entry, hentry, rfl⟩ := List.mem_map.mp hid
          obtain ⟨hmem, hne⟩ := List.mem_filter.mp hentry
          exact of_decide_eq_true hne (h.name_inj hmem (find_eq_some hfind))

/-- A rename to a free place keeps the directory sound. -/
theorem Sound.renameTo (h : Sound s) (hleads : Leads newName newFile)
    (hfree : s.existsAt newFile = false)
    (hplace : s.moves oldName newFile fails = true → newFile ≠ .entry current)
    (hold : ∀ ui, s.screen = .prepare ui → ui.rootfsName = oldName) :
    Sound (s.renameTo oldName newFile fails) := by
  have hmem := fun entry (hentry : entry ∈ (s.renameTo oldName newFile fails).rootfsAllDir) =>
    mem_renameTo hfree hplace hentry
  have hids : ((s.renameTo oldName newFile fails).rootfsAllDir.map Prod.snd).Nodup := h.ids_renameTo
  obtain ⟨entries, heq⟩ := renameTo_same hplace
  rw [heq] at hmem hids ⊢
  constructor
  case ids => exact hids
  case bound =>
    intro entry hentry
    rcases hmem entry hentry with ⟨hin, -⟩ | ⟨-, hfind, -⟩
    · exact h.bound entry hin
    · exact h.bound (oldName, entry.2) (find_eq_some hfind)
  case selected => exact h.selected
  case proper =>
    intro name hname
    obtain ⟨entry, hentry, rfl⟩ := List.mem_map.mp hname
    rcases hmem entry hentry with ⟨hin, -⟩ | ⟨-, -, hfile, -, hne⟩
    · exact h.proper _ (List.mem_map_of_mem hin)
    · rw [hfile] at hleads
      exact ⟨hleads.2.1, hne⟩
  case preference => exact h.preference
  case link => exact h.link
  case prepare =>
    intro ui hui
    obtain ⟨hcurr, hinstalled, hentries⟩ := h.prepare ui hui
    refine ⟨hcurr, hinstalled, fun entry hentry hname => ?_⟩
    rcases hmem entry hentry with ⟨hin, -⟩ | ⟨-, hfind, -, hnew, -⟩
    · exact hentries entry hin hname
    · have hthere : oldName ∈ s.names := List.mem_map_of_mem (f := Prod.fst) (find_eq_some hfind)
      rw [hname, hold ui hui] at hnew
      exact absurd hthere hnew

/-- A rename of a rootfs that is not the selected one. -/
theorem Inv.renameTo (h : Inv s) (hscreen : s.screen ≠ .closed) (hleads : Leads newName newFile)
    (hfree : s.existsAt newFile = false)
    (hplace : s.moves oldName newFile fails = true → newFile ≠ .entry current)
    (hold : ∀ ui, s.screen = .prepare ui → ui.rootfsName = oldName)
    (hother : s.moves oldName newFile fails = true → s.find oldName ≠ s.selected) :
    Inv (s.renameTo oldName newFile fails) := by
  refine ⟨h.toSound.renameTo hleads hfree hplace hold, ?_⟩
  have hmem := fun entry (hentry : entry ∈ (s.renameTo oldName newFile fails).rootfsAllDir) =>
    mem_renameTo hfree hplace hentry
  obtain ⟨entries, heq⟩ := renameTo_same hplace
  rw [heq] at hmem ⊢
  intro id name hid hentry
  rcases hmem (name, id) hentry with ⟨hin, -⟩ | ⟨hmoves, hfind, -⟩
  · rcases h.choice id name hid hin with hpref | ⟨hclosed, -⟩
    · exact .inl hpref
    · exact absurd hclosed hscreen
  · exact absurd (hfind.trans hid.symm) (hother hmoves)

end Rename

/-- A selection, of the one rootfs that it can find under its name. -/
theorem Sound.select (h : Sound s) {id : Option RootfsId} {place : Place}
    (hid : ∀ i, id = some i → i < s.installs)
    (hname : State.nameOf place ≠ current)
    (hentries : ∀ name i, id = some i → (name, i) ∈ s.rootfsAllDir → name = State.nameOf place ∨
      s.names = [name]) :
    Inv (s.onChangeRootfsSelect id place) := by
  constructor
  case choice =>
    intro i name hi hentry
    rcases hentries name i hi hentry with hpref | honly
    · exact .inl hpref
    · exact .inr ⟨rfl, honly⟩
  constructor
  case ids => exact h.ids
  case bound => exact h.bound
  case selected => exact hid
  case proper => exact h.proper
  case preference => exact hname
  case link =>
    intro i hi
    exact absurd ((h.symlink place).symm.trans hi) nofun
  case prepare => exact fun ui hui => absurd hui nofun

/-- The selection that follows the rename of the running rootfs. -/
theorem Inv.renameRunning (h : Inv s) {oldName newName : Text} {newFile : Place} {fails : Bool}
    (hleads : Leads newName newFile) (hfree : s.existsAt newFile = false)
    (hplace : s.moves oldName newFile fails = true → newFile ≠ .entry current)
    (hold : ∀ ui, s.screen = .prepare ui → ui.rootfsName = oldName)
    (hmoves : s.moves oldName newFile fails = true)
    (hfile : newFile = .entry (State.nameOf newFile)) :
    Inv ((s.renameTo oldName newFile fails).onChangeRootfsSelect (s.find oldName)
      (newFile.after (s.moves oldName newFile fails))) := by
  have hsound := h.toSound.renameTo hleads hfree hplace hold
  have hmem := fun entry (hentry : entry ∈ (s.renameTo oldName newFile fails).rootfsAllDir) =>
    mem_renameTo hfree hplace hentry
  obtain ⟨entries, heq⟩ := renameTo_same hplace
  rw [heq] at hmem hsound ⊢
  have hafter : newFile.after (s.moves oldName newFile fails) = newFile := by
    rw [hfile]
    rfl
  rw [hafter]
  refine hsound.select (fun id hid => h.bound _ (find_eq_some hid))
    (fun hname => ?_) fun name id hid hentry => .inl ?_
  · rw [hname] at hfile
    exact hplace hmoves hfile
  · rcases hmem (name, id) hentry with ⟨hin, hne⟩ | ⟨-, -, hnew, -⟩
    · exact absurd (h.toSound.name_inj hin (find_eq_some hid)) (hne hmoves)
    · rw [hnew]
      rfl

/-- Another screen that is not the prepare screen. -/
theorem Inv.withScreen (h : Inv s) (hscreen : s.screen ≠ .closed ∨ s.rootfsAllDir = [])
    {screen : Screen}
    (hprepare : ∀ ui, screen = .prepare ui → ui.rootfsName = [] ∧ ui.installed = none) :
    Inv { s with screen := screen } := by
  constructor
  case choice =>
    intro id name hid hentry
    rcases hscreen with hopen | hnone
    · rcases h.choice id name hid hentry with hpref | ⟨hclosed, -⟩
      · exact .inl hpref
      · exact absurd hclosed hopen
    · exact absurd (hnone ▸ hentry) List.not_mem_nil
  constructor
  case ids => exact h.ids
  case bound => exact h.bound
  case selected => exact h.selected
  case proper => exact h.proper
  case preference => exact h.preference
  case link => exact h.link
  case prepare =>
    intro ui hui
    obtain ⟨hempty, hnone⟩ := hprepare ui hui
    refine ⟨?_, fun id hid => absurd (hnone.symm.trans hid) nofun, fun entry hentry hname => ?_⟩
    · rw [hempty]
      decide
    · rw [hempty] at hname
      exact absurd hname (h.proper _ (List.mem_map_of_mem hentry)).1

/-- The app is started with the rootfs that was selected. -/
theorem Inv.startEmu (h : Inv s) (hperm : allAvailable.Perm s.list) (hany : s.rootfsAllDir ≠ []) :
    Inv (s.startEmu allAvailable) := by
  obtain ⟨name, hname, hget⟩ := h.exists_getSelectedRootfs hperm hany
  rw [State.startEmu, hget]
  constructor
  case choice =>
    intro id other hid hentry
    have hselected := h.getSelectedRootfs_of_selected hperm hid hentry
    exact .inl (Option.some.inj (hselected.symm.trans hget))
  constructor
  case ids => exact h.ids
  case bound => exact h.bound
  case selected => exact h.selected
  case proper => exact h.proper
  case preference => exact (h.proper name hname).2
  case link =>
    intro i hi
    exact absurd ((h.toSound.symlink (.entry name)).symm.trans hi) nofun
  case prepare => exact fun ui hui => absurd hui nofun

/-- Deleting from the settings keeps the invariant. -/
theorem Inv.delete (h : Inv s) (hscreen : s.screen = .settings) (rootfsName : Text)
    (gone : List Text) :
    Inv (s.delete rootfsName gone) := by
  unfold State.delete
  split
  case isTrue => exact h
  case isFalse =>
    have hsub :
        ∀ entry ∈ s.rootfsAllDir.filter (fun entry : Text × RootfsId => entry.1 ∉ gone),
          entry ∈ s.rootfsAllDir :=
      fun entry hentry => (List.mem_filter.mp hentry).1
    constructor
    case choice =>
      intro id name hid hentry
      rcases h.choice id name hid (hsub _ hentry) with hpref | ⟨hclosed, -⟩
      · exact .inl hpref
      · exact absurd (hscreen.symm.trans hclosed) nofun
    constructor
    case ids => exact h.ids.sublist (List.filter_sublist.map Prod.snd)
    case bound => exact fun entry hentry => h.bound entry (hsub entry hentry)
    case selected => exact h.selected
    case proper =>
      intro name hname
      obtain ⟨entry, hentry, rfl⟩ := List.mem_map.mp hname
      exact h.proper _ (List.mem_map_of_mem (hsub entry hentry))
    case preference => exact h.preference
    case link =>
      intro id hid
      dsimp only at hid
      split at hid
      case isTrue => exact absurd hid nofun
      case isFalse => exact h.link id hid
    case prepare => exact fun ui hui => absurd (hscreen.symm.trans hui) nofun

/-! ## Runs -/

theorem inv_start : Inv start := by
  refine ⟨⟨List.nodup_nil, nofun, nofun, nofun, by decide, nofun, nofun⟩, nofun⟩

/-- Leaving keeps the invariant. -/
theorem Inv.close (h : Inv s) : Inv { s with screen := .closed } := by
  constructor
  case choice =>
    intro id name hid hentry
    rcases h.choice id name hid hentry with hpref | ⟨-, honly⟩
    · exact .inl hpref
    · exact .inr ⟨rfl, honly⟩
  exact { h.toSound with prepare := fun ui hui => absurd hui nofun }

/-- The installed rootfs is shown in the prepare screen. -/
theorem Inv.install (h : Inv s) {found name : Text} {after : State} {ui : RootfsSelect}
    (hui : s.screen = .prepare ui) (hempty : ui.rootfsName = [])
    (hextract : s.extract digit found = some (after, name)) :
    Inv { after with
      screen := .prepare { ui with rootfsName := name, installed := some s.installs } } := by
  obtain ⟨hafter, hcurr, hfree, hentries, hscreen, hinstalls, hselected⟩ :=
    h.extract (hui ▸ nofun) (fun ui' hui' => Screen.prepare.inj (hui.symm.trans hui') ▸ hempty)
      hextract
  constructor
  case choice =>
    intro id other hid hentry
    rcases hafter.choice id other hid hentry with hpref | ⟨hclosed, -⟩
    · exact .inl hpref
    · exact absurd (hclosed.symm.trans (hscreen.trans hui)) nofun
  refine { hafter.toSound with prepare := fun ui' hui' => ?_ }
  obtain rfl := Screen.prepare.inj hui'
  refine ⟨hcurr, fun id hid => ?_, fun entry hentry hname => ?_⟩
  · obtain rfl := Option.some.inj hid
    refine ⟨hinstalls ▸ Nat.lt_succ_self _, fun heq => ?_⟩
    exact absurd (h.selected _ (hselected.symm.trans heq)) (Nat.lt_irrefl _)
  · rw [hentries] at hentry
    rcases List.mem_append.mp hentry with hold | hnew
    · have hthere : entry.1 ∈ s.names := List.mem_map_of_mem hold
      have hname' : entry.1 = name := hname
      rw [hname'] at hthere
      exact absurd hthere hfree
    · rw [List.mem_singleton.mp hnew]

theorem find_lt (h : Sound s) {name : Text} (id : RootfsId) (hfind : s.find name = some id) :
    id < s.installs :=
  h.bound _ (find_eq_some hfind)

/-- A selection by the name of an entry. -/
theorem Inv.selectEntry (h : Inv s) {name : Text} (hname : name ∈ s.names) :
    Inv (s.onChangeRootfsSelect (s.find name) (.entry name)) := by
  refine h.toSound.select (find_lt h.toSound) (h.proper name hname).2 fun other id hfind hentry =>
    .inl ?_
  exact h.toSound.name_inj hentry (find_eq_some hfind)

/-- What is possible on the screen that installs only. -/
theorem of_prepare {next : RootfsSelect → Option State}
    (h : (match s.screen with
      | .prepare ui => next ui
      | _ => none) = some s') : ∃ ui, s.screen = .prepare ui ∧ next ui = some s' := by
  split at h
  case h_1 ui hui => exact ⟨ui, hui, h⟩
  case h_2 => cases h

/-- A start goes to the prepare screen, or starts the rootfs that was selected. -/
theorem Inv.step_launch {allAvailable : List Text} (h : Inv s)
    (hstep : step digit s (.launch allAvailable) = some s') : Inv s' := by
  simp only [step] at hstep
  split at hstep
  case isFalse => cases hstep
  case isTrue hlaunch =>
    obtain ⟨hclosed, hperm⟩ := hlaunch
    by_cases hnone : s.rootfsAllDir = []
    · have hnoRootfs : s.haveNoRootfs = true := by
        rw [State.haveNoRootfs, hnone]
        rfl
      rw [hnoRootfs] at hstep
      cases hstep
      refine h.withScreen (.inr hnone) fun ui hui => ?_
      obtain rfl := Screen.prepare.inj hui
      exact ⟨rfl, rfl⟩
    · have hany : s.haveNoRootfs = false := by
        obtain ⟨entry, hentry⟩ := List.exists_mem_of_ne_nil _ hnone
        rw [State.haveNoRootfs, Bool.not_eq_false', List.any_eq_true]
        exact ⟨entry, hentry, rfl⟩
      rw [hany] at hstep
      cases hstep
      exact h.startEmu hperm hnone

/-- What is installed without the prepare screen changes no choice. -/
theorem Inv.step_installThrows {found : Text} (h : Inv s)
    (hstep : step digit s (.installThrows found) = some s') :
    Inv s' := by
  have hextracted (hopen : s.screen ≠ .closed)
    (hempty : ∀ ui, s.screen = .prepare ui → ui.rootfsName = [])
      (hmap : (s.extract digit found).map Prod.fst = some s') : Inv s' := by
    obtain ⟨⟨after, name⟩, hextract, rfl⟩ := Option.map_eq_some_iff.mp hmap
    exact (h.extract hopen hempty hextract).1
  simp only [step] at hstep
  split at hstep
  case h_1 ui hui =>
    split at hstep
    case isFalse => cases hstep
    case isTrue hempty =>
      exact hextracted (hui ▸ nofun)
        (fun ui' hui' => Screen.prepare.inj (hui.symm.trans hui') ▸ hempty) hstep
  case h_2 hsettings =>
    exact hextracted (hsettings ▸ nofun)
      (fun ui hui => absurd (hsettings.symm.trans hui) nofun) hstep
  case h_3 => cases hstep

/-- Going back keeps the invariant. -/
theorem Inv.step_back (h : Inv s) (hstep : step digit s .back = some s') : Inv s' := by
  obtain ⟨ui, hui, hstep⟩ := of_prepare hstep
  cases hstep
  cases ui.overSettings with
  | true => exact h.withScreen (.inl (hui ▸ nofun)) fun ui hui => absurd hui nofun
  | false => exact h.close

/-- Choosing a rootfs keeps the invariant. -/
theorem Inv.step_setCurrent {isSetCurrent : Bool} (h : Inv s)
    (hstep : step digit s (.setCurrent isSetCurrent) = some s') : Inv s' := by
  obtain ⟨ui, hui, hstep⟩ := of_prepare hstep
  split at hstep
  case isFalse => cases hstep
  case isTrue =>
    cases hstep
    constructor
    case choice =>
      intro id name hid hentry
      rcases h.choice id name hid hentry with hpref | ⟨hclosed, -⟩
      · exact .inl hpref
      · exact absurd (hclosed.symm.trans hui) nofun
    refine { h.toSound with prepare := fun ui' hui' => ?_ }
    obtain rfl := Screen.prepare.inj hui'
    exact h.prepare ui hui

/-- What was installed is not what was selected before. -/
theorem Inv.step_renameInstalled {newName : Text} {newFile : Place} {fails : Bool} (h : Inv s)
    (hfollows : FollowsRename s (.renameInstalled newName newFile fails))
    (hstep : step digit s (.renameInstalled newName newFile fails) = some s') : Inv s' := by
  obtain ⟨ui, hui, hstep⟩ := of_prepare hstep
  split at hstep
  case isFalse => cases hstep
  case isTrue hrename =>
    obtain ⟨-, -, -, hleads⟩ := hrename
    simp only [FollowsRename, hui] at hfollows
    cases hexists : s.alreadyExists newName newFile with
    | true =>
      simp only [hexists, if_true, Option.some.injEq] at hstep
      exact hstep ▸ h
    | false =>
      simp only [hexists, Bool.false_eq_true, if_false, Option.some.injEq] at hstep
      subst hstep
      have hfree := (Bool.or_eq_false_iff.mp hexists).2
      refine h.renameTo (hui ▸ nofun) hleads hfree (hfollows hexists)
        (fun ui' hui' => ?_) fun hmoves heq => ?_
      · rw [Screen.prepare.inj (hui.symm.trans hui')]
      · obtain ⟨id, hfind⟩ := exists_find_of_moves hmoves
        have hinstalled := (h.prepare ui hui).2.2 _ (find_eq_some hfind) rfl
        exact ((h.prepare ui hui).2.1 id hinstalled).2 (heq.symm.trans hfind)

/-- The installed rootfs is selected, or the selection stays. -/
theorem Inv.step_finish (h : Inv s) (hfollows : FollowsRename s .finish)
    (hstep : step digit s .finish = some s') : Inv s' := by
  obtain ⟨ui, hui, hstep⟩ := of_prepare hstep
  split at hstep
  case isFalse => cases hstep
  case isTrue =>
    simp only [FollowsRename, hui] at hfollows
    cases hset : ui.isSetCurrent with
    | false =>
      simp only [hset, Bool.false_eq_true, if_false, Option.some.injEq] at hstep
      exact hstep ▸ h.close
    | true =>
      simp only [hset, if_true, Option.some.injEq] at hstep
      subst hstep
      refine h.toSound.select (fun id hid => ((h.prepare ui hui).2.1 id hid).1)
        (h.prepare ui hui).1 ?_
      intro name id hid hentry
      rcases hfollows hset (name, id) hentry hid.symm with hname | honly
      · exact .inl hname
      · exact .inr (congrArg (List.map Prod.fst) honly)

/-- The selection goes with the rootfs that runs. -/
theorem Inv.step_rename {oldName newName : Text} {newFile : Place} {fails : Bool} (h : Inv s)
    (hfollows : FollowsRename s (.rename oldName newName newFile fails))
    (hstep : step digit s (.rename oldName newName newFile fails) = some s') : Inv s' := by
  simp only [step] at hstep
  split at hstep
  case isFalse => cases hstep
  case isTrue hrename =>
    obtain ⟨hsettings, hold, -, -, hleads⟩ := hrename
    have hprepare : ∀ ui, s.screen = .prepare ui → ui.rootfsName = oldName :=
      fun ui hui => absurd (hsettings.symm.trans hui) nofun
    cases hexists : s.alreadyExists newName newFile with
    | true =>
      simp only [hexists, if_true, Option.some.injEq] at hstep
      exact hstep ▸ h
    | false =>
      simp only [hexists, Bool.false_eq_true, if_false] at hstep
      have hfree := (Bool.or_eq_false_iff.mp hexists).2
      obtain ⟨hplace, hrunning, hother⟩ := hfollows hexists
      split at hstep
      case isFalse hne =>
        cases hstep
        exact h.renameTo (hsettings ▸ nofun) hleads hfree hplace hprepare (hother hne)
      case isTrue heq =>
        cases hstep
        obtain ⟨hmoves, hfile⟩ := hrunning heq
        exact h.renameRunning hleads hfree hplace hprepare hmoves hfile

/-- **Step lemma.** Every step that follows the renames keeps the invariant. -/
theorem Inv.next (h : Inv s) (hfollows : FollowsRename s a) (hstep : step digit s a = some s') :
    Inv s' := by
  cases a with
  | launch allAvailable => exact h.step_launch hstep
  | close =>
    cases hstep
    exact h.close
  | navigateToNewRootfs =>
    simp only [step] at hstep
    split at hstep
    case isFalse => cases hstep
    case isTrue hsettings =>
      cases hstep
      refine h.withScreen (.inl (hsettings ▸ nofun)) fun ui hui => ?_
      obtain rfl := Screen.prepare.inj hui
      exact ⟨rfl, rfl⟩
  | install found =>
    obtain ⟨ui, hui, hstep⟩ := of_prepare hstep
    split at hstep
    case isFalse => cases hstep
    case isTrue hempty =>
      obtain ⟨⟨after, name⟩, hextract, rfl⟩ := Option.map_eq_some_iff.mp hstep
      exact h.install hui hempty hextract
  | installThrows found => exact h.step_installThrows hstep
  | setCurrent isSetCurrent => exact h.step_setCurrent hstep
  | renameInstalled newName newFile fails => exact h.step_renameInstalled hfollows hstep
  | finish => exact h.step_finish hfollows hstep
  | back => exact h.step_back hstep
  | rename oldName newName newFile fails => exact h.step_rename hfollows hstep
  | select rootfsName =>
    simp only [step] at hstep
    split at hstep
    case isFalse => cases hstep
    case isTrue hselect =>
      cases hstep
      exact h.selectEntry hselect.2.1
  | delete rootfsName gone =>
    simp only [step] at hstep
    split at hstep
    case isFalse => cases hstep
    case isTrue hdelete =>
      cases hstep
      exact h.delete hdelete.1 rootfsName gone

/-- **The rootfs the user chose is the one started next**, in every run in which no rename gets in
between. -/
theorem startsChoice_of_followsRename {actions : List Action}
    (h : run (step digit) start actions = some s)
    (hfollows : Meets (step digit) FollowsRename start actions) : StartsChoice s :=
  (run_induction (fun hinv hok hstep => Inv.next hinv hok hstep) inv_start hfollows h).startsChoice

/-- A first rootfs is installed, started and renamed in the settings. -/
def renamedInSettings : List Action :=
  [.launch [], .install "ubuntu".toList, .finish, .launch [current, "ubuntu-1".toList],
    .rename "ubuntu-1".toList "jammy".toList (.entry "jammy".toList) false,
      .launch ["jammy".toList, current]]

theorem renamedInSettings_startsChoice :
    StartsChoice ((run (step asciiDigit) start renamedInSettings).get (by decide +kernel)) :=
  startsChoice_of_followsRename (Option.some_get _).symm (by decide +kernel)

/-- A second one is installed and renamed before the button is pressed. -/
def renamedBeforeFinish : List Action :=
  renamedInSettings ++ [.navigateToNewRootfs, .install "debian".toList,
    .renameInstalled "bookworm".toList (.entry "bookworm".toList) false, .finish]

/-- The listing gives the first one, and so it is started. -/
theorem renamedBeforeFinish_not_startsChoice :
    ¬StartsChoice ((run (step asciiDigit) start renamedBeforeFinish).get (by decide +kernel)) := by
  intro hstarts
  have hnext :=
    (hstarts ["jammy".toList, "bookworm".toList, current] (by decide +kernel)).2 1 "bookworm".toList
    (by decide +kernel) (by decide +kernel)
  revert hnext
  decide +kernel

end WinEmulator.App.RootfsChoice
