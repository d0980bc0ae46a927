import WinEmulator.App.Proot
import WinEmulator.Lib.ShWords

/-!
# The words proot is started with

When `sh -c` makes of the string that `attach` builds the words it was built from, whatever files
there are. The fixed flags, the app's own directories and the numbers are plain wherever they stand,
so everything depends on the settings, on the chosen user and on `/etc/environment`. The values of a
variable there add up, and do not matter when the app puts its own in their place.
-/

set_option autoImplicit false

namespace WinEmulator.App

open WinEmulator.Lib WinEmulator.Lib.Sh

theorem allInert_append {s t : Text} : AllInert (s ++ t) ↔ AllInert s ∧ AllInert t :=
  List.forall_mem_append

/-- An inert text after an inert beginning. -/
theorem plain_append {s t : Text} (hs : Opening s) (ne : s ≠ []) (ht : AllInert t) :
    Plain (s ++ t) := by
  have hhead : (s ++ t).head? = s.head? := List.head?_append_of_ne_nil s ne
  refine Opening.plain ⟨allInert_append.mpr ⟨hs.inert, ht⟩, ?_, ?_⟩
    (List.append_ne_nil_of_left_ne_nil ne t)
  · rw [hhead]
    exact hs.not_comment
  · rw [hhead]
    exact hs.not_tilde

/-! ## The fixed parts -/

theorem inert_of_isDigit {c : Char} (h : c.isDigit = true) : Inert c := by
  have hbounds : 48 ≤ c.toNat ∧ c.toNat ≤ 57 := by
    simp only [Char.isDigit, Bool.and_eq_true, decide_eq_true_eq] at h
    exact ⟨UInt32.le_iff_toNat_le.mp h.1, UInt32.le_iff_toNat_le.mp h.2⟩
  have hdigits : ∀ n ∈ List.range 10, Inert (Char.ofNat (48 + n)) := by decide
  have hc := hdigits (c.toNat - 48) (List.mem_range.mpr (by omega))
  rwa [show 48 + (c.toNat - 48) = c.toNat by omega, Char.ofNat_toNat] at hc

theorem allInert_toDigits (n : Nat) : AllInert (Nat.toDigits 10 n) :=
  fun _ hc => inert_of_isDigit (Nat.isDigit_of_mem_toDigits (by decide) (by decide) hc)

theorem allInert_decimal (n : Int) : AllInert (decimal n) := by
  unfold decimal
  split
  · exact List.forall_mem_cons.mpr ⟨by decide, allInert_toDigits _⟩
  · exact allInert_toDigits _

theorem allInert_rootfsCurrDir (dirs : AppDirs) : AllInert dirs.rootfsCurrDir :=
  allInert_append.mpr ⟨allInert_append.mpr ⟨dirs.filesDir_inert, by decide⟩, by decide⟩

theorem allInert_tmpDir (dirs : AppDirs) : AllInert dirs.tmpDir :=
  allInert_append.mpr ⟨dirs.cacheDir_inert, by decide⟩

/-- A binding of a path without a special character is one plain word. -/
theorem plain_bind {path : Text} (h : AllInert path) : Plain (AttachInput.bind path) :=
  plain_append (by decide) (by decide) h

/-! ## Environment variables -/

/-- The entries of `/etc/environment` as they enter the map. -/
def AttachInput.environmentEntries (x : AttachInput) : List (Text × Text) :=
  ((x.environment.getD []).filterMap environmentEntry).map fun e => (trim e.1, trim e.2)

/-- The values of a name one after the other, the last one first, with colons between them. -/
def valueAmong (es : List (Text × Text)) (k : Text) : Text :=
  [':'].intercalate ((es.filter fun e => e.1 = k).map Prod.snd).reverse

/-- The value `/etc/environment` gives a variable. -/
def AttachInput.environmentValue (x : AttachInput) (k : Text) : Text :=
  valueAmong x.environmentEntries k

/-- The names of the variables `attach` sets itself. -/
def ownNames : List Text :=
  ["LANG", "HOME", "USER", "TMPDIR", "DISPLAY", "PULSE_SERVER"].map String.toList

/-- The last entry of a name decides its value. -/
theorem valueAmong_snoc_self (es : List (Text × Text)) (k v : Text) :
    valueAmong (es ++ [(k, v)]) k
      = EnvMap.newValue v false (if k ∈ es.map Prod.fst then some (valueAmong es k) else none) := by
  unfold valueAmong
  rw [List.filter_append, List.filter_cons_of_pos (by simp), List.filter_nil, List.map_append,
    List.reverse_append]
  show [':'].intercalate (v :: ((es.filter fun e => e.1 = k).map Prod.snd).reverse) = _
  by_cases hk : k ∈ es.map Prod.fst
  · obtain ⟨e, he, hfst⟩ := List.mem_map.mp hk
    have hne : ((es.filter fun e => e.1 = k).map Prod.snd).reverse ≠ [] := by
      refine List.ne_nil_of_mem (a := e.2) (List.mem_reverse.mpr (List.mem_map.mpr ⟨e, ?_, rfl⟩))
      exact List.mem_filter.mpr ⟨he, by simpa using hfst⟩
    rw [if_pos hk, List.intercalate_cons_of_ne_nil hne, List.append_assoc]
    rfl
  · have hnil : (es.filter fun e => e.1 = k) = [] := by
      refine List.filter_eq_nil_iff.mpr fun e he => ?_
      simpa using fun h : e.1 = k => hk (List.mem_map.mpr ⟨e, he, h⟩)
    rw [if_neg hk, hnil]
    exact List.intercalate_singleton

theorem valueAmong_snoc_other (es : List (Text × Text)) {k k' : Text} (v : Text) (h : k' ≠ k) :
    valueAmong (es ++ [(k, v)]) k' = valueAmong es k' := by
  unfold valueAmong
  rw [List.filter_append, List.filter_cons_of_neg (by simpa using h.symm), List.filter_nil,
    List.append_nil]

/-- Values put in front of each other add up. -/
theorem mem_foldl_front (es : List (Text × Text)) (e : Text × Text) :
    e ∈ (es.foldl (fun m e => EnvMap.put m e.1 e.2 false) .empty).entries ↔
      e.1 ∈ (es.map fun e => (trim e.1, trim e.2)).map Prod.fst ∧
        e.2 = valueAmong (es.map fun e => (trim e.1, trim e.2)) e.1 := by
  induction es using List.reverseRecOn generalizing e with
  | nil => exact ⟨fun h => (by cases h), fun h => (by cases h.1)⟩
  | append_singleton es last ih =>
    have hget :
        LinkedMap.get (es.foldl (fun m e => EnvMap.put m e.1 e.2 false) .empty) (trim last.1)
        = if trim last.1 ∈ (es.map fun e => (trim e.1, trim e.2)).map Prod.fst then
            some (valueAmong (es.map fun e => (trim e.1, trim e.2)) (trim last.1)) else none := by
      split
      next hk => exact LinkedMap.get_of_mem _ ((ih (_, _)).mpr ⟨hk, rfl⟩)
      next hk =>
        refine Option.eq_none_iff_forall_ne_some.mpr fun v hv => ?_
        exact hk ((ih _).mp (LinkedMap.mem_of_get _ hv)).1
    rw [List.foldl_append, List.map_append, List.foldl_cons, List.foldl_nil]
    show e ∈ (LinkedMap.update _ _ _).entries ↔
      e.1 ∈ (_ ++ [(trim last.1, trim last.2)]).map Prod.fst ∧
      e.2 = valueAmong (_ ++ [(trim last.1, trim last.2)]) e.1
    rw [LinkedMap.mem_update, hget, ← valueAmong_snoc_self, ih, List.map_append, List.mem_append]
    by_cases hk : e.1 = trim last.1
    · rw [hk]
      simp only [ne_eq, not_true_eq_false, and_false, false_or, List.map_cons, List.map_nil,
        List.mem_singleton,
        or_true, true_and]
      exact ⟨fun h => by rw [h], fun h => Prod.ext hk h⟩
    · rw [valueAmong_snoc_other _ _ hk]
      have hne : e ≠ (trim last.1, valueAmong ((es.map fun e => (trim e.1, trim e.2))
          ++ [(trim last.1, trim last.2)]) (trim last.1)) := fun h => hk (congrArg Prod.fst h)
      simp only [ne_eq, hk, not_false_eq_true, and_true, hne, or_false, List.map_cons, List.map_nil,
        List.mem_singleton]

/-- Values put in place of others stand. -/
theorem mem_foldl_over (es : List (Text × Text)) (m : EnvMap)
    (hnodup : (es.map fun e => trim e.1).Nodup)
    (e : Text × Text) :
    e ∈ (es.foldl (fun m e => EnvMap.put m e.1 e.2 true) m).entries ↔
      e ∈ es.map (fun e => (trim e.1, trim e.2)) ∨ e ∈ m.entries ∧ e.1 ∉ es.map fun e =>
        trim e.1 := by
  induction es generalizing m with
  | nil => simp
  | cons e₁ es ih =>
    obtain ⟨hnew, hrest⟩ := List.nodup_cons.mp hnodup
    have hvalue : ∀ old, EnvMap.newValue (trim e₁.2) true old = trim e₁.2 := by
      intro old
      cases old <;> rfl
    have hput : e ∈ (EnvMap.put m e₁.1 e₁.2 true).entries ↔
        (e ∈ m.entries ∧ e.1 ≠ trim e₁.1) ∨ e = (trim e₁.1, trim e₁.2) := by
      rw [← hvalue (m.get (trim e₁.1))]
      exact m.mem_update _ _
    rw [List.foldl_cons, ih _ hrest, hput, List.map_cons, List.map_cons, List.mem_cons,
      List.mem_cons]
    constructor
    · rintro (h | ⟨⟨hm, hne⟩ | rfl, hout⟩)
      · exact .inl (.inr h)
      · exact .inr ⟨hm, not_or.mpr ⟨hne, hout⟩⟩
      · exact .inl (.inl rfl)
    · rintro ((rfl | h) | ⟨hm, hout⟩)
      · exact .inr ⟨.inr rfl, hnew⟩
      · exact .inl h
      · exact .inr ⟨.inl ⟨hm, fun h => hout (.inl h)⟩, fun h => hout (.inr h)⟩

variable (digit : Char → Option Nat) (x : AttachInput)

/-- The variables of the login shell: the app's own, and those of `/etc/environment` with other
names. -/
theorem mem_loginEnvs (e : Text × Text) :
    e ∈ (x.loginEnvs digit).entries ↔
      e ∈ (x.ownEnvs digit).map (fun e => (trim e.1, trim e.2)) ∨
        e.1 ∈ x.environmentEntries.map Prod.fst ∧ e.1 ∉ ownNames ∧
          e.2 = x.environmentValue e.1 := by
  have hnames : (x.ownEnvs digit).map (fun e => trim e.1) = ownNames := rfl
  have hnodup : ownNames.Nodup := by decide +kernel
  unfold AttachInput.loginEnvs readEtcEnvironment
  rw [mem_foldl_over _ _ (hnames ▸ hnodup), hnames, mem_foldl_front, and_assoc,
    and_comm (b := e.1 ∉ ownNames)]
  rfl

/-! ## The whole command -/

/-- The words that bind the streams are plain. -/
theorem plain_streamBinds : ∀ w ∈ x.streamBinds, Plain w := by
  intro w hw
  obtain ⟨b, hb, hbind⟩ := List.mem_filterMap.mp hw
  split at hbind
  · cases hbind
  · cases hbind
    simp only [List.mem_cons, List.not_mem_nil, or_false] at hb
    rcases hb with rfl | rfl | rfl <;> exact Opening.plain (by decide +kernel) (by decide +kernel)

/-- The words that bind the files of `/proc` are plain. -/
theorem plain_fakeProcBinds : ∀ w ∈ x.fakeProcBinds, Plain w := by
  intro w hw
  obtain ⟨b, hb, hbind⟩ := List.mem_filterMap.mp hw
  unfold AttachInput.bindIfNotReadable at hbind
  split at hbind
  · cases hbind
  · cases hbind
    refine plain_bind (allInert_append.mpr ⟨allInert_rootfsCurrDir x.dirs, ?_⟩)
    simp only [List.mem_cons, List.not_mem_nil, or_false] at hb
    rcases hb with rfl | rfl | rfl | rfl | rfl | rfl | rfl <;> decide +kernel

/-- What the settings, the chosen user and `/etc/environment` must be for the words to come back. -/
structure AttachInput.Transparent : Prop where
  options : ∀ o ∈ x.options, Plain o
  sharedPaths : ∀ p ∈ x.sharedPaths, Plain (AttachInput.bind p)
  lang : Plain ("LANG=".toList ++ trim x.lang)
  user : Plain ("USER=".toList ++ trim (x.userInfo digit).name)
  home : Plain ("HOME=".toList ++ trim (x.userInfo digit).home)
  cwd : Plain ("--cwd=".toList ++ (x.userInfo digit).home)
  shell : Plain (x.userInfo digit).shell
  environment : ∀ k ∈ x.environmentEntries.map Prod.fst, k ∉ ownNames →
    Plain (k ++ '=' :: x.environmentValue k)

/-- The environment is passed unchanged if and only if each of its words is plain. -/
theorem plain_envs : (∀ w ∈ EnvMap.toArray (x.loginEnvs digit), Plain w) ↔
    Plain ("LANG=".toList ++ trim x.lang) ∧ Plain ("HOME=".toList ++ trim (x.userInfo digit).home) ∧
      Plain ("USER=".toList ++ trim (x.userInfo digit).name) ∧
      ∀ k ∈ x.environmentEntries.map Prod.fst, k ∉ ownNames →
        Plain (k ++ '=' :: x.environmentValue k) := by
  unfold EnvMap.toArray
  rw [List.forall_mem_map]
  constructor
  · intro h
    have hown :
        ∀ e ∈ (x.ownEnvs digit).map (fun e => (trim e.1, trim e.2)), Plain (e.1 ++ '=' :: e.2) :=
      fun e he => h e ((mem_loginEnvs digit x e).mpr (.inl he))
    refine ⟨hown _ (.head _), hown _ (.tail _ (.head _)), hown _ (.tail _ (.tail _ (.head _))), ?_⟩
    exact fun k hk hout => h (k, _) ((mem_loginEnvs digit x _).mpr (.inr ⟨hk, hout, rfl⟩))
  · rintro ⟨hlang, hhome, hname, henvironment⟩ e he
    rcases (mem_loginEnvs digit x e).mp he with he | ⟨hk, hout, hvalue⟩
    · have hown :
          ∀ e ∈ (x.ownEnvs digit).map (fun e => (trim e.1, trim e.2)),
            Plain (e.1 ++ '=' :: e.2) := by
        simp only [AttachInput.ownEnvs, List.map_cons, List.map_nil, List.forall_mem_cons]
        exact ⟨hlang, hhome, hname, Opening.plain (by decide) (by decide),
          Opening.plain (by decide) (by decide),
          Opening.plain (by decide) (by decide), fun e he => by cases he⟩
      exact hown e he
    · rw [hvalue]
      exact henvironment e.1 hk hout

/-- The fixed words between the options and the shared paths. -/
theorem plain_flags (cwd : Plain ("--cwd=".toList ++ (x.userInfo digit).home)) :
    ∀ w ∈ ["--kernel-release=6.2.1-PRoot-Distro".toList,
      "--rootfs=".toList ++ x.dirs.rootfsCurrDir,
      "--change-id=".toList ++
        (decimal (x.userInfo digit).uid ++ ':' :: decimal (x.userInfo digit).gid),
      "--cwd=".toList ++ (x.userInfo digit).home,
      AttachInput.bind (x.dirs.tmpDir ++ ":/tmp".toList),
      AttachInput.bind (x.dirs.rootfsCurrDir ++ "/tmp:/dev/shm".toList),
      AttachInput.bind "/sys".toList,
      AttachInput.bind "/proc/self/fd:/dev/fd".toList,
      AttachInput.bind "/proc".toList,
      AttachInput.bind "/dev/urandom:/dev/random".toList,
      AttachInput.bind "/dev".toList], Plain w := by
  have hrootfs := allInert_rootfsCurrDir x.dirs
  have hids : AllInert (decimal (x.userInfo digit).uid ++ ':' :: decimal (x.userInfo digit).gid) :=
    allInert_append.mpr
      ⟨allInert_decimal _, List.forall_mem_cons.mpr ⟨by decide, allInert_decimal _⟩⟩
  simp only [List.forall_mem_cons]
  refine ⟨Opening.plain (by decide) (by decide), plain_append (by decide) (by decide) hrootfs,
    plain_append (by decide) (by decide) hids, cwd, ?_, ?_, plain_bind (by decide),
      plain_bind (by decide),
    plain_bind (by decide), plain_bind (by decide), plain_bind (by decide), fun w hw => by cases hw⟩
  · exact plain_bind (allInert_append.mpr ⟨allInert_tmpDir x.dirs, by decide⟩)
  · exact plain_bind (allInert_append.mpr ⟨hrootfs, by decide⟩)

/-- The command name is an absolute path. -/
theorem prootBin_eq (dirs : AppDirs) : ∃ cs, dirs.prootBin = '/' :: cs ∧ AllInert cs := by
  have hinert := dirs.filesDir_inert
  have habsolute := dirs.filesDir_absolute
  unfold AppDirs.prootBin
  cases hfiles : dirs.filesDir with
  | nil =>
    rw [hfiles] at habsolute
    cases habsolute
  | cons c cs =>
    rw [hfiles] at habsolute hinert
    cases habsolute
    refine ⟨cs ++ "/proot".toList, rfl, allInert_append.mpr ⟨?_, by decide⟩⟩
    exact (List.forall_mem_cons.mp hinert).2

theorem plain_prootBin (dirs : AppDirs) : Plain dirs.prootBin := by
  obtain ⟨cs, heq, hcs⟩ := prootBin_eq dirs
  rw [heq]
  exact plain_append (s := ['/']) (by decide) (by decide) hcs

/-- The words before the user's command are plain if and only if the input is transparent. -/
theorem plain_prootCmdProotPart_iff :
    (∀ w ∈ x.prootCmdProotPart digit, Plain w) ↔ x.Transparent digit := by
  unfold AttachInput.prootCmdProotPart
  constructor
  · intro h
    simp only [List.forall_mem_append] at h
    obtain ⟨⟨⟨⟨⟨⟨⟨⟨⟨-, hoptions⟩, hflags⟩, -⟩, -⟩, -⟩, hshared⟩, -⟩, henvs⟩, htail⟩ := h
    obtain ⟨hlang, hhome, huser, henvironment⟩ := (plain_envs digit x).mp henvs
    refine ⟨hoptions, ?_, hlang, huser, hhome, ?_, htail _ List.mem_cons_self, henvironment⟩
    · exact fun p hp => hshared _ (List.mem_map_of_mem hp)
    · exact hflags ("--cwd=".toList ++ (x.userInfo digit).home) (by simp)
  · intro h
    have henvs := (plain_envs digit x).mpr ⟨h.lang, h.home, h.user, h.environment⟩
    simp only [List.forall_mem_append]
    refine ⟨⟨⟨⟨⟨⟨⟨⟨⟨?_, h.options⟩, plain_flags digit x h.cwd⟩, plain_streamBinds x⟩, ?_⟩,
      plain_fakeProcBinds x⟩, ?_⟩, ?_⟩, henvs⟩, ?_⟩
    · exact List.forall_mem_singleton.mpr (plain_prootBin x.dirs)
    · refine List.forall_mem_singleton.mpr (plain_bind ?_)
      exact allInert_append.mpr ⟨allInert_rootfsCurrDir x.dirs, by decide⟩
    · intro w hw
      obtain ⟨p, hp, rfl⟩ := List.mem_map.mp hw
      exact h.sharedPaths p hp
    · simp only [List.forall_mem_cons]
      exact ⟨Opening.plain (by decide) (by decide), Opening.plain (by decide) (by decide),
        fun w hw => by cases hw⟩
    · exact List.forall_mem_cons.mpr
        ⟨h.shell, List.forall_mem_singleton.mpr (Opening.plain (by decide) (by decide))⟩

/-- **The words proot receives are the words `attach` listed**, whatever surrounds the shell and
whatever files there are, if and only if every word that comes from outside the app is transparent
to it. -/
theorem words_of_command_iff :
    (∀ env files, simpleCommand env files (x.command digit) = some (x.prootCmdProotPart digit)) ↔
      x.Transparent digit := by
  rw [← plain_prootCmdProotPart_iff]
  obtain ⟨cs, heq, -⟩ := prootBin_eq x.dirs
  obtain ⟨ws, hwords⟩ : ∃ ws, x.prootCmdProotPart digit = ('/' :: cs) :: ws := by
    refine ⟨(x.prootCmdProotPart digit).tail, ?_⟩
    rw [← heq]
    rfl
  unfold AttachInput.command
  rw [hwords]
  exact simpleCommand_join_iff

/-- A default installation with one shared folder that has a space in its name. -/
def sharedWithSpace : AttachInput where
  dirs := .primary
  options := ["-L", "--link2symlink", "--sysvipc", "--kill-on-exit"].map String.toList
  sharedPaths := ["/storage/emulated/0/My Files".toList]
  lang := "en_US.utf8".toList
  lastSelectedUser := none
  passwd := some ["root:x:0:0:root:/root:/bin/bash".toList]
  environment := none
  exists_ _ := true
  canRead _ := true

/-- The shell makes two words of it, and not the words `attach` listed. -/
theorem words_not_of_command_sharedWithSpace :
    ((simpleCommand bare noFiles (sharedWithSpace.command asciiDigit)).any fun ws =>
        "--bind=/storage/emulated/0/My".toList ∈ ws ∧ "Files".toList ∈ ws) = true ∧
      ¬ ∀ env files, simpleCommand env files (sharedWithSpace.command asciiDigit)
        = some (sharedWithSpace.prootCmdProotPart asciiDigit) := by
  have hsplit : ((simpleCommand bare noFiles (sharedWithSpace.command asciiDigit)).any fun ws =>
      "--bind=/storage/emulated/0/My".toList ∈ ws ∧ "Files".toList ∈ ws) = true := by decide +kernel
  refine ⟨hsplit, fun h => ?_⟩
  -- no word that was listed is the second half of the folder's name
  rw [h bare noFiles] at hsplit
  revert hsplit
  decide +kernel

end WinEmulator.App
