import WinEmulator.App.DocumentsProvider
import WinEmulator.Lib.RelativePath

/-!
# What the ids of documents give access to

The path of an id is put behind the directory as it is, double dots included, so the file is in the
directory if and only if the path comes back to it. And one id begins with another also if it only
goes on with the last name of the other, which is another file beside it.
-/

set_option autoImplicit false

namespace WinEmulator.App.MTDataFilesProvider

open WinEmulator.Lib WinEmulator.Lib.Fs WinEmulator.Lib.JavaFile

variable {p : MTDataFilesProvider} {lstat : Path → Bool} {documentId parentDocumentId : Text}
  {z : Bool}
  {file : Option Path}

/-- What an id has to be for a file. -/
theorem of_getFile {path : Path} (h : p.b_getFileForDocId lstat documentId z = .ok (some path)) :
    p.b_pkgName <+: documentId ∧ p.virtualPath documentId ≠ [] ∧
      ∃ dir, p.directory (p.virtualName documentId) = some dir ∧
        path = dir ++ components (p.realPath documentId) := by
  unfold b_getFileForDocId at h
  split at h
  case isTrue => cases h
  case isFalse hpkg =>
    have hbelow : p.b_pkgName <+: documentId := List.isPrefixOf_iff_prefix.mp (not_not.mp hpkg)
    split at h
    case isTrue => cases h
    case isFalse hne =>
      split at h
      case h_1 => cases h
      case h_2 dir hdir =>
        dsimp only at h
        split at h
        case isTrue => cases h
        case isFalse =>
          cases h
          exact ⟨hbelow, hne, dir, hdir, rfl⟩

/-- And for none. -/
theorem of_getFile_root (h : p.b_getFileForDocId lstat documentId z = .ok none) :
    p.b_pkgName <+: documentId ∧ p.virtualPath documentId = [] := by
  unfold b_getFileForDocId at h
  split at h
  case isTrue => cases h
  case isFalse hpkg =>
    have hbelow : p.b_pkgName <+: documentId := List.isPrefixOf_iff_prefix.mp (not_not.mp hpkg)
    split at h
    case isTrue hnil => exact ⟨hbelow, hnil⟩
    case isFalse =>
      split at h
      case h_1 => cases h
      case h_2 =>
        dsimp only at h
        split at h
        case isTrue => cases h
        case isFalse => cases h

/-! ## Confinement -/

/-- The file lies in the directory that the id names. -/
def Inside (p : MTDataFilesProvider) (documentId : Text) (path : Path) : Prop :=
  ∃ dir, p.directory (p.virtualName documentId) = some dir ∧ collapse [] dir <+: collapse [] path

/-- The path of the id comes back to the directory. -/
def ComesBack (p : MTDataFilesProvider) (documentId : Text) : Prop :=
  ∃ dir, p.directory (p.virtualName documentId) = some dir ∧
    (way (components (p.realPath documentId))).Returns (collapse [] dir)

/-- **The file of an id is in the app's directory** if and only if the path in the id comes back to
it. -/
theorem inside_iff_comesBack {path : Path}
    (h : p.b_getFileForDocId lstat documentId z = .ok (some path)) :
    Inside p documentId path ↔ ComesBack p documentId := by
  obtain ⟨-, -, dir, hdir, rfl⟩ := of_getFile h
  unfold Inside ComesBack
  rw [hdir]
  simp only [Option.some.injEq, exists_eq_left', collapse_append]
  exact prefix_collapse_iff _ _

/-- An app without external storage. -/
def withoutStorage : MTDataFilesProvider :=
  Context.attachInfo
    { packageName := "com.example".toList
      filesDir := components "/data/user/0/com.example/files".toList
      externalFilesDir := none
      obbDir := none }

/-- The id of a file in the directory. -/
theorem inside_files :
    Inside withoutStorage "com.example/data/files/./a".toList
      (components "/data/user/0/com.example/files/./a".toList) ↔
      ComesBack withoutStorage "com.example/data/files/./a".toList := by
  have hfile :
      withoutStorage.b_getFileForDocId (fun _ => true) "com.example/data/files/./a".toList true =
      .ok (some (components "/data/user/0/com.example/files/./a".toList)) := by
    decide +kernel
  exact inside_iff_comesBack hfile

/-- The id of a file in the directory of another app. -/
theorem not_inside_otherApp :
    withoutStorage.b_getFileForDocId (fun _ => true) "com.example/data/../other/files".toList true =
        .ok (some (components "/data/user/0/com.example/../other/files".toList)) ∧
      ¬Inside withoutStorage "com.example/data/../other/files".toList
        (components "/data/user/0/com.example/../other/files".toList) := by
  refine ⟨by decide +kernel, fun ⟨dir, hdir, hle⟩ => ?_⟩
  obtain rfl : components "/data/user/0/com.example".toList = dir := by
    have hdata :
        withoutStorage.directory "data".toList =
          some (components "/data/user/0/com.example".toList) := by
      decide +kernel
    exact Option.some.inj (hdata.symm.trans hdir)
  revert hle
  decide +kernel

/-! ## Tree permissions -/

/-- The file is the other one or lies below it; everything lies below the root. -/
def Covers : Option Path → Option Path → Prop
  | none, _ => True
  | some _, none => False
  | some parent, some path => collapse [] parent <+: collapse [] path

/-- Whether `rest` goes on with the last name of `path` and begins no new one. -/
def GoesOn (path rest : Text) : Prop :=
  ¬(path = [] ∨ path.getLast? = some '/' ∨ rest = [] ∨ rest.head? = some '/')

/-- The way back from the file of `path` to where its last name stands. -/
def wayBack (dir : Path) (path : Text) : List Name :=
  if lastSegment path = dot then []
  else if lastSegment path = dotdot then
    (collapse [] (dir ++ components (upToLastSlash path))).getLast?.toList
  else [dotdot]

instance (path rest : Text) : Decidable (GoesOn path rest) :=
  inferInstanceAs
    (Decidable ¬(path = [] ∨ path.getLast? = some '/' ∨ rest = [] ∨ rest.head? = some '/'))

/-- The way from the file of `path` to the file of `path ++ rest`. -/
def wayOn (dir : Path) (path rest : Text) : List Name :=
  if GoesOn path rest then wayBack dir path ++ components (lastSegment path ++ rest)
  else components rest

theorem collapse_singleton_dot (cur : Loc) : collapse cur [dot] = cur := by
  rw [collapse, if_pos (.inr rfl), collapse]

theorem collapse_singleton_dotdot (cur : Loc) : collapse cur [dotdot] = cur.dropLast := by
  have hdot : ¬(dotdot = [] ∨ dotdot = dot) := by decide
  rw [collapse, if_neg hdot, if_pos rfl, collapse]

/-- The way back from a path ends at the part of it before the last slash. -/
theorem collapse_wayBack (dir : Path) {path : Text} (hne : lastSegment path ≠ []) :
    collapse (collapse [] (dir ++ components path)) (wayBack dir path) =
      collapse [] (dir ++ components (upToLastSlash path)) := by
  have hpath : components path = components (upToLastSlash path) ++ [lastSegment path] := by
    conv_lhs => rw [← upToLastSlash_append_lastSegment path]
    rw [components_append ((upToLastSlash_ends path).imp_right .inl),
      components_of_not_mem hne (not_mem_lastSegment path)]
  rw [hpath, ← List.append_assoc, collapse_append]
  unfold wayBack
  have hproper : ∀ c ∈ collapse [] (dir ++ components (upToLastSlash path)), Proper c :=
    proper_of_mem_collapse fun c hc => by cases hc
  generalize collapse [] (dir ++ components (upToLastSlash path)) = base at hproper ⊢
  split
  case isTrue hdot => rw [hdot, collapse_singleton_dot, collapse]
  case isFalse hdot =>
    split
    case isTrue hdots =>
      rw [hdots, collapse_singleton_dotdot]
      rcases List.eq_nil_or_concat base with rfl | ⟨base', c, rfl⟩
      · rfl
      · rw [List.concat_eq_append] at hproper ⊢
        rw [List.dropLast_concat, List.getLast?_concat, Option.toList_some,
          collapse_proper _ (hproper c (List.mem_append_right _ (List.mem_singleton_self c)))]
    case isFalse hdots =>
      rw [collapse_proper _ ⟨hne, hdot, hdots⟩, collapse_singleton_dotdot, List.dropLast_concat]

/-- It leads there. -/
theorem collapse_wayOn (dir : Path) (path rest : Text) :
    collapse [] (dir ++ components (path ++ rest)) =
      collapse (collapse [] (dir ++ components path)) (wayOn dir path rest) := by
  unfold wayOn
  split
  case isTrue hgoesOn =>
    have hne : lastSegment path ≠ [] := by
      intro hnil
      have hpath := upToLastSlash_append_lastSegment path
      rw [hnil, List.append_nil] at hpath
      rcases upToLastSlash_ends path with hends | hends
      · exact hgoesOn (.inl (hpath ▸ hends))
      · exact hgoesOn (.inr (.inl (hpath ▸ hends)))
    have hpath : path ++ rest = upToLastSlash path ++ (lastSegment path ++ rest) := by
      rw [← List.append_assoc, upToLastSlash_append_lastSegment]
    rw [hpath, components_append ((upToLastSlash_ends path).imp_right .inl), ← List.append_assoc,
      collapse_append,
      collapse_append _ (wayBack dir path), collapse_wayBack dir hne]
  case isFalse hgoesOn =>
    rw [components_append (not_not.mp hgoesOn), ← List.append_assoc, collapse_append]

/-- The names of the directories, of which none begins with another. -/
def directoryNames : List Text :=
  ["data", "android_data", "android_obb", "user_de_data"].map String.toList

/-- A name that stands for a directory is one of the directory names in some case. -/
theorem map_foldCase_mem {name : Text} {dir : Path} (h : p.directory name = some dir) :
    name.map foldCase ∈ directoryNames := by
  have hnames : directoryNames =
      ["data", "android_data", "android_obb", "user_de_data"].map fun n : String =>
          n.toList.map foldCase := by
    decide
  have hmem :
      ∀ n ∈ ["data", "android_data", "android_obb", "user_de_data"],
        equalsIgnoreCase name n = true →
      name.map foldCase ∈ directoryNames := fun n hn heq =>
    hnames ▸ List.mem_map.mpr ⟨n, hn, (of_decide_eq_true heq).symm⟩
  unfold directory at h
  split at h
  case isTrue heq => exact hmem _ (by decide) heq
  split at h
  case isTrue heq => exact hmem _ (by decide) heq.1
  split at h
  case isTrue heq => exact hmem _ (by decide) heq.1
  split at h
  case isTrue heq => exact hmem _ (by decide) heq.1
  case isFalse => cases h

/-- No directory name begins another. -/
theorem directoryNames_eq_of_prefix :
    ∀ n ∈ directoryNames, ∀ m ∈ directoryNames, n <+: m → n = m := by
  decide

/-- The name in an id that names a directory ends where the name in the other ends. -/
theorem virtualName_eq_of_prefix {name name' : Text} {dir dir' : Path}
    (h : p.directory name = some dir)
    (h' : p.directory name' = some dir') (hle : name <+: name') : name = name' := by
  have heq := directoryNames_eq_of_prefix _ (map_foldCase_mem h) _ (map_foldCase_mem h')
    (hle.map foldCase)
  exact hle.eq_of_length (by simpa using congrArg List.length heq)

/-- Below the root the path of a longer id goes on from the path of the other. -/
theorem virtualPath_append (rest : Text) (hpkg : p.b_pkgName <+: parentDocumentId)
    (hne : p.virtualPath parentDocumentId ≠ []) :
    p.virtualPath (parentDocumentId ++ rest) = p.virtualPath parentDocumentId ++ rest := by
  obtain ⟨after, rfl⟩ := hpkg
  unfold virtualPath at hne ⊢
  simp only [List.append_assoc, List.drop_left] at hne ⊢
  cases after with
  | nil => exact absurd rfl hne
  | cons c after =>
    rw [List.cons_append, List.head?_cons, List.head?_cons]
    split
    · rfl
    · rfl

/-- Up to the first slash, and what is after it. -/
theorem parts_eq {u : Text} (v : Text) (hu : '/' ∉ u) :
    (u ++ '/' :: v).takeWhile (· ≠ '/') = u ∧ ((u ++ '/' :: v).dropWhile (· ≠ '/')).tail = v := by
  have hall : ∀ c ∈ u, decide (c ≠ '/') = true :=
    fun c hc => decide_eq_true fun heq => hu (heq ▸ hc)
  rw [List.takeWhile_append_of_pos hall, List.dropWhile_append_of_pos hall]
  simp

theorem parts_of_not_mem {u : Text} (hu : '/' ∉ u) :
    u.takeWhile (· ≠ '/') = u ∧ (u.dropWhile (· ≠ '/')).tail = [] := by
  have hall : ∀ c ∈ u, decide (c ≠ '/') = true :=
    fun c hc => decide_eq_true fun heq => hu (heq ▸ hc)
  exact ⟨List.takeWhile_eq_self_iff.mpr hall, by rw [List.dropWhile_eq_nil_iff.mpr hall]; rfl⟩

/-- The way from one file to the other, where one id begins with the other. -/
theorem collapse_getFile_append {rest : Text} {z' : Bool} {parent path : Path}
    (hparent : p.b_getFileForDocId lstat parentDocumentId z = .ok (some parent))
    (hpath : p.b_getFileForDocId lstat (parentDocumentId ++ rest) z' = .ok (some path)) :
    ∃ dir, p.directory (p.virtualName parentDocumentId) = some dir ∧
      parent = dir ++ components (p.realPath parentDocumentId) ∧
      collapse [] path = collapse (collapse [] parent)
        (wayOn dir (p.realPath parentDocumentId) rest) := by
  obtain ⟨hpkg, hne, dir, hdir, rfl⟩ := of_getFile hparent
  obtain ⟨-, -, dir', hdir', rfl⟩ := of_getFile hpath
  refine ⟨dir, hdir, rfl, ?_⟩
  have happend := virtualPath_append rest hpkg hne
  unfold virtualName realPath at *
  rw [happend] at hdir' ⊢
  generalize p.virtualPath parentDocumentId = virtual at *
  by_cases hmem : '/' ∈ virtual
  · -- the name of the directory ends in the shorter id already
    obtain ⟨u, v, rfl, hu⟩ := List.eq_append_cons_of_mem hmem
    rw [List.append_assoc, List.cons_append] at hdir' ⊢
    rw [(parts_eq _ hu).1] at hdir hdir'
    obtain rfl := Option.some.inj (hdir.symm.trans hdir')
    rw [(parts_eq _ hu).2, (parts_eq _ hu).2, collapse_wayOn]
  · obtain ⟨hname, hreal⟩ := parts_of_not_mem hmem
    rw [hname] at hdir
    rw [hreal, components_nil, List.append_nil]
    have hwayOn : wayOn dir [] rest = components rest := if_neg (not_not.mpr (.inl rfl))
    rw [hwayOn, collapse_append]
    have hall : ∀ c ∈ virtual, decide (c ≠ '/') = true :=
      fun c hc => decide_eq_true fun heq => hmem (heq ▸ hc)
    rw [List.takeWhile_append_of_pos hall] at hdir'
    rw [List.dropWhile_append_of_pos hall]
    have hsame := virtualName_eq_of_prefix hdir hdir' (List.prefix_append _ _)
    rw [← hsame] at hdir'
    obtain rfl := Option.some.inj (hdir.symm.trans hdir')
    cases rest with
    | nil => rfl
    | cons c rest =>
      have hc : c = '/' := by
        by_contra hc
        simp [hc] at hsame
      subst hc
      rw [components_cons_slash]
      simp

/-- The id that begins with another is one of the tree: it is the root that covers it, or the way
from the one file to the other comes back. -/
def Grants (p : MTDataFilesProvider) (parentDocumentId documentId : Text) : Prop :=
  parentDocumentId <+: documentId →
    p.virtualPath parentDocumentId = [] ∨
      ∃ dir, p.directory (p.virtualName parentDocumentId) = some dir ∧
        (way (wayOn dir (p.realPath parentDocumentId)
          (documentId.drop parentDocumentId.length))).Returns
          (collapse [] (dir ++ components (p.realPath parentDocumentId)))

/-- **A permission for a tree covers the files of the tree only** if and only if, where one id
begins with the other, the way on from its file comes back. -/
theorem covers_iff_grants {z' : Bool} {file' : Option Path}
    (hparent : p.b_getFileForDocId lstat parentDocumentId z = .ok file)
    (hdoc : p.b_getFileForDocId lstat documentId z' = .ok file') :
    (isChildDocument parentDocumentId documentId = true → Covers file file') ↔
      Grants p parentDocumentId documentId := by
  unfold isChildDocument Grants
  rw [List.isPrefixOf_iff_prefix]
  refine forall_congr' fun hle => ?_
  obtain ⟨rest, rfl⟩ := hle
  rw [List.drop_left]
  cases file with
  | none => exact iff_of_true trivial (.inl (of_getFile_root hparent).2)
  | some parent =>
    obtain ⟨hpkg, hne, -⟩ := of_getFile hparent
    rw [or_iff_right hne]
    cases file' with
    | none =>
      have hroot := (of_getFile_root hdoc).2
      rw [virtualPath_append _ hpkg hne] at hroot
      exact absurd (List.append_eq_nil_iff.mp hroot).1 hne
    | some path =>
      obtain ⟨dir, hdir, rfl, hway⟩ := collapse_getFile_append hparent hdoc
      rw [hdir]
      simp only [Covers, Option.some.injEq, exists_eq_left', hway]
      exact prefix_collapse_iff _ _

/-- A directory and a file in it. -/
theorem covers_files :
    isChildDocument "com.example/data/files".toList "com.example/data/files/a".toList = true ∧
      Covers (some (components "/data/user/0/com.example/files".toList))
        (some (components "/data/user/0/com.example/files/a".toList)) := by
  have hchild :
      isChildDocument "com.example/data/files".toList "com.example/data/files/a".toList =
        true := by decide
  have hparent :
      withoutStorage.b_getFileForDocId (fun _ => true) "com.example/data/files".toList true =
      .ok (some (components "/data/user/0/com.example/files".toList)) := by
    decide +kernel
  have hdoc :
      withoutStorage.b_getFileForDocId (fun _ => true) "com.example/data/files/a".toList true =
      .ok (some (components "/data/user/0/com.example/files/a".toList)) := by
    decide +kernel
  refine ⟨hchild, (covers_iff_grants hparent hdoc).mpr (fun _ => ?_) hchild⟩
  refine .inr ⟨components "/data/user/0/com.example".toList, ?_, ?_⟩
  · decide +kernel
  · decide +kernel

/-- A directory and its sibling. -/
theorem not_covers_sibling :
    withoutStorage.b_getFileForDocId (fun _ => true) "com.example/data/files".toList true =
        .ok (some (components "/data/user/0/com.example/files".toList)) ∧
      withoutStorage.b_getFileForDocId (fun _ => true) "com.example/data/files2".toList true =
        .ok (some (components "/data/user/0/com.example/files2".toList)) ∧
      isChildDocument "com.example/data/files".toList "com.example/data/files2".toList = true ∧
      ¬Covers (some (components "/data/user/0/com.example/files".toList))
        (some (components "/data/user/0/com.example/files2".toList)) := by
  refine ⟨by decide +kernel, by decide +kernel, by decide, ?_⟩
  show ¬_ <+: _
  decide +kernel

end WinEmulator.App.MTDataFilesProvider
