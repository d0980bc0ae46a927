import WinEmulator.App.DocumentFiles
import WinEmulator.Laws.App.DocumentDeletion
import WinEmulator.Laws.App.DocumentIds
import WinEmulator.Laws.App.InstallRootfs

/-!
# The ids that are handed out

An id is put together from the id of the parent, a slash and a name, and what the provider finds for
it is the file of the parent with that name, as long as the parent is a file itself and the name is
one. The new id of a document that is renamed stands in place of what is after the last slash, one
at the end not counted.
-/

set_option autoImplicit false

namespace WinEmulator.App.MTDataFilesProvider

open WinEmulator.Lib WinEmulator.Lib.Fs WinEmulator.Lib.JavaFile

variable {p : MTDataFilesProvider} {documentId pre rest : Text} {file : Path}

/-! ## What is to hold -/

/-- The requests that are answered with ids. -/
inductive Request
  | createDocument (parentDocumentId mimeType displayName : Text)
  | moveDocument (sourceDocumentId targetParentDocumentId : Text)
  | renameDocument (documentId displayName : Text)
  | queryChildDocuments (parentDocumentId : Text)

/-- The ids, each with its file, the file that is made, and the disk. -/
structure Answer where
  disk : Disk
  newFile : Option Path
  handedOut : List (Text × Path)

def Outcome.answer (outcome : Outcome) : Answer where
  disk := outcome.disk
  newFile := outcome.newFile
  handedOut :=
    match outcome.result, outcome.newFile with
    | .ok documentId, some newFile => [(documentId, newFile)]
    | _, _ => []

def answer (p : MTDataFilesProvider) (refuses : Disk → Path → Bool) (d : Disk) : Request → Answer
  | .createDocument parentDocumentId mimeType displayName =>
    (p.createDocument refuses d parentDocumentId mimeType displayName).answer
  | .moveDocument sourceDocumentId targetParentDocumentId =>
    (p.moveDocument refuses d sourceDocumentId targetParentDocumentId).answer
  | .renameDocument documentId displayName =>
    (p.renameDocument refuses d documentId displayName).answer
  | .queryChildDocuments parentDocumentId =>
    ⟨d, none, ((p.queryChildDocuments d.fs parentDocumentId).toOption).getD []⟩

/-- The id gives the file, whatever is asked of it. -/
def ResolvesTo (p : MTDataFilesProvider) (documentId : Text) (file : Path) : Prop :=
  ∀ (lstat : Path → Bool) (z : Bool), (z = true → lstat file = true) →
    p.b_getFileForDocId lstat documentId z = .ok (some file)

/-- Nothing is done to what stands at the path. -/
def Keeps (d d' : Disk) (path : Path) : Prop :=
  ∀ l, place d.fs path = some l → d.fs.get l ≠ none → ∃ es, d'.log = d.log ++ es ∧ ∀ e ∈ es,
    ¬ l <+: e.1

/-- Every id resolves to its file, and no file is replaced. -/
structure HandsOut (p : MTDataFilesProvider) (d : Disk) (a : Answer) : Prop where
  resolves : ∀ row ∈ a.handedOut, ResolvesTo p row.1 row.2
  keeps : ∀ newFile ∈ a.newFile, Keeps d a.disk newFile

/-! ## Ids and files -/

/-- The id of the file. -/
def Names (p : MTDataFilesProvider) (documentId : Text) (file : Path) : Prop :=
  p.b_pkgName <+: documentId ∧ p.virtualPath documentId ≠ [] ∧
    ∃ dir, p.directory (p.virtualName documentId) = some dir ∧
      file = dir ++ components (p.realPath documentId)

/-- The document ids that resolve to a file are those that name it. -/
theorem getFile_iff {lstat : Path → Bool} {z : Bool} :
    p.b_getFileForDocId lstat documentId z = .ok (some file) ↔ Names p documentId file ∧
      (z = true → lstat file = true) := by
  constructor
  · intro h
    refine ⟨of_getFile h, fun hz => ?_⟩
    obtain ⟨hpkg, hne, dir, hdir, rfl⟩ := of_getFile h
    by_contra hlstat
    unfold b_getFileForDocId at h
    rw [if_neg (not_not.mpr (List.isPrefixOf_iff_prefix.mpr hpkg)), if_neg hne, hdir] at h
    dsimp only at h
    rw [if_pos ⟨hz, hlstat⟩] at h
    cases h
  · rintro ⟨⟨hpkg, hne, dir, hdir, rfl⟩, hlstat⟩
    unfold b_getFileForDocId
    rw [if_neg (not_not.mpr (List.isPrefixOf_iff_prefix.mpr hpkg)), if_neg hne, hdir]
    dsimp only
    rw [if_neg fun h => h.2 (hlstat h.1)]

theorem resolvesTo_iff : ResolvesTo p documentId file ↔ Names p documentId file := by
  constructor
  · exact fun h => (getFile_iff.mp (h (fun _ => true) true fun _ => rfl)).1
  · exact fun h lstat z hlstat => getFile_iff.mpr ⟨h, hlstat⟩

/-- A document id names one file at most. -/
theorem Names.unique {file' : Path} (h : Names p documentId file) (h' : Names p documentId file') :
    file = file' := by
  obtain ⟨-, -, dir, hdir, rfl⟩ := h
  obtain ⟨-, -, dir', hdir', rfl⟩ := h'
  rw [Option.some.inj (hdir.symm.trans hdir')]

/-- No directory has the empty name. -/
theorem directory_nil : p.directory [] = none := by
  by_contra hsome
  obtain ⟨dir, hdir⟩ := Option.ne_none_iff_exists'.mp hsome
  exact absurd (map_foldCase_mem hdir) (by decide)

/-- A slash after an id begins the names below its file. -/
theorem virtualName_slash (hpkg : p.b_pkgName <+: pre) (hne : p.virtualPath pre ≠ [])
    (rest : Text) :
    p.virtualName (pre ++ '/' :: rest) = p.virtualName pre ∧
      components (p.realPath (pre ++ '/' :: rest)) = components (p.realPath pre) ++
        components rest := by
  unfold virtualName realPath
  rw [virtualPath_append _ hpkg hne]
  generalize p.virtualPath pre = virtual
  by_cases hmem : '/' ∈ virtual
  · obtain ⟨u, v, rfl, hu⟩ := List.eq_append_cons_of_mem hmem
    rw [List.append_assoc, List.cons_append, (parts_eq _ hu).1, (parts_eq _ hu).1,
      (parts_eq _ hu).2, (parts_eq _ hu).2]
    exact ⟨rfl, components_append_slash v rest⟩
  · rw [(parts_eq _ hmem).1, (parts_eq _ hmem).2, (parts_of_not_mem hmem).1,
      (parts_of_not_mem hmem).2, components_nil]
    exact ⟨rfl, rfl⟩

/-- An id below another names the file below the other's. -/
theorem names_slash_iff (hpkg : p.b_pkgName <+: pre) (hne : p.virtualPath pre ≠ []) :
    Names p (pre ++ '/' :: rest) file ↔ ∃ parent, Names p pre parent ∧
      file = parent ++ components rest := by
  obtain ⟨hname, hreal⟩ := virtualName_slash hpkg hne rest
  have hne' : p.virtualPath (pre ++ '/' :: rest) ≠ [] := by
    rw [virtualPath_append _ hpkg hne]
    simp
  unfold Names
  rw [hname, hreal]
  constructor
  · rintro ⟨-, -, dir, hdir, rfl⟩
    exact ⟨_, ⟨hpkg, hne, dir, hdir, rfl⟩, (List.append_assoc _ _ _).symm⟩
  · rintro ⟨_, ⟨-, -, dir, hdir, rfl⟩, rfl⟩
    exact ⟨hpkg.trans (List.prefix_append _ _), hne', dir, hdir, List.append_assoc _ _ _⟩

/-- Below the root itself is no file but behind one slash. -/
theorem Names.eq_or_below (h : Names p (pre ++ '/' :: rest) file) (hpkg : p.b_pkgName <+: pre) :
    pre = p.b_pkgName ∨ p.virtualPath pre ≠ [] := by
  by_contra hnot
  rw [not_or, not_not] at hnot
  obtain ⟨hends, hroot⟩ := hnot
  obtain ⟨after, rfl⟩ := hpkg
  obtain ⟨-, -, dir, hdir, -⟩ := h
  have hafter : after = ['/'] := by
    unfold virtualPath at hroot
    rw [List.drop_left] at hroot
    cases after with
    | nil => exact absurd (List.append_nil _) hends
    | cons c after =>
      by_cases hc : c = '/'
      · subst hc
        exact congrArg (List.cons '/') hroot
      · have hcons : (if some c = some '/' then after else c :: after) = [] := hroot
        rw [if_neg fun heq => hc (Option.some.inj heq)] at hcons
        cases hcons
  have hnil : p.virtualName (p.b_pkgName ++ after ++ '/' :: rest) = [] := by
    rw [hafter, List.append_assoc]
    unfold virtualName virtualPath
    rw [List.drop_left]
    simp
  rw [hnil, directory_nil] at hdir
  cases hdir

/-- Behind the slash stands the path below the root. -/
theorem virtualPath_pkgName (p : MTDataFilesProvider) (rest : Text) :
    p.virtualPath (p.b_pkgName ++ '/' :: rest) = rest := by
  unfold virtualPath
  rw [List.drop_left]
  rfl

/-- A document id has at most one slash to lose at its end. -/
theorem eq_withoutSlash (documentId : Text) :
    documentId = withoutSlash documentId ∧ documentId.getLast? ≠ some '/' ∨
      documentId = withoutSlash documentId ++ ['/'] := by
  unfold withoutSlash
  split
  case isTrue hlast => exact .inr (List.dropLast_append_getLast? '/' hlast).symm
  case isFalse hlast => exact .inl ⟨rfl, hlast⟩

/-- A slash at the end makes no difference to the id of a file. -/
theorem Names.withoutSlash (h : Names p documentId file) :
    Names p (withoutSlash documentId) file := by
  rcases eq_withoutSlash documentId with ⟨heq, -⟩ | heq
  · rw [← heq]
    exact h
  · rw [heq] at h
    have hne := h.2.1
    rcases List.prefix_concat_iff.mp h.1 with hpkg | hpkg
    · unfold virtualPath at hne
      rw [hpkg, List.drop_length] at hne
      exact absurd rfl hne
    · rcases h.eq_or_below hpkg with hroot | hbelow
      · rw [hroot, virtualPath_pkgName] at hne
        exact absurd rfl hne
      · obtain ⟨parent, hparent, rfl⟩ := (names_slash_iff hpkg hbelow).mp h
        rw [components_nil, List.append_nil]
        exact hparent

theorem childId_eq (parentDocumentId : Text) (name : Name) :
    childId parentDocumentId name = MTDataFilesProvider.withoutSlash parentDocumentId ++
      '/' :: name := by
  unfold childId MTDataFilesProvider.withoutSlash
  split
  case isTrue hlast =>
    obtain ⟨s, rfl⟩ := List.getLast?_eq_some_iff.mp hlast
    simp
  case isFalse => simp

/-- **The id of a name in a directory** is the id of the directory, a slash and the name. -/
theorem Names.childId {name : Name} (h : Names p documentId file) (hne : name ≠ [])
    (hslash : '/' ∉ name) :
    Names p (childId documentId name) (file ++ [name]) := by
  have hparent := h.withoutSlash
  rw [childId_eq]
  exact (names_slash_iff hparent.1 hparent.2.1).mpr
    ⟨file, hparent, by rw [components_of_not_mem hne hslash]⟩

/-! ## Making a document -/

section Create

variable {fs : FileSystem} {parentFile newFile : Path} {displayName : Text}

/-- The names that are tried, one after the other. -/
def candidate (parentFile : Path) (displayName : Text) : Nat → Path
  | 0 => childFile parentFile displayName
  | k + 1 => childFile parentFile (conflictName displayName (k + 2))

/-- The first of them that is free. -/
def FirstFree (fs : FileSystem) (parentFile : Path) (displayName : Text) (newFile : Path) : Prop :=
  ∃ k, newFile = candidate parentFile displayName k ∧
    exists_ fs (candidate parentFile displayName k) = false ∧
    ∀ j < k, exists_ fs (candidate parentFile displayName j) = true

/-- There is one first free name. -/
theorem FirstFree.unique {newFile' : Path} (h : FirstFree fs parentFile displayName newFile)
    (h' : FirstFree fs parentFile displayName newFile') : newFile = newFile' := by
  obtain ⟨k, rfl, hfree, htaken⟩ := h
  obtain ⟨k', rfl, hfree', htaken'⟩ := h'
  rcases Nat.lt_trichotomy k k' with hlt | rfl | hlt
  · rw [htaken' k hlt] at hfree
    cases hfree
  · rfl
  · rw [htaken k' hlt] at hfree'
    cases hfree'

/-- The loop goes through them. -/
theorem freeFile_of_free {n i k : Nat} (hn : k < n)
    (hfree : exists_ fs (candidate parentFile displayName (i + k)) = false)
    (htaken : ∀ j < k, exists_ fs (candidate parentFile displayName (i + j)) = true) :
    freeFile fs parentFile displayName n (candidate parentFile displayName i) (i + 2) =
      some (candidate parentFile displayName (i + k)) := by
  induction k generalizing n i with
  | zero =>
    obtain ⟨n, rfl⟩ : ∃ m, n = m + 1 := ⟨n - 1, by omega⟩
    rw [Nat.add_zero] at hfree
    rw [freeFile, hfree, if_neg Bool.false_ne_true, Nat.add_zero]
  | succ k ih =>
    obtain ⟨n, rfl⟩ : ∃ m, n = m + 1 := ⟨n - 1, by omega⟩
    have hnext : ∀ j, i + 1 + j = i + (j + 1) := fun j => by omega
    have hrest := @ih n (i + 1) (by omega) (by rw [hnext]; exact hfree) fun j hj => by
      rw [hnext]
      exact htaken (j + 1) (by omega)
    have hfirst : exists_ fs (candidate parentFile displayName i) = true :=
      htaken 0 (Nat.succ_pos k)
    rw [freeFile, hfirst, if_pos rfl]
    exact hrest.trans (congrArg (fun j => some (candidate parentFile displayName j)) (hnext k))

/-- What stands after the last slash is the name. -/
theorem conflictName_components (displayName : Text) (k : Nat) :
    components (conflictName displayName k) =
      components (upToLastSlash displayName) ++ [conflictName (lastSegment displayName) k] := by
  have hslash : '/' ∉ conflictName (lastSegment displayName) k := by
    unfold conflictName
    simp only [List.mem_append, not_or]
    refine ⟨⟨⟨not_mem_lastSegment displayName, by decide⟩, fun hmem => ?_⟩, by decide⟩
    exact absurd (Nat.isDigit_of_mem_toDigits (by decide) (by decide) hmem) (by decide)
  have hne : conflictName (lastSegment displayName) k ≠ [] := by
    unfold conflictName
    exact List.append_ne_nil_of_right_ne_nil _ (by decide)
  have hsplit :
      conflictName displayName k = upToLastSlash displayName ++ conflictName
        (lastSegment displayName) k := by
    unfold conflictName
    conv_lhs => rw [← upToLastSlash_append_lastSegment displayName]
    simp only [List.append_assoc]
  rw [hsplit, components_append ((upToLastSlash_ends displayName).imp_right .inl),
    components_of_not_mem hne hslash]

theorem conflictName_proper (displayName : Text) (k : Nat) :
    Proper (conflictName displayName k) := by
  have hlast : (conflictName displayName k).getLast? = some ')' := by
    unfold conflictName
    exact List.getLast?_concat
  refine ⟨?_, ?_, ?_⟩
  · exact fun h => by rw [h] at hlast; cases hlast
  · exact fun h => by rw [h] at hlast; cases hlast
  · exact fun h => by rw [h] at hlast; cases hlast

/-- Different counters give different names. -/
theorem conflictName_injective {displayName : Text} {k k' : Nat}
    (h : conflictName displayName k = conflictName displayName k') :
    k = k' := by
  unfold conflictName at h
  exact Rootfs.toDigits_injective (List.append_cancel_left (List.append_cancel_right h))

/-- **There are more names than files,** so one of them is free. -/
theorem exists_free (fs : FileSystem) (parentFile : Path) (displayName : Text) :
    ∃ k < fs.entries.length + 2, exists_ fs (candidate parentFile displayName k) = false := by
  by_contra hnot
  have htaken :
      ∀ k < fs.entries.length + 2,
        exists_ fs (candidate parentFile displayName k) = true := fun k hk =>
    Bool.not_eq_false _ ▸ fun h => hnot ⟨k, hk, h⟩
  have hplace : ∀ k < fs.entries.length + 1, ∃ parent,
      resolve fs false (parentFile ++ components (upToLastSlash displayName)) = some parent ∧
        fs.get (parent ++ [conflictName (lastSegment displayName) (k + 2)]) ≠ none := by
    intro k hk
    obtain ⟨l, hl⟩ := Option.isSome_iff_exists.mp (htaken (k + 1) (by omega))
    rw [candidate, childFile, conflictName_components, ← List.append_assoc] at hl
    obtain ⟨x, hx, hget, -⟩ := place_of_resolve (conflictName_proper _ _) hl
    obtain ⟨-, parent, hparent, -, rfl⟩ := place_concat_iff.mp hx
    exact ⟨parent, hparent, hget⟩
  obtain ⟨parent, hparent, -⟩ := hplace 0 (Nat.succ_pos _)
  -- all of them are entries of the one directory
  have hsubset : (List.range (fs.entries.length + 1)).map
      (fun k => parent ++ [conflictName (lastSegment displayName) (k + 2)]) ⊆
          fs.entries.map Prod.fst := by
    intro l hl
    obtain ⟨k, hk, rfl⟩ := List.mem_map.mp hl
    obtain ⟨parent', hparent', hget⟩ := hplace k (List.mem_range.mp hk)
    obtain rfl := Option.some.inj (hparent.symm.trans hparent')
    obtain ⟨node, hnode⟩ := Option.ne_none_iff_exists'.mp hget
    exact List.mem_map.mpr ⟨_, fs.mem_of_get hnode, rfl⟩
  have hnodup : ((List.range (fs.entries.length + 1)).map
      (fun k => parent ++ [conflictName (lastSegment displayName) (k + 2)])).Nodup := by
    refine List.nodup_range.map fun k k' heq => ?_
    have hname := List.singleton_inj.mp (List.append_cancel_left heq)
    exact Nat.add_right_cancel (conflictName_injective hname)
  have hlength := hnodup.length_le_of_subset hsubset
  rw [List.length_map, List.length_map, List.length_range] at hlength
  omega

/-- So the loop ends at the first. -/
theorem exists_freeFile (fs : FileSystem) (parentFile : Path) (displayName : Text) :
    ∃ newFile, FirstFree fs parentFile displayName newFile ∧
      freeFile fs parentFile displayName (fs.entries.length + 2) (childFile parentFile displayName)
        2 = some newFile := by
  have hexists : ∃ k, exists_ fs (candidate parentFile displayName k) = false :=
    (exists_free fs parentFile displayName).imp fun k hk => hk.2
  classical
  obtain ⟨bound, hbound, hfree⟩ := exists_free fs parentFile displayName
  have htaken : ∀ j < Nat.find hexists,
      exists_ fs (candidate parentFile displayName j) = true := fun j hj =>
    Bool.not_eq_false _ ▸ Nat.find_min hexists hj
  have hle : Nat.find hexists ≤ bound := Nat.find_min' hexists hfree
  refine ⟨_, ⟨Nat.find hexists, rfl, Nat.find_spec hexists, htaken⟩, ?_⟩
  have hloop :=
    @freeFile_of_free fs parentFile displayName (fs.entries.length + 2) 0 (Nat.find hexists)
    (by omega)
    (by rw [Nat.zero_add]; exact Nat.find_spec hexists)
      fun j hj => by rw [Nat.zero_add]; exact htaken j hj
  simp only [Nat.zero_add] at hloop
  exact hloop

/-- What the new document has to be: it is the first free name's that it stands in the parent
itself. -/
def CreatesInParent (p : MTDataFilesProvider) (refuses : Disk → Path → Bool) (d : Disk)
    (parentDocumentId mimeType displayName : Text) : Prop :=
  ∀ parentFile newFile, p.b_getFileForDocId (lstatSucceeds d.fs) parentDocumentId true =
    .ok (some parentFile) →
    FirstFree d.fs parentFile displayName newFile →
      refuses d newFile = true ∨ newFileEffect d.fs mimeType newFile = none ∨
        newFile.dropLast = parentFile

/-- A new file is where nothing was. -/
theorem newFileEffect_cases {mimeType : Text} {e : Effect}
    (h : newFileEffect fs mimeType newFile = some e) :
    ∃ l n, place fs newFile = some l ∧ fs.get l = none ∧ e = (l, some n) := by
  have hcreate :
      ∀ n, createEffect fs newFile n = some e → ∃ l n, place fs newFile = some l ∧ fs.get l = none ∧
        e = (l, some n) := by
    intro n h
    obtain ⟨l, hl, hrest⟩ := Option.bind_eq_some_iff.mp h
    split at hrest
    case isTrue hfree => exact ⟨l, n, hl, hfree.1, (Option.some.inj hrest).symm⟩
    case isFalse => cases hrest
  unfold newFileEffect at h
  split at h
  case isTrue => exact hcreate _ h
  case isFalse => exact hcreate _ h

end Create

/-- Where nothing is done, nothing has to hold. -/
theorem handsOut_fileNotFound (p : MTDataFilesProvider) (d : Disk) (message : Text) :
    HandsOut p d (Outcome.fileNotFound d message).answer where
  resolves _ hrow := absurd hrow List.not_mem_nil
  keeps _ hnew := by cases hnew

/-- The id of a file under another one. -/
theorem names_childId_iff {parentFile q : Path} {c : Name} (h : Names p documentId parentFile)
    (hne : c ≠ []) (hslash : '/' ∉ c) :
    Names p (childId documentId c) (q ++ [c]) ↔ q = parentFile := by
  have hchild := h.childId hne hslash
  constructor
  · exact fun h' => List.append_cancel_right (h'.unique hchild)
  · rintro rfl
    exact hchild

/-- A document that is made. -/
theorem handsOut_created_iff {d : Disk} {parentDocumentId mimeType name : Text} {parentFile : Path}
    {e : Effect}
    (hparent : p.b_getFileForDocId (lstatSucceeds d.fs) parentDocumentId true =
      .ok (some parentFile))
    (he : newFileEffect d.fs mimeType (childFile parentFile name) = some e) :
    HandsOut p d
        (Outcome.answer
          ⟨d.apply e, some (childFile parentFile name),
          .ok (childId parentDocumentId (getName (childFile parentFile name)))⟩) ↔
      (childFile parentFile name).dropLast = parentFile := by
  obtain ⟨hnames, hlstat⟩ := getFile_iff.mp hparent
  obtain ⟨l, n, hplace, hfree, rfl⟩ := newFileEffect_cases he
  -- the parent is there, so the name is not empty
  have hne : components name ≠ [] := by
    intro hnil
    rw [childFile, hnil, List.append_nil] at hplace
    have hthere := hlstat rfl
    rw [lstatSucceeds, fileAt_of_place hplace, Option.any_some] at hthere
    obtain ⟨q, c, rfl⟩ := ne_nil_of_place hplace
    obtain ⟨-, parent, -, -, rfl⟩ := place_concat_iff.mp hplace
    rw [node_of_ne_nil (by simp), hfree] at hthere
    cases hthere
  obtain ⟨q, c, hlast⟩ := (List.eq_nil_or_concat' _).resolve_left hne
  have hmem : c ∈ components name := hlast ▸ List.mem_append_right q (List.mem_singleton_self c)
  have hwhole : c ≠ [] ∧ '/' ∉ c :=
    ⟨of_decide_eq_true (List.mem_filter.mp hmem).2, not_mem_of_mem_components hmem⟩
  have hnew : childFile parentFile name = parentFile ++ q ++ [c] := by
    rw [childFile, hlast, List.append_assoc]
  rw [hnew, List.dropLast_concat, ← names_childId_iff hnames hwhole.1 hwhole.2, ← resolvesTo_iff]
  rw [getName_concat]
  constructor
  · exact fun h => h.resolves _ (List.mem_singleton_self _)
  · refine fun h => ⟨fun row hrow => ?_, fun newFile hnewFile l' hl' hthere => ?_⟩
    · rw [List.mem_singleton.mp hrow]
      exact h
    · obtain rfl := Option.some.inj hnewFile
      rw [hnew, hl'] at hplace
      rw [Option.some.inj hplace, hfree] at hthere
      exact absurd rfl hthere

/-- **Creation.** The id that is returned is handed out for the new file in these cases only. -/
theorem createDocument_handsOut_iff (refuses : Disk → Path → Bool) (d : Disk)
    (parentDocumentId mimeType displayName : Text) :
    HandsOut p d (p.createDocument refuses d parentDocumentId mimeType displayName).answer ↔
      CreatesInParent p refuses d parentDocumentId mimeType displayName := by
  unfold createDocument CreatesInParent
  split
  next e he => exact iff_of_true (handsOut_fileNotFound p d _) fun _ _ h => by cases he.symm.trans h
  next he => exact iff_of_true (handsOut_fileNotFound p d _) fun _ _ h => by cases he.symm.trans h
  next parentFile hparent =>
    obtain ⟨newFile, hfirst, hloop⟩ := exists_freeFile d.fs parentFile displayName
    have hcond : (∀ parentFile' newFile',
        p.b_getFileForDocId (lstatSucceeds d.fs) parentDocumentId true = .ok (some parentFile') →
          FirstFree d.fs parentFile' displayName newFile' →
            refuses d newFile' = true ∨ newFileEffect d.fs mimeType newFile' = none ∨
              newFile'.dropLast = parentFile') ↔
        refuses d newFile = true ∨ newFileEffect d.fs mimeType newFile = none ∨
            newFile.dropLast = parentFile := by
      constructor
      · exact fun h => h parentFile newFile hparent hfirst
      · intro h parentFile' newFile' hparent' hfirst'
        cases hparent.symm.trans hparent'
        rw [← hfirst.unique hfirst']
        exact h
    rw [hcond, hloop]
    dsimp only
    by_cases hrefuses : refuses d newFile = true
    · rw [if_pos hrefuses]
      exact iff_of_true (handsOut_fileNotFound p d _) (.inl hrefuses)
    · rw [if_neg hrefuses, or_iff_right hrefuses]
      obtain ⟨k, hk, -, -⟩ := hfirst
      obtain ⟨name, rfl⟩ : ∃ name, newFile = childFile parentFile name := by
        cases k with
        | zero => exact ⟨_, hk⟩
        | succ k => exact ⟨_, hk⟩
      cases he : newFileEffect d.fs mimeType (childFile parentFile name) with
      | none => exact iff_of_true (handsOut_fileNotFound p d _) (.inl rfl)
      | some e => exact (handsOut_created_iff hparent he).trans (or_iff_right nofun).symm

/-! ## Moving a document -/

section Rename

variable {refuses : Disk → Path → Bool} {d d' : Disk} {b newFile : Path}

/-- Nothing but the file itself has the new name, not even a link that leads nowhere. -/
def NewNameFree (d : Disk) (file newFile : Path) : Prop :=
  ∀ l, place d.fs newFile = some l → d.fs.get l ≠ none → place d.fs file = some l

/-- **What has the new name is replaced.** -/
theorem keeps_renamed_iff (h : renameTo refuses d b newFile = some d') :
    Keeps d d' newFile ↔ NewNameFree d b newFile := by
  unfold renameTo at h
  split at h
  case isTrue => cases h
  case isFalse =>
    obtain ⟨l, l', n, hl, hl', hn, ⟨hne, rfl⟩ | ⟨rfl, rfl⟩⟩ := rename_cases h
    · constructor
      · intro hkeeps x hx hthere
        obtain rfl := Option.some.inj (hl'.symm.trans hx)
        obtain ⟨es, hlog, hes⟩ := hkeeps l' hl' hthere
        rw [log_foldl_apply] at hlog
        have hmem : (l' ++ [], some n) ∈ es :=
          List.append_cancel_left hlog ▸ mem_moveEffects.mpr
            ⟨[], n, by rw [List.append_nil]; exact hn, .inr rfl⟩
        exact absurd (List.prefix_append l' []) (hes _ hmem)
      · intro hfree x hx hthere
        have hsame := hfree x hx hthere
        rw [hl] at hsame
        rw [hl'] at hx
        exact absurd ((Option.some.inj hsame).trans (Option.some.inj hx).symm) hne
    · constructor
      · exact fun _ x hx _ => hl.trans (hl'.symm.trans hx)
      · exact fun _ _ _ _ => ⟨[], (List.append_nil _).symm, nofun⟩

/-- What is renamed has a name. -/
theorem name_of_renameTo (closed : Closed d.fs) (h : renameTo refuses d b newFile = some d') :
    ∃ q c, b = q ++ [c] ∧ c ≠ [] ∧ '/' ∉ c := by
  unfold renameTo at h
  split at h
  case isTrue => cases h
  case isFalse =>
    obtain ⟨l, -, n, hl, -, hn, -⟩ := rename_cases h
    obtain ⟨q, c, rfl⟩ := ne_nil_of_place hl
    obtain ⟨hc, parent, -, -, rfl⟩ := place_concat_iff.mp hl
    exact ⟨q, c, rfl, hc.1, (closed.names parent c (by rw [hn]; exact Option.some_ne_none n)).2.2.2⟩

/-- A file that gets another name. -/
theorem handsOut_renamed_iff {id : Text} (h : renameTo refuses d b newFile = some d') :
    HandsOut p d (Outcome.answer ⟨d', some newFile, .ok id⟩) ↔ Names p id newFile ∧
      NewNameFree d b newFile := by
  rw [← keeps_renamed_iff h, ← resolvesTo_iff]
  constructor
  · exact fun h => ⟨h.resolves _ (List.mem_singleton_self _), h.keeps newFile rfl⟩
  · refine fun h => ⟨fun row hrow => ?_, fun newFile' hnewFile => ?_⟩
    · rw [List.mem_singleton.mp hrow]
      exact h.1
    · rw [← Option.some.inj hnewFile]
      exact h.2

end Rename

/-- The file that is moved does not come in the place of another. -/
def MovesToFree (p : MTDataFilesProvider) (refuses : Disk → Path → Bool) (d : Disk)
    (sourceDocumentId targetParentDocumentId : Text) : Prop :=
  ∀ sourceFile targetParentFile, p.b_getFileForDocId (lstatSucceeds d.fs) sourceDocumentId true =
    .ok (some sourceFile) →
    p.b_getFileForDocId (lstatSucceeds d.fs) targetParentDocumentId true =
      .ok (some targetParentFile) →
      let targetFile := childFile targetParentFile (getName sourceFile)
      exists_ d.fs targetFile = true ∨ renameTo refuses d sourceFile targetFile = none ∨
        NewNameFree d sourceFile targetFile

/-- **Moving.** The id that is returned names the moved file in these cases only. -/
theorem moveDocument_handsOut_iff (refuses : Disk → Path → Bool) {d : Disk} (closed : Closed d.fs)
    (sourceDocumentId targetParentDocumentId : Text) :
    HandsOut p d (p.moveDocument refuses d sourceDocumentId targetParentDocumentId).answer ↔
      MovesToFree p refuses d sourceDocumentId targetParentDocumentId := by
  unfold moveDocument MovesToFree
  cases hsource : p.b_getFileForDocId (lstatSucceeds d.fs) sourceDocumentId true with
  | error e => exact iff_of_true (handsOut_fileNotFound p d _) fun _ _ h => by cases h
  | ok source =>
    cases htarget : p.b_getFileForDocId (lstatSucceeds d.fs) targetParentDocumentId true with
    | error e => exact iff_of_true (handsOut_fileNotFound p d _) fun _ _ _ h => by cases h
    | ok target =>
      cases source with
      | none =>
        cases target <;> exact iff_of_true (handsOut_fileNotFound p d _) fun _ _ h => by cases h
      | some sourceFile =>
        cases target with
        | none => exact iff_of_true (handsOut_fileNotFound p d _) fun _ _ _ h => by cases h
        | some targetParentFile =>
          dsimp only
          have hcond : ∀ {condition : Path → Path → Prop},
              (∀ s t, Except.ok (ε := FileNotFound) (some sourceFile) = .ok (some s) →
                Except.ok (ε := FileNotFound) (some targetParentFile) = .ok (some t) →
                  condition s t) ↔
                condition sourceFile targetParentFile := by
            intro condition
            refine ⟨fun h => h _ _ rfl rfl, fun h s t hs ht => ?_⟩
            cases hs
            cases ht
            exact h
          rw [hcond]
          split
          case isTrue hexists => exact iff_of_true (handsOut_fileNotFound p d _) (.inl hexists)
          case isFalse hexists =>
            rw [or_iff_right hexists]
            cases hrename :
              renameTo refuses d sourceFile (childFile targetParentFile (getName sourceFile)) with
            | none => exact iff_of_true (handsOut_fileNotFound p d _) (.inl rfl)
            | some d' =>
              obtain ⟨q, c, rfl, hne, hslash⟩ := name_of_renameTo closed hrename
              have htargetFile :
                  childFile targetParentFile (getName (q ++ [c])) = targetParentFile ++ [c] := by
                rw [getName_concat, childFile, components_of_not_mem hne hslash]
              have hnames := (getFile_iff.mp htarget).1.childId hne hslash
              rw [or_iff_right (Option.some_ne_none _)]
              refine (handsOut_renamed_iff hrename).trans (and_iff_right ?_)
              rw [htargetFile, getName_concat]
              exact hnames

/-! ## Renaming a document -/

/-- What stands before the last slash. -/
theorem dropLast_upToLastSlash (pre : Text) {c : Text} (hc : '/' ∉ c) :
    (upToLastSlash (pre ++ '/' :: c)).dropLast = pre := by
  induction c using List.reverseRecOn with
  | nil =>
    rw [upToLastSlash, List.rdropWhile_concat_neg _ _ _ (by simp), List.dropLast_concat]
  | append_singleton c x ih =>
    rw [List.mem_append, not_or, List.mem_singleton] at hc
    have hx : decide (x ≠ '/') = true := decide_eq_true fun heq => hc.2 heq.symm
    have happend : pre ++ '/' :: (c ++ [x]) = (pre ++ '/' :: c) ++ [x] := by simp
    rw [happend, upToLastSlash, List.rdropWhile_concat_pos _ _ _ (by exact hx)]
    exact ih hc.1

theorem exists_lastSlash {s : Text} (h : '/' ∈ s) : ∃ pre c, s = pre ++ '/' :: c ∧ '/' ∉ c := by
  have hsplit := upToLastSlash_append_lastSegment s
  rcases upToLastSlash_ends s with hnil | hlast
  · rw [hnil, List.nil_append] at hsplit
    exact absurd (by rw [hsplit]; exact h) (not_mem_lastSegment s)
  · obtain ⟨pre, hpre⟩ := List.getLast?_eq_some_iff.mp hlast
    rw [hpre, List.append_assoc] at hsplit
    exact ⟨pre, lastSegment s, hsplit.symm, not_mem_lastSegment s⟩

/-- The name of a document follows the last slash, one at the end not counted; it is empty if there
are two. -/
theorem exists_name (h : '/' ∈ documentId.dropLast) :
    ∃ pre c, withoutSlash documentId = pre ++ '/' :: c ∧ '/' ∉ c ∧
      (upToLastSlash documentId.dropLast).dropLast = pre ∧
      (c = [] ↔ "//".toList <:+ documentId) := by
  obtain ⟨pre, c, hsplit, hc⟩ := exists_lastSlash h
  have hpre : (upToLastSlash documentId.dropLast).dropLast = pre := by
    rw [hsplit, dropLast_upToLastSlash pre hc]
  rcases List.eq_nil_or_concat' documentId with rfl | ⟨s, x, rfl⟩
  · cases h
  rw [List.dropLast_concat] at hsplit
  subst hsplit
  have hslashes : "//".toList <:+ pre ++ '/' :: c ++ [x] ↔ c = [] ∧ x = '/' := by
    constructor
    · rintro ⟨s, hs⟩
      have hs' : s ++ ['/'] ++ ['/'] = pre ++ '/' :: c ++ [x] := by
        rw [← hs, List.append_assoc]
        rfl
      obtain ⟨hinit, hx⟩ := List.append_inj' hs' rfl
      refine ⟨?_, (List.singleton_inj.mp hx).symm⟩
      rcases List.eq_nil_or_concat' c with hnil | ⟨c', y, rfl⟩
      · exact hnil
      · have hlast := congrArg List.getLast? hinit
        rw [List.getLast?_concat, ← List.cons_append, ← List.append_assoc, List.getLast?_concat]
          at hlast
        rw [← Option.some.inj hlast] at hc
        exact absurd (List.mem_append_right c' (List.mem_singleton_self _)) hc
    · rintro ⟨rfl, rfl⟩
      exact ⟨pre, by simp⟩
  rw [hslashes]
  by_cases hx : x = '/'
  · subst hx
    refine ⟨pre, c, ?_, hc, hpre, (and_iff_left rfl).symm⟩
    rw [withoutSlash, List.getLast?_concat, if_pos rfl, List.dropLast_concat]
  · refine ⟨pre, c ++ [x], ?_, ?_, hpre, iff_of_false (by simp) fun h => hx h.2⟩
    · rw [withoutSlash, List.getLast?_concat, if_neg fun heq => hx (Option.some.inj heq)]
      simp
    · rw [List.mem_append, not_or, List.mem_singleton]
      exact ⟨hc, fun heq => hx heq.symm⟩

/-- The package name has no slash, so a slash is not in it. -/
theorem pkgName_prefix_of_slash {c : Text} (hpkg : '/' ∉ p.b_pkgName)
    (h : p.b_pkgName <+: pre ++ '/' :: c) :
    p.b_pkgName <+: pre := by
  rcases List.prefix_or_prefix_of_prefix h (List.prefix_append pre ('/' :: c))
    with hle | ⟨more, hmore⟩
  · exact hle
  · rw [← hmore] at h hpkg ⊢
    rw [List.prefix_append_right_inj] at h
    cases more with
    | nil => exact (List.append_nil pre).symm ▸ List.prefix_refl pre
    | cons x more =>
      obtain ⟨rfl, -⟩ := List.cons_prefix_cons.mp h
      exact absurd (List.mem_append_right pre List.mem_cons_self) hpkg

/-- The first name of a text, and the others. -/
theorem components_first {name : Text} (hne : name.takeWhile (· ≠ '/') ≠ []) :
    components name = name.takeWhile (· ≠ '/') :: components (name.dropWhile (· ≠ '/')).tail := by
  have hslash : '/' ∉ name.takeWhile (· ≠ '/') :=
    fun hmem => by simpa using List.mem_takeWhile_imp hmem
  have hsplit :
      components name = components (name.takeWhile (· ≠ '/') ++ name.dropWhile (· ≠ '/')) := by
    rw [List.takeWhile_append_dropWhile]
  rw [hsplit]
  cases hdrop : name.dropWhile (· ≠ '/') with
  | nil => rw [List.append_nil, List.tail_nil, components_nil, components_of_not_mem hne hslash]
  | cons x rest =>
    have hx : x = '/' := by
      have hhead := List.head?_dropWhile_not (fun c : Char => decide (c ≠ '/')) name
      rw [hdrop] at hhead
      simpa using hhead
    rw [hx, components_append_slash, List.tail_cons, components_of_not_mem hne hslash,
      List.singleton_append]

/-- A name below the root is that of a directory, or begins with it. -/
theorem names_pkgName_iff {dir : Path} {displayName : Text} :
    Names p (p.b_pkgName ++ '/' :: displayName) (childFile dir displayName) ↔
      p.directory (displayName.takeWhile (· ≠ '/')) =
        some (dir ++ [displayName.takeWhile (· ≠ '/')]) := by
  have hne :
      ∀ {found}, p.directory (displayName.takeWhile (· ≠ '/')) = some found →
        displayName.takeWhile (· ≠ '/') ≠ [] := by
    intro found hfound hnil
    rw [hnil, directory_nil] at hfound
    cases hfound
  unfold Names childFile virtualName realPath
  rw [virtualPath_pkgName]
  constructor
  · rintro ⟨-, -, found, hfound, heq⟩
    rw [components_first (hne hfound), List.append_cons] at heq
    rw [hfound, List.append_cancel_right heq]
  · intro hfound
    refine ⟨List.prefix_append _ _, ?_, _, hfound, ?_⟩
    · rintro rfl
      exact hne hfound rfl
    · rw [components_first (hne hfound), List.append_cons]

/-- The id of a directory itself, without a slash before its name or with a new one that is the name
of a directory beside it. -/
def NamesSibling (p : MTDataFilesProvider) (documentId displayName : Text) : Prop :=
  '/' ∉ documentId.dropLast ∨
    ∃ dir, p.directory (p.virtualName documentId) = some dir ∧
      p.directory (displayName.takeWhile (· ≠ '/')) =
        some (dir.dropLast ++ [displayName.takeWhile (· ≠ '/')])

/-- The new id is that of the new file: two slashes do not end the old one, and it is not that of a
directory. -/
def NewIdFits (p : MTDataFilesProvider) (documentId displayName : Text) : Prop :=
  ¬ "//".toList <:+ documentId ∧
    (p.realPath documentId = [] → NamesSibling p documentId displayName)

/-- The new id names the renamed file if and only if the display name fits it. -/
theorem names_renamed_iff {b : Path} {displayName : Text} (hpkg : '/' ∉ p.b_pkgName) (hb : b ≠ [])
    (h : Names p documentId b)
    (hslash : '/' ∈ documentId.dropLast) :
    Names p ((upToLastSlash documentId.dropLast).dropLast ++ '/' :: displayName)
      (childFile b.dropLast displayName) ↔
      NewIdFits p documentId displayName := by
  obtain ⟨pre, c, hwithout, hc, hpre, hends⟩ := exists_name hslash
  have ht := h.withoutSlash
  rw [hwithout] at ht
  rw [hpre]
  -- the name in the id, and the slash that may follow it
  obtain ⟨rest, hdocument, hrest⟩ :
      ∃ rest, documentId = pre ++ '/' :: rest ∧ (rest = c ∨ rest = c ++ ['/']) := by
    rcases eq_withoutSlash documentId with ⟨heq, -⟩ | heq
    · exact ⟨c, heq.trans hwithout, .inl rfl⟩
    · exact ⟨c ++ ['/'], heq.trans (by rw [hwithout]; simp), .inr rfl⟩
  have hprefix := pkgName_prefix_of_slash hpkg ht.1
  rcases ht.eq_or_below hprefix with rfl | hne
  · -- the id of a directory
    have hne := ht.2.1
    rw [virtualPath_pkgName] at hne
    have hparts : p.virtualName documentId = c ∧ p.realPath documentId = [] := by
      unfold virtualName realPath
      rw [hdocument, virtualPath_pkgName]
      rcases hrest with rfl | rfl
      · exact parts_of_not_mem hc
      · exact parts_eq [] hc
    obtain ⟨-, -, dir, hdir, rfl⟩ := h
    rw [hparts.2, components_nil, List.append_nil] at hb ⊢
    rw [NewIdFits, NamesSibling, ← hends, and_iff_right hne,
      or_iff_right (not_not.mpr hslash), hdir,
      names_pkgName_iff]
    simp only [Option.some.injEq, exists_eq_left', hparts.2, true_implies]
  · obtain ⟨parent, hparent, rfl⟩ := (names_slash_iff hprefix hne).mp ht
    have hreal : components (p.realPath documentId) = components (p.realPath pre) ++
        components c := by
      rw [hdocument, (virtualName_slash hprefix hne rest).2]
      rcases hrest with rfl | rfl
      · rfl
      · rw [components_append_slash, components_nil, List.append_nil]
    have hnew :
        Names p (pre ++ '/' :: displayName)
          (childFile (parent ++ components c).dropLast displayName) ↔
        (parent ++ components c).dropLast = parent := by
      rw [names_slash_iff hprefix hne, childFile]
      constructor
      · rintro ⟨parent', hparent', heq⟩
        rw [List.append_cancel_right heq, hparent.unique hparent']
      · exact fun heq => ⟨parent, hparent, by rw [heq]⟩
    rw [hnew, NewIdFits, ← hends]
    by_cases hnil : c = []
    · refine iff_of_false (fun heq => hb ?_) fun h => h.1 hnil
      rw [hnil, components_nil, List.append_nil] at heq ⊢
      have hlength := congrArg List.length heq
      rw [List.length_dropLast] at hlength
      exact List.eq_nil_of_length_eq_zero (by omega)
    · rw [components_of_not_mem hnil hc] at hreal ⊢
      refine iff_of_true List.dropLast_concat ⟨hnil, fun hnone => ?_⟩
      rw [hnone, components_nil] at hreal
      exact absurd hreal.symm (by simp)

def RenamesInPlace (p : MTDataFilesProvider) (refuses : Disk → Path → Bool) (d : Disk)
    (documentId displayName : Text) : Prop :=
  ∀ b, p.b_getFileForDocId (lstatSucceeds d.fs) documentId true = .ok (some b) →
    renameTo refuses d b (childFile b.dropLast displayName) = none ∨
      NewIdFits p documentId displayName ∧ NewNameFree d b (childFile b.dropLast displayName)

/-- **Renaming.** The id that is returned names the renamed file in these cases only. -/
theorem renameDocument_handsOut_iff (refuses : Disk → Path → Bool) {d : Disk} (closed : Closed d.fs)
    (hpkg : '/' ∉ p.b_pkgName)
    (documentId displayName : Text) :
    HandsOut p d (p.renameDocument refuses d documentId displayName).answer ↔
      RenamesInPlace p refuses d documentId displayName := by
  unfold renameDocument RenamesInPlace
  cases hfile : p.b_getFileForDocId (lstatSucceeds d.fs) documentId true with
  | error e => exact iff_of_true (handsOut_fileNotFound p d _) nofun
  | ok file =>
    cases file with
    | none => exact iff_of_true (handsOut_fileNotFound p d _) nofun
    | some b =>
      have hcond : ∀ {condition : Path → Prop},
          (∀ b', Except.ok (ε := FileNotFound) (some b) = .ok (some b') → condition b') ↔
              condition b := by
        intro condition
        refine ⟨fun h => h _ rfl, fun h b' hb => ?_⟩
        cases hb
        exact h
      rw [hcond]
      dsimp only
      cases hrename : renameTo refuses d b (childFile b.dropLast displayName) with
      | none => exact iff_of_true (handsOut_fileNotFound p d _) (.inl rfl)
      | some d' =>
        rw [or_iff_right nofun]
        obtain ⟨q, c, hb, -, -⟩ := name_of_renameTo closed hrename
        dsimp only
        split
        case isTrue hslash =>
          rw [handsOut_renamed_iff hrename,
            names_renamed_iff hpkg
              (hb ▸ List.append_ne_nil_of_right_ne_nil q (List.cons_ne_nil c []))
              (getFile_iff.mp hfile).1 hslash]
        case isFalse hslash =>
          have hfits : NewIdFits p documentId displayName := by
            refine ⟨fun ⟨s, hs⟩ => hslash ?_, fun _ => .inl hslash⟩
            rw [← hs]
            simp
          rw [and_iff_right hfits, ← keeps_renamed_iff hrename]
          exact ⟨fun h => h.keeps _ rfl,
            fun h => ⟨fun _ hrow => absurd hrow List.not_mem_nil,
            fun newFile hnew => Option.some.inj hnew ▸ h⟩⟩

/-! ## Listing -/

/-- The ids of the top directories name them. -/
theorem names_directory {name : Text} {dir : Path} (hslash : '/' ∉ name)
    (hdir : p.directory name = some dir) :
    Names p (p.b_pkgName ++ '/' :: name) dir := by
  have hne : name ≠ [] := by
    rintro rfl
    rw [directory_nil] at hdir
    cases hdir
  obtain ⟨hname, hreal⟩ := parts_of_not_mem hslash
  unfold Names virtualName realPath
  rw [virtualPath_pkgName, hname, hreal, components_nil]
  exact ⟨List.prefix_append _ _, hne, dir, hdir, (List.append_nil dir).symm⟩

/-- The ids of the root. -/
theorem getFile_root_iff {lstat : Path → Bool} {z : Bool} :
    p.b_getFileForDocId lstat documentId z = .ok none ↔ documentId = p.b_pkgName ∨
      documentId = p.b_pkgName ++ ['/'] := by
  constructor
  · intro h
    obtain ⟨⟨after, rfl⟩, hroot⟩ := of_getFile_root h
    unfold virtualPath at hroot
    rw [List.drop_left] at hroot
    cases after with
    | nil => exact .inl (List.append_nil _)
    | cons c after =>
      have hcons : (if some c = some '/' then after else c :: after) = [] := hroot
      by_cases hc : some c = some '/'
      · rw [if_pos hc] at hcons
        rw [hcons, Option.some.inj hc]
        exact .inr rfl
      · rw [if_neg hc] at hcons
        cases hcons
  · intro h
    have hroot : p.b_pkgName <+: documentId ∧ p.virtualPath documentId = [] := by
      rcases h with rfl | rfl
      · refine ⟨List.prefix_refl _, ?_⟩
        unfold virtualPath
        rw [List.drop_length]
        rfl
      · exact ⟨List.prefix_append _ _, virtualPath_pkgName p []⟩
    unfold b_getFileForDocId
    rw [if_neg (not_not.mpr (List.isPrefixOf_iff_prefix.mpr hroot.1)), if_pos hroot.2]

theorem directoryRow_spec {fs : FileSystem} {dir? : Option Path} {row : Text × Path}
    (h : row ∈ directoryRow fs documentId dir?) : row.1 = documentId ∧ dir? = some row.2 := by
  unfold directoryRow at h
  split at h
  case h_1 dir =>
    split at h
    case isTrue =>
      rw [List.mem_singleton.mp h]
      exact ⟨rfl, rfl⟩
    case isFalse => exact absurd h List.not_mem_nil
  case h_2 => exact absurd h List.not_mem_nil

/-- The directories of the root have their names for ids. -/
theorem names_rootRow {fs : FileSystem} {row : Text × Path}
    (h : row ∈ (p.b_pkgName ++ "/data".toList, p.c_dataDir) ::
      (directoryRow fs (p.b_pkgName ++ "/android_data".toList) p.e_androidDataDir ++
        directoryRow fs (p.b_pkgName ++ "/android_obb".toList) p.f_androidObbDir ++
        directoryRow fs (p.b_pkgName ++ "/user_de_data".toList) p.d_user_deDataDir)) :
    Names p row.1 row.2 := by
  simp only [List.mem_cons, List.mem_append] at h
  rcases h with rfl | (h | h) | h
  · exact @names_directory p "data".toList _ (by decide) rfl
  · obtain ⟨hid, hdir⟩ := directoryRow_spec h
    have hdata : ¬ equalsIgnoreCase "android_data".toList "data" = true := by decide
    have hname : equalsIgnoreCase "android_data".toList "android_data" = true := by decide
    rw [hid]
    refine @names_directory p "android_data".toList _ (by decide) ?_
    rw [directory, if_neg hdata, if_pos ⟨hname, by rw [hdir]; exact Option.some_ne_none _⟩, hdir]
  · obtain ⟨hid, hdir⟩ := directoryRow_spec h
    have hdata : ¬ equalsIgnoreCase "android_obb".toList "data" = true := by decide
    have handroid : ¬ equalsIgnoreCase "android_obb".toList "android_data" = true := by decide
    have hname : equalsIgnoreCase "android_obb".toList "android_obb" = true := by decide
    rw [hid]
    refine @names_directory p "android_obb".toList _ (by decide) ?_
    rw [directory, if_neg hdata, if_neg fun h => handroid h.1,
      if_pos ⟨hname, by rw [hdir]; exact Option.some_ne_none _⟩, hdir]
  · obtain ⟨hid, hdir⟩ := directoryRow_spec h
    have hdata : ¬ equalsIgnoreCase "user_de_data".toList "data" = true := by decide
    have handroid : ¬ equalsIgnoreCase "user_de_data".toList "android_data" = true := by decide
    have hobb : ¬ equalsIgnoreCase "user_de_data".toList "android_obb" = true := by decide
    have hname : equalsIgnoreCase "user_de_data".toList "user_de_data" = true := by decide
    rw [hid]
    refine @names_directory p "user_de_data".toList _ (by decide) ?_
    rw [directory, if_neg hdata, if_neg fun h => handroid h.1, if_neg fun h => hobb h.1,
      if_pos ⟨hname, by rw [hdir]; exact Option.some_ne_none _⟩, hdir]

theorem withoutSlash_eq_root_slash_iff (parentDocumentId : Text) :
    withoutSlash parentDocumentId = p.b_pkgName ++ ['/'] ↔
      parentDocumentId = p.b_pkgName ++ "//".toList := by
  have hslashes : p.b_pkgName ++ "//".toList = p.b_pkgName ++ ['/'] ++ ['/'] := by
    rw [List.append_assoc]
    rfl
  rw [hslashes]
  constructor
  · intro h
    rcases eq_withoutSlash parentDocumentId with ⟨heq, hlast⟩ | heq
    · rw [heq, h, List.getLast?_concat] at hlast
      exact absurd rfl hlast
    · rw [heq, h]
  · intro h
    rw [h, withoutSlash, List.getLast?_concat, if_pos rfl, List.dropLast_concat]

/-- **Listing.** Every row names its file, but for the root's id with a second slash. -/
theorem queryChildDocuments_handsOut_iff {d : Disk} (closed : Closed d.fs)
    (refuses : Disk → Path → Bool)
    (parentDocumentId : Text) :
    HandsOut p d (p.answer refuses d (.queryChildDocuments parentDocumentId)) ↔
      parentDocumentId ≠ p.b_pkgName ++ "//".toList := by
  rw [ne_eq, ← withoutSlash_eq_root_slash_iff]
  have hrows : ∀ answered : Except FileNotFound (List (Text × Path)),
      HandsOut p d ⟨d, none, answered.toOption.getD []⟩ ↔ ∀ rows, answered = .ok rows →
          ∀ row ∈ rows, Names p row.1 row.2 := by
    intro answered
    cases answered with
    | error e =>
      exact iff_of_true
        ⟨fun _ hrow => absurd hrow List.not_mem_nil, fun _ hnew => by cases hnew⟩ nofun
    | ok rows =>
      constructor
      · intro h rows' heq row hrow
        cases heq
        exact resolvesTo_iff.mp (h.resolves row hrow)
      · exact fun h =>
          ⟨fun row hrow => resolvesTo_iff.mpr (h rows rfl row hrow), fun _ hnew => by cases hnew⟩
  rw [answer, hrows]
  unfold queryChildDocuments
  dsimp only
  generalize withoutSlash parentDocumentId = id
  cases hfile : p.b_getFileForDocId (lstatSucceeds d.fs) id true with
  | error e =>
    refine iff_of_true nofun fun heq => ?_
    rw [getFile_root_iff.mpr (.inr heq)] at hfile
    cases hfile
  | ok file =>
    cases file with
    | none =>
      dsimp only
      rcases getFile_root_iff.mp hfile with rfl | rfl
      · refine iff_of_true (fun rows heq row hrow => ?_) (by simp)
        cases heq
        exact names_rootRow hrow
      · refine iff_of_false (fun h => ?_) (not_not.mpr rfl)
        have hdata := h _ rfl _ List.mem_cons_self
        rcases hdata.eq_or_below (List.prefix_append _ _) with heq | hne
        · simp at heq
        · exact hne (virtualPath_pkgName p [])
    | some parent =>
      have hparent := (getFile_iff.mp hfile).1
      refine iff_of_true (fun rows heq row hrow => ?_) fun heq => ?_
      · cases heq
        obtain ⟨name, hname, rfl⟩ := List.mem_map.mp hrow
        obtain ⟨names, hlist, hmem⟩ : ∃ names, list d.fs parent = some names ∧ name ∈ names := by
          cases hlist : list d.fs parent with
          | none =>
            rw [hlist] at hname
            exact absurd hname List.not_mem_nil
          | some names =>
            rw [hlist] at hname
            exact ⟨names, rfl, hname⟩
        obtain ⟨l, -, hread⟩ := Option.bind_eq_some_iff.mp hlist
        split at hread
        case isFalse => cases hread
        case isTrue =>
          rw [← Option.some.inj hread] at hmem
          obtain ⟨hne, -, -, hslash⟩ := closed.names l name (mem_children.mp hmem)
          refine (names_slash_iff hparent.1 hparent.2.1).mpr ⟨parent, hparent, ?_⟩
          rw [components_of_not_mem hne hslash]
      · rw [getFile_root_iff.mpr (.inr heq)] at hfile
        cases hfile

/-! ## All requests -/

/-- Where the ids are right and nothing is replaced. -/
def Careful (p : MTDataFilesProvider) (refuses : Disk → Path → Bool) (d : Disk) : Request → Prop
  | .createDocument parentDocumentId mimeType displayName =>
    CreatesInParent p refuses d parentDocumentId mimeType displayName
  | .moveDocument sourceDocumentId targetParentDocumentId =>
    MovesToFree p refuses d sourceDocumentId targetParentDocumentId
  | .renameDocument documentId displayName => RenamesInPlace p refuses d documentId displayName
  | .queryChildDocuments parentDocumentId => parentDocumentId ≠ p.b_pkgName ++ "//".toList

/-- An app with two files. -/
def twoFiles : Disk where
  fs :=
    { entries :=
        [(["data".toList], .dir 0o755), (["data", "user"].map String.toList, .dir 0o755),
          (["data", "user", "0"].map String.toList, .dir 0o755),
          (["data", "user", "0", "com.example"].map String.toList, .dir 0o700),
          (["data", "user", "0", "com.example", "a"].map String.toList, .file [1] 0o600),
          (["data", "user", "0", "com.example", "b"].map String.toList, .file [2] 0o600)]
      nodup := by decide +kernel }
  log := []

theorem closed_twoFiles : Closed twoFiles.fs :=
  closed_of_wellPlaced (List.all_eq_true.mp (by decide +kernel))

end WinEmulator.App.MTDataFilesProvider
