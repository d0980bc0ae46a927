import WinEmulator.Laws.X11.ChangePreference
import WinEmulator.X11.PreferenceCli

/-!
# The lines of the preferences

The answer to `list` has a line for each preference, with its value in quotes that nothing in it is
escaped for. The command line takes such lines for a request: it splits each of them at every equals
sign, takes the quotes off the first two parts and ends without a request if there is nothing
between them. A value is read as it was printed exactly if it has no equals sign and consists of
whole characters.
-/

set_option autoImplicit false

namespace WinEmulator.X11.LoriePreferences

open WinEmulator.Lib
open WinEmulator.Lib.JavaString
open Receiver (Extras Ended line println putLine unquote)

/-- Every preference has a value of its type. -/
def PrefsProto.Readable (p : PrefsProto) : Prop := ∀ pref ∈ keys, ∃ value, p.value pref = .ok value

def OneLine (s : JString) : Prop := ∀ u ∈ s, isLineSeparator u = false

instance : DecidablePred OneLine :=
  fun s => List.decidableBAll (fun u => isLineSeparator u = false) s

/-- No string goes over the end of a line. -/
def PrefsProto.OneLined (p : PrefsProto) : Prop :=
  ∀ pref ∈ keys, ∀ s, p.value pref = .ok (.string s) → OneLine s

/-! ## Lines -/

/-- What the second part of a line is read as. -/
def fed (s : JString) : Except Ended JString :=
  unquote ((text "\"" ++ s ++ text "\"").takeWhile (· ≠ unit '='))

theorem unquote_quoted (s : JString) : unquote (text "\"" ++ s ++ text "\"") = .ok s := by
  have hquote : text "\"" = [unit '"'] := by decide
  rw [hquote, unquote, if_pos ⟨rfl, List.getLast?_concat⟩, if_neg (by simp)]
  simp

theorem fed_of_not_mem {s : JString} (h : unit '=' ∉ s) : fed s = .ok s := by
  have hall :
      (text "\"" ++ s ++ text "\"").takeWhile (· ≠ unit '=') = text "\"" ++ s ++ text "\"" := by
    refine List.takeWhile_eq_self_iff.mpr fun u hu => decide_eq_true ?_
    rintro rfl
    rw [List.mem_append, List.mem_append] at hu
    exact hu.elim (fun hu => hu.elim (by decide) h) (by decide)
  rw [fed, hall, unquote_quoted]

/-- What is read has no equals sign. -/
theorem not_mem_of_fed {s v : JString} (h : fed s = .ok v) : unit '=' ∉ v := by
  have htaken : unit '=' ∉ (text "\"" ++ s ++ text "\"").takeWhile (· ≠ unit '=') := fun hmem => by
    simpa using List.mem_takeWhile_imp hmem
  unfold fed unquote at h
  split at h
  case isTrue =>
    split at h
    case isTrue => cases h
    case isFalse =>
      obtain rfl := Except.ok.inj h
      exact fun hmem => htaken (List.mem_of_mem_tail (List.dropLast_subset _ hmem))
  case isFalse =>
    obtain rfl := Except.ok.inj h
    exact htaken

/-- A line asks for what its second part is read as. -/
theorem putLine_line {key : JString} (hkey : unit '=' ∉ key) (i : Extras) (s : JString) :
    putLine i (line key s) = (fed s).map fun v => i.set (some key) (some (some v)) := by
  have hquote : text "\"" = [unit '"'] := by decide
  have hfirst : unit '=' ∉ text "\"" ++ key ++ text "\"" := by
    rw [List.mem_append, List.mem_append]
    exact fun hmem => hmem.elim (fun hmem => hmem.elim (by decide) hkey) (by decide)
  have hline :
      line key s = (text "\"" ++ key ++ text "\"") ++ unit '=' ::
        (text "\"" ++ s ++ text "\"") := by
    rw [line, show text "\"=\"" = text "\"" ++ unit '=' :: text "\"" by decide]
    simp [List.append_assoc]
  have hsecond : (text "\"" ++ s ++ text "\"").takeWhile (· ≠ unit '=') ≠ [] := by
    rw [hquote, List.singleton_append, List.cons_append, List.takeWhile_cons_of_pos (by decide)]
    exact List.cons_ne_nil _ _
  obtain ⟨rest, hsplit⟩ := split_append_cons hfirst hsecond
  rw [putLine, hline, if_neg (not_not.mpr (List.mem_append_right _ List.mem_cons_self)), hsplit]
  show (unquote (text "\"" ++ key ++ text "\"")).bind _ = _
  rw [unquote_quoted]
  rfl

/-- A line without a line break is read back as it was. -/
theorem nextLines_append {s : JString} (h : OneLine s) (before rest : JString) :
    nextLines false before (s ++ text "\n" ++ rest) = (before ++ s) :: nextLines false [] rest := by
  induction s generalizing before with
  | nil =>
    rw [show text "\n" = [0x0A] by decide, List.nil_append, List.singleton_append, nextLines,
      if_neg (by simp),
      if_pos (by decide), List.append_nil]
    rfl
  | cons u us ih =>
    have hu := h u List.mem_cons_self
    rw [List.cons_append, List.cons_append, nextLines, if_neg (by simp), if_neg (by simp [hu]),
      ih fun v hv => h v (List.mem_cons_of_mem _ hv)]
    simp

/-- The lines of lines. -/
theorem nextLines_flatten {ss : List JString} (h : ∀ s ∈ ss, OneLine s) :
    nextLines false [] (ss.map (· ++ text "\n")).flatten = ss := by
  induction ss with
  | nil => rfl
  | cons s ss ih =>
    rw [List.map_cons, List.flatten_cons, nextLines_append (h s List.mem_cons_self) [],
      ih fun t ht => h t (List.mem_cons_of_mem _ ht), List.nil_append]

/-- Printed, a line has its value as that is written out. -/
theorem written_line {key : JString} (hkey : Utf16.written key = key) (s rest : JString) :
    Utf16.written (line key s ++ text "\n" ++ rest) =
      line key (Utf16.written s) ++ text "\n" ++ Utf16.written rest := by
  obtain ⟨cs, rfl⟩ : ∃ cs, key = Utf16.encode cs := ⟨Utf16.decode key, hkey.symm⟩
  have hopen : text "\"" ++ Utf16.encode cs ++ text "\"=\"" =
      Utf16.encode ("\"".toList ++ cs ++ "\"=\"".toList) := by
    rw [Utf16.encode_append, Utf16.encode_append]
    rfl
  have hclose : text "\"" ++ text "\n" = Utf16.encode ("\"".toList ++ "\n".toList) := by
    rw [Utf16.encode_append]
    rfl
  have hsplit (t r : JString) : line (Utf16.encode cs) t ++ text "\n" ++ r =
      Utf16.encode ("\"".toList ++ cs ++ "\"=\"".toList) ++
          (t ++ (Utf16.encode ("\"".toList ++ "\n".toList) ++ r)) := by
    rw [line, ← hopen, ← hclose]
    simp only [List.append_assoc]
  rw [hsplit, hsplit, Utf16.written, Utf16.decode_encode_append, Utf16.encode_append]
  refine congrArg _ ?_
  have hquote :
      ∀ u ∈ (Utf16.encode ("\"".toList ++ "\n".toList) ++ rest).head?,
        Utf16.isLowSurrogate u = false := by
    intro u hu
    obtain rfl : unit '"' = u := Option.some.inj hu
    decide
  show Utf16.written (s ++ _) = _
  rw [Utf16.written_append hquote]
  refine congrArg _ ?_
  rw [Utf16.written, Utf16.decode_encode_append, Utf16.encode_append]
  rfl

/-- Writing the whole text writes each line. -/
theorem written_flatten {key value : Preference → JString} {prefs : List Preference}
    (hkey : ∀ pref ∈ prefs, Utf16.written (key pref) = key pref) :
    Utf16.written (prefs.map fun pref => line (key pref) (value pref) ++ text "\n").flatten =
      (prefs.map fun pref =>
        line (key pref) (Utf16.written (value pref)) ++ text "\n").flatten := by
  induction prefs with
  | nil => rfl
  | cons pref prefs ih =>
    rw [List.map_cons, List.flatten_cons, written_line (hkey pref List.mem_cons_self),
      ih fun other hother => hkey other (List.mem_cons_of_mem _ hother), List.map_cons,
        List.flatten_cons]

/-- Writing a string out puts no end of a line into it. -/
theorem oneLine_written {s : JString} (h : OneLine s) : OneLine (Utf16.written s) := by
  intro u hu
  cases hseparator : isLineSeparator u with
  | false => rfl
  | true =>
    have hlow : u.toNat < 0xD800 ∧ u ≠ 0x3F := by
      simp only [isLineSeparator, List.mem_cons, List.not_mem_nil, or_false, decide_eq_true_eq]
        at hseparator
      rcases hseparator with rfl | rfl | rfl | rfl | rfl <;> decide
    exact absurd (h u ((Utf16.mem_written hlow.1 hlow.2).mp hu)) (by simp [hseparator])

theorem equals_mem_written {s : JString} : unit '=' ∈ Utf16.written s ↔ unit '=' ∈ s :=
  Utf16.mem_written (by decide) (by decide)

/-- **A value is printed and read as itself** exactly if it has no equals sign and is written out as
it is. -/
theorem fed_written_eq_iff {s : JString} :
    fed (Utf16.written s) = .ok s ↔ unit '=' ∉ s ∧ Utf16.written s = s := by
  constructor
  · intro h
    have hnot : unit '=' ∉ s := not_mem_of_fed h
    have hfed := fed_of_not_mem fun hmem => hnot (equals_mem_written.mp hmem)
    exact ⟨hnot, Except.ok.inj (hfed.symm.trans h)⟩
  · rintro ⟨hnot, hwritten⟩
    rw [hwritten]
    exact fed_of_not_mem hnot

/-! ## The request -/

/-- What `list` says of a preference. -/
def shownOf (p : PrefsProto) (pref : Preference) : JString :=
  match Receiver.listed p.stores.builtInDisplayPreferences p.get pref with
  | .ok s => s
  | .error _ => []

/-- What is asked for a preference. -/
def askedOf (p : PrefsProto) (pref : Preference) : JString :=
  match fed (Utf16.written (shownOf p pref)) with
  | .ok v => v
  | .error _ => []

theorem mapM_ok {α β ε : Type} {f : α → Except ε β} (g : α → β) {xs : List α}
    (h : ∀ x ∈ xs, f x = .ok (g x)) :
    xs.mapM f = .ok (xs.map g) := by
  induction xs with
  | nil => rfl
  | cons x xs ih =>
    rw [List.mapM_cons, h x List.mem_cons_self, ih fun y hy => h y (List.mem_cons_of_mem _ hy)]
    rfl

/-- The list has one line for each preference of the device. -/
theorem list_eq {device : Device} {p : PrefsProto}
    (h : ∀ pref ∈ keys, ∃ s,
      Receiver.listed p.stores.builtInDisplayPreferences p.get pref = .ok s) :
    Receiver.list device p.stores.builtInDisplayPreferences p.get =
      .ok (device.keysValues.map fun pref =>
        line pref.key (shownOf p pref) ++ text "\n").flatten.dropLast := by
  have hlines : ∀ pref ∈ device.keysValues,
      ((Receiver.listed p.stores.builtInDisplayPreferences p.get pref).map fun value =>
        line pref.key value ++ text "\n") =
        .ok (line pref.key (shownOf p pref) ++ text "\n") := by
    intro pref hpref
    obtain ⟨s, hs⟩ := h pref (device.perm.mem_iff.mp hpref)
    simp only [shownOf, hs, Except.map]
  rw [Receiver.list, mapM_ok _ hlines]
  rfl

/-- The extras after lines that are read. -/
theorem foldlM_putLine {key asked shown : Preference → JString} {prefs : List Preference}
    (hkey : ∀ pref ∈ prefs, unit '=' ∉ key pref)
    (h : ∀ pref ∈ prefs, fed (shown pref) = .ok (asked pref)) (i : Extras) :
    (prefs.map fun pref => line (key pref) (shown pref)).foldlM putLine i =
      .ok (prefs.foldl (fun i pref => i.set (some (key pref)) (some (some (asked pref)))) i) := by
  induction prefs generalizing i with
  | nil => rfl
  | cons pref prefs ih =>
    rw [List.map_cons, List.foldlM_cons, putLine_line (hkey pref List.mem_cons_self),
      h pref List.mem_cons_self]
    exact ih (fun other hother => hkey other (List.mem_cons_of_mem _ hother))
      (fun other hother => h other (List.mem_cons_of_mem _ hother)) _

/-- If there are extras after lines, each of them was read. -/
theorem exists_fed_of_foldlM {key shown : Preference → JString} {prefs : List Preference}
    (hkey : ∀ pref ∈ prefs, unit '=' ∉ key pref) {i request : Extras}
    (h : (prefs.map fun pref => line (key pref) (shown pref)).foldlM putLine i = .ok request) :
    ∀ pref ∈ prefs, ∃ v, fed (shown pref) = .ok v := by
  induction prefs generalizing i with
  | nil => exact fun pref hpref => absurd hpref List.not_mem_nil
  | cons first prefs ih =>
    rw [List.map_cons, List.foldlM_cons, putLine_line (hkey first List.mem_cons_self)] at h
    cases hfed : fed (shown first) with
    | error ended =>
      rw [hfed] at h
      cases h
    | ok v =>
      rw [hfed] at h
      refine List.forall_mem_cons.mpr ⟨⟨v, hfed⟩, ?_⟩
      exact ih (fun other hother => hkey other (List.mem_cons_of_mem _ hother)) h

/-- What a request has that asks a value for each preference. -/
structure Asks (asked : Preference → JString) (extras : Extras) : Prop where
  get : ∀ pref ∈ keys, extras.get (some pref.key) = some (some (asked pref))
  only : ∀ key newValue, extras.get (some key) = some (some newValue) →
    ∃ pref ∈ keys, pref.key = key

theorem get_congr_of_perm {extras request : Extras} (h : extras.entries.Perm request.entries)
    (key : Option JString) :
    extras.get key = request.get key := by
  apply Option.ext
  intro value
  have hmem : (key, value) ∈ extras.entries ↔ (key, value) ∈ request.entries := h.mem_iff
  rw [extras.mem_entries_iff, request.mem_entries_iff] at hmem
  exact hmem

/-- The order of the extras does not matter. -/
theorem Asks.of_perm {asked : Preference → JString} {extras request : Extras}
    (h : Asks asked request)
    (hperm : extras.entries.Perm request.entries) : Asks asked extras where
  get pref hpref := (get_congr_of_perm hperm _).trans (h.get pref hpref)
  only key newValue hget := h.only key newValue ((get_congr_of_perm hperm _).symm.trans hget)

/-- The extras written one after the other ask for each preference. -/
theorem asks_foldl {device : Device} (asked : Preference → JString) :
    Asks asked (device.keysValues.foldl
      (fun i pref => i.set (some pref.key) (some (some (asked pref))))
      (LinkedMap.empty.set none (some none))) := by
  have hrequest :
      device.keysValues.foldl (fun i pref => i.set (some pref.key) (some (some (asked pref))))
      (LinkedMap.empty.set none (some none)) =
        (LinkedMap.ofList
            ((none, none) :: device.keysValues.map fun pref => (some pref.key, some (asked pref))) :
            Extras) := by
    rw [LinkedMap.ofList, List.foldl_cons, List.foldl_map]
  have hnodup :
      (((none, none) :: device.keysValues.map fun pref => (some pref.key, some (asked pref)) :
      List (Option JString × Option JString)).map Prod.fst).Nodup := by
    rw [List.map_cons, List.map_map, List.nodup_cons]
    refine ⟨fun hmem => ?_, ?_⟩
    · obtain ⟨pref, -, heq⟩ := List.mem_map.mp hmem
      cases heq
    · have hkeys : (device.keysValues.map Preference.key).Nodup :=
        (device.perm.map _).nodup_iff.mpr keys_nodup
      have hsome := hkeys.map fun _ _ heq => Option.some.inj heq
      rwa [List.map_map] at hsome
  constructor
  · intro pref hpref
    rw [hrequest, LinkedMap.get_ofList]
    refine LinkedMap.lastValue_of_nodup hnodup (e := (some pref.key, some (asked pref)))
      (List.mem_cons_of_mem _ ?_)
    exact List.mem_map.mpr ⟨pref, device.perm.mem_iff.mpr hpref, rfl⟩
  · intro key newValue hget
    rw [hrequest, LinkedMap.get_ofList] at hget
    rcases List.mem_cons.mp (LinkedMap.mem_of_lastValue hget) with heq | hmem
    · cases heq
    · obtain ⟨pref, hpref, heq⟩ := List.mem_map.mp hmem
      exact ⟨pref, device.perm.mem_iff.mp hpref, Option.some.inj (congrArg Prod.fst heq)⟩

/-! ## What is shown -/

/-- A string that goes through the printer and the reader. -/
def Passes (s : JString) : Prop := OneLine s ∧ unit '=' ∉ s ∧ Utf16.written s = s

instance : DecidablePred Passes :=
  fun s => inferInstanceAs (Decidable (OneLine s ∧ unit '=' ∉ s ∧ Utf16.written s = s))

/-- The text of a value of a list. -/
def label (entries values : StringArray) (s : JString) : JString :=
  if values.getStringArray.idxOf (some s) < values.getStringArray.length then
    ((entries.getStringArray[values.getStringArray.idxOf (some s)]?).getD none).getD (text "null")
  else s

/-- The text of each value is one of the texts that are read as it, and every text passes. -/
def Labels (entries values : StringArray) : Prop :=
  entries.getStringArray.length = values.getStringArray.length ∧
    (∀ entry ∈ entries.getStringArray, Passes (entry.getD (text "null"))) ∧
    ∀ s ∈ values.strings, Passes s ∧
      (Receiver.indexOf entries values (label entries values s)).bind
        (fun index => values.strings[index]?) = some s

instance (entries values : StringArray) : Decidable (Labels entries values) :=
  inferInstanceAs (Decidable (_ ∧ _ ∧ _))

theorem passes_keys : ∀ pref ∈ keys, Passes pref.key ∧ pref.key ≠ text "list" := by
  decide +kernel

/-- Every list is labelled. -/
theorem labels_keys : ∀ pref ∈ keys, match pref with
    | .list _ _ entries values => Labels entries values
    | _ => True := by
  have hchoices :
      Labels displayResolutionVariants displayResolutionVariants ∧
        Labels displayResolution displayResolution ∧
      Labels forceOrientationVariants forceOrientationVariants ∧
      Labels touchscreenInputModesEntries touchscreenInputModesValues ∧
      Labels transformCapturedPointerEntries transformCapturedPointerValues ∧
        Labels userActionsValues userActionsValues ∧
      Labels userActionsVolumeUpValues userActionsVolumeUpValues ∧
      Labels userActionsVolumeDownValues userActionsVolumeDownValues ∧
      Labels userActionsMediaKeyValues userActionsMediaKeyValues := by
    decide +kernel
  obtain ⟨hvariants, hresolution, horientation, htouch, htransform, hactions, hup, hdown, hmedia⟩ :=
    hchoices
  simp [keys, displayResolutionMode, displayScale, displayResolutionExact, displayResolutionCustom,
    adjustResolution,
    hideCutout, showAdditionalKbd, additionalKbdVisible, enableAccessibilityServiceAutomatically,
    storeSecondaryDisplayPreferencesSeparately, extra_keys_config, hvariants, hresolution,
      horientation, htouch, htransform,
    hactions, hup, hdown, hmedia]

section

variable {p : PrefsProto} {key : JString}

theorem exists_of_map {α β ε : Type} {e : Except ε α} {f : α → β} {b : β} (h : e.map f = .ok b) :
    ∃ a, e = .ok a ∧ b = f a := by
  cases e with
  | error thrown => cases h
  | ok a => exact ⟨a, rfl, (Except.ok.inj h).symm⟩

/-- A text is listed as it is. -/
theorem value_string {defValue : JString} {value : PrefValue}
    (h : p.value (.string key defValue) = .ok value) :
    ∃ s, value = .string s ∧
      Receiver.listed p.stores.builtInDisplayPreferences p.get (.string key defValue) = .ok s := by
  obtain ⟨s, hstored, rfl⟩ :=
    exists_of_map (show (p.get.getString key defValue).map .string = .ok value from h)
  exact ⟨s, rfl, hstored⟩

/-- A number is listed in decimal digits. -/
theorem value_int {defValue : Int32} {value : PrefValue}
    (h : p.value (.int key defValue) = .ok value) :
    ∃ n, value = .int n ∧
      Receiver.listed p.stores.builtInDisplayPreferences p.get (.int key defValue) =
        .ok (ofInt n) := by
  obtain ⟨n, hstored, rfl⟩ :=
    exists_of_map (show (p.get.getInt key defValue).map .int = .ok value from h)
  exact ⟨n, rfl, congrArg (Except.map ofInt) hstored⟩

/-- A flag is listed as `true` or `false`. -/
theorem value_boolean {defValue : Bool} {value : PrefValue}
    (h : p.value (.boolean key defValue) = .ok value) :
    ∃ b, value = .boolean b ∧
      Receiver.listed p.stores.builtInDisplayPreferences p.get (.boolean key defValue) =
        .ok (ofBool b) := by
  obtain ⟨b, hstored, rfl⟩ :=
    exists_of_map (show (BooleanPreference.get p key defValue).map .boolean = .ok value from h)
  have hlisted : Receiver.listed p.stores.builtInDisplayPreferences p.get (.boolean key defValue) =
      (BooleanPreference.get p key defValue).map ofBool := by
    rw [Receiver.listed, BooleanPreference.get]
    exact (apply_ite (Except.map ofBool) _ _ _).symm
  exact ⟨b, rfl, hlisted.trans (congrArg (Except.map ofBool) hstored)⟩

/-- A choice is listed as one of its values. -/
theorem value_list {defValue : JString} {entries values : StringArray} {value : PrefValue}
    (hpref : .list key defValue entries values ∈ keys)
    (h : p.value (.list key defValue entries values) = .ok value) :
    ∃ s, value = .string s ∧
      Receiver.listed p.stores.builtInDisplayPreferences p.get (.list key defValue entries values) =
        .ok (label entries values s) := by
  obtain ⟨s, hstored, rfl⟩ :=
    exists_of_map (show (p.get.getString key defValue).map .string = .ok value from h)
  have hlength : entries.getStringArray.length = values.getStringArray.length :=
    (labels_keys _ hpref).1
  refine ⟨s, rfl, ?_⟩
  rw [Receiver.listed, hstored]
  show (if _ then _ else _) = _
  unfold label
  split
  case isTrue hindex =>
    rw [List.getElem?_eq_getElem (hlength ▸ hindex)]
    rfl
  case isFalse => rfl

theorem shownOf_eq {pref : Preference} {s : JString}
    (h : Receiver.listed p.stores.builtInDisplayPreferences p.get pref = .ok s) :
    shownOf p pref = s := by
  rw [shownOf, h]

/-- What a list shows is its value, or passes. -/
theorem label_eq_or {entries values : StringArray} (h : Labels entries values) (s : JString) :
    label entries values s = s ∨ Passes (label entries values s) := by
  unfold label
  split
  case isTrue hindex =>
    rw [List.getElem?_eq_getElem (h.1 ▸ hindex)]
    exact .inr (h.2.1 _ (List.getElem_mem _))
  case isFalse => exact .inl rfl

theorem passes_text {s : String} (h : OneLine (text s)) (hequals : unit '=' ∉ text s) :
    Passes (text s) :=
  ⟨h, hequals, Utf16.written_encode s.toList⟩

theorem passes_ofBool (b : Bool) : Passes (ofBool b) := by
  cases b <;> exact passes_text (by decide) (by decide)

/-- The digits of a number pass the command line. -/
theorem passes_ofInt (n : Int32) : Passes (ofInt n) := by
  have hchar : ∀ c ∈ (toString n.toInt).toList, c.isDigit = true ∨ c = '-' := by
    intro c hc
    rw [toList_toString_int] at hc
    split at hc
    case isTrue => exact .inl (isDigit_of_mem_toDigits c hc)
    case isFalse => exact (List.mem_cons.mp hc).symm.imp_left (isDigit_of_mem_toDigits c)
  have hunit : ∀ u ∈ ofInt n, 0x2D ≤ u.toNat ∧ u.toNat < 0x3D := by
    intro u hu
    obtain ⟨c, hc, hmem⟩ := List.mem_flatMap.mp hu
    rcases hchar c hc with hdigit | rfl
    · obtain ⟨hplain, hlow, hhigh⟩ := plain_of_isDigit hdigit
      rw [Utf16.encodeChar, if_pos hplain, List.mem_singleton] at hmem
      rw [hmem, UInt16.toNat_ofNat_of_lt' hplain]
      omega
    · rw [Utf16.encodeChar, if_pos (by decide), List.mem_singleton] at hmem
      rw [hmem]
      decide
  refine passes_text (fun u hu => ?_) fun hmem => absurd (hunit _ hmem).2 (by decide)
  obtain ⟨hlow, hhigh⟩ := hunit u hu
  refine decide_eq_false fun hmem => ?_
  simp only [List.mem_cons, List.not_mem_nil, or_false] at hmem
  rcases hmem with rfl | rfl | rfl | rfl | rfl
  · exact absurd hlow (by decide)
  · exact absurd hlow (by decide)
  · exact absurd hhigh (by decide)
  · exact absurd hhigh (by decide)
  · exact absurd hhigh (by decide)

/-- Readable preferences are all listed. -/
theorem exists_listed (hread : p.Readable) : ∀ pref ∈ keys,
    ∃ s, Receiver.listed p.stores.builtInDisplayPreferences p.get pref = .ok s := by
  intro pref hpref
  obtain ⟨value, hvalue⟩ := hread pref hpref
  cases pref with
  | string key defValue => exact (value_string hvalue).imp fun _ h => h.2
  | int key defValue =>
    obtain ⟨n, -, hlisted⟩ := value_int hvalue
    exact ⟨_, hlisted⟩
  | boolean key defValue =>
    obtain ⟨b, -, hlisted⟩ := value_boolean hvalue
    exact ⟨_, hlisted⟩
  | list key defValue entries values =>
    obtain ⟨s, -, hlisted⟩ := value_list hpref hvalue
    exact ⟨_, hlisted⟩

/-- Each of them on a line of its own. -/
theorem oneLine_shownOf (hread : p.Readable) (hlines : p.OneLined) :
    ∀ pref ∈ keys, OneLine (shownOf p pref) := by
  intro pref hpref
  obtain ⟨value, hvalue⟩ := hread pref hpref
  cases pref with
  | string key defValue =>
    obtain ⟨s, rfl, hlisted⟩ := value_string hvalue
    exact shownOf_eq hlisted ▸ hlines _ hpref s hvalue
  | int key defValue =>
    obtain ⟨n, -, hlisted⟩ := value_int hvalue
    exact shownOf_eq hlisted ▸ (passes_ofInt n).1
  | boolean key defValue =>
    obtain ⟨b, -, hlisted⟩ := value_boolean hvalue
    exact shownOf_eq hlisted ▸ (passes_ofBool b).1
  | list key defValue entries values =>
    obtain ⟨s, rfl, hlisted⟩ := value_list hpref hvalue
    rw [shownOf_eq hlisted]
    rcases label_eq_or (labels_keys _ hpref) s with hsame | hpasses
    · exact hsame.symm ▸ hlines _ hpref s hvalue
    · exact hpasses.1

end

end WinEmulator.X11.LoriePreferences
