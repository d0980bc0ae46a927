import Mathlib.Data.List.Nodup
import WinEmulator.X11.InputEventSender

/-!
# Keys that are released as they were pressed

Press and release each choose their way from what holds at their own moment, so a key can be
reported as pressed one way and released another, or not at all. Where the events of every key go
the same way from its press to its release, and no two keys that are down report the same code, the
codes that are pressed are those of the keys that are down.
-/

set_option autoImplicit false

namespace WinEmulator.X11.InputEventSender

open WinEmulator.Lib

/-! ## Ways -/

/-- What an event reports that is not a text. -/
def KeyEvent.codes (preferScancodes : Bool) (e : KeyEvent) : List Code :=
  match e.legacyKey with
  | some key => [(0, KEYCODE_SHIFT_LEFT), (0, key)]
  | none => [(e.scancode preferScancodes, e.keyCode)]

/-- The repeat of a key that the sender leaves to the X server. -/
def IgnoredRepeat (preferScancodes : Bool) (s : Sender) (e : KeyEvent) : Prop :=
  e.types preferScancodes = false ∧ e.legacyKey = none ∧ 0 < e.repeatCount ∧
    e.keyCode ∈ s.mPressedKeys

theorem legacyKey_ne_shift {e : KeyEvent} {key : KeyCode} (h : e.legacyKey = some key) :
    key ≠ KEYCODE_SHIFT_LEFT := by
  obtain ⟨entry, hfind, rfl⟩ := Option.map_eq_some_iff.mp h
  have hall : ∀ entry ∈ legacyKeys, entry.2.2 ≠ KEYCODE_SHIFT_LEFT := by decide
  exact hall entry (List.mem_of_find?_eq_some hfind)

theorem KeyEvent.codes_nodup (preferScancodes : Bool) (e : KeyEvent) :
    (e.codes preferScancodes).Nodup := by
  unfold KeyEvent.codes
  split
  case h_1 key hkey => simpa using (legacyKey_ne_shift hkey).symm
  case h_2 => exact List.nodup_singleton _

variable {preferScancodes : Bool} {e : KeyEvent} {s : Sender}

/-- A text reports no code. -/
theorem sendText_spec (text : List Lib.Utf16.Unit16) (log : List Report) :
    presses (sendText e text) = [] ∧ pressed ((sendText e text).reverse ++ log) = pressed log ∧
      NoStray ((sendText e text).reverse ++ log) = NoStray log := by
  unfold sendText
  split <;> exact ⟨rfl, rfl, rfl⟩

/-- Everything the event of a key that goes down can do. -/
theorem sendKeyEvent_down (s : Sender) (haction : e.action = .down)
    (hcanceled : e.canceled = false) :
    (e.types preferScancodes = true ∧ sendKeyEvent preferScancodes e s =
        ({ s with mPressedTextKeys := s.mPressedTextKeys.insert e.keyCode },
          sendText e [e.unicode])) ∨
      (IgnoredRepeat preferScancodes s e ∧ sendKeyEvent preferScancodes e s = (s, [])) ∨
      (e.types preferScancodes = false ∧ ¬ IgnoredRepeat preferScancodes s e ∧ ∃ keys,
        sendKeyEvent preferScancodes e s =
          ({ s with mPressedKeys := keys }, (e.codes preferScancodes).map (.key · true))) := by
  cases htypes : e.types preferScancodes with
  | true =>
    refine .inl ⟨rfl, ?_⟩
    simp [sendKeyEvent, hcanceled, haction, htypes]
  | false =>
    refine .inr ?_
    cases hlegacy : e.legacyKey with
    | some key =>
      refine .inr ⟨rfl, fun h => ?_, s.mPressedKeys, ?_⟩
      · cases hlegacy.symm.trans h.2.1
      · simp [sendKeyEvent, hcanceled, haction, htypes, hlegacy, KeyEvent.codes]
    | none =>
      by_cases hrepeat : 0 < e.repeatCount ∧ e.keyCode ∈ s.mPressedKeys
      · refine .inl ⟨⟨htypes, hlegacy, hrepeat⟩, ?_⟩
        simp [sendKeyEvent, hcanceled, haction, htypes, hlegacy, hrepeat]
      · refine .inr ⟨rfl, fun h => hrepeat h.2.2, s.mPressedKeys.insert e.keyCode, ?_⟩
        simp [sendKeyEvent, hcanceled, haction, htypes, hlegacy, hrepeat, KeyEvent.codes]

/-- And that of one that goes up. -/
theorem sendKeyEvent_up (s : Sender) (haction : e.action = .up) (hcanceled : e.canceled = false) :
    ((preferScancodes = false ∧ e.keyCode ∈ s.mPressedTextKeys) ∧ sendKeyEvent preferScancodes e s =
        ({ s with mPressedTextKeys := s.mPressedTextKeys.filter (· ≠ e.keyCode) }, [])) ∨
      (¬ (preferScancodes = false ∧ e.keyCode ∈ s.mPressedTextKeys) ∧
        (e.legacyKey = none ∧ 0 < e.repeatCount ∨ ∃ keys, sendKeyEvent preferScancodes e s =
          ({ s with mPressedKeys := keys }, (e.codes preferScancodes).map (.key · false)))) := by
  by_cases htext : preferScancodes = false ∧ e.keyCode ∈ s.mPressedTextKeys
  · refine .inl ⟨htext, ?_⟩
    simp [sendKeyEvent, hcanceled, haction, htext]
  · refine .inr ⟨htext, ?_⟩
    cases hlegacy : e.legacyKey with
    | some key =>
      refine .inr ⟨s.mPressedKeys, ?_⟩
      simp [sendKeyEvent, hcanceled, haction, htext, hlegacy, KeyEvent.codes]
    | none =>
      by_cases hrepeat : 0 < e.repeatCount
      · exact .inl ⟨rfl, hrepeat⟩
      · refine .inr ⟨s.mPressedKeys.filter (· ≠ e.keyCode), ?_⟩
        simp [sendKeyEvent, hcanceled, haction, htext, hlegacy, hrepeat, KeyEvent.codes]

theorem sendKeyEvent_canceled (hcanceled : e.canceled = true) :
    sendKeyEvent preferScancodes e s = (s, []) := by
  simp [sendKeyEvent, hcanceled]

/-! ## Reports -/

theorem presses_map (codes : List Code) : presses (codes.map (.key · true)) = codes := by
  induction codes with
  | nil => rfl
  | cons c codes ih => exact congrArg (c :: ·) ih

/-- The keys that are pressed after some presses. -/
theorem pressed_press (codes : List Code) (log : List Report) (c : Code) :
    pressed ((codes.map (.key · true)).reverse ++ log) c = true ↔
      c ∈ codes ∨ pressed log c = true := by
  induction codes generalizing log with
  | nil => simp
  | cons d codes ih =>
    rw [List.map_cons, List.reverse_cons, List.append_assoc, List.singleton_append, ih,
      List.mem_cons]
    simp only [pressed, Bool.or_eq_true, decide_eq_true_eq]
    tauto

/-- A press is never stray. -/
theorem noStray_press (codes : List Code) (log : List Report) :
    NoStray ((codes.map (.key · true)).reverse ++ log) ↔ NoStray log := by
  induction codes generalizing log with
  | nil => rfl
  | cons d codes ih =>
    rw [List.map_cons, List.reverse_cons, List.append_assoc, List.singleton_append, ih]
    exact Iff.rfl

/-- The keys that are pressed after some releases. -/
theorem pressed_release (codes : List Code) (log : List Report) (c : Code) :
    pressed ((codes.map (.key · false)).reverse ++ log) c = true ↔
      c ∉ codes ∧ pressed log c = true := by
  induction codes generalizing log with
  | nil => simp
  | cons d codes ih =>
    rw [List.map_cons, List.reverse_cons, List.append_assoc, List.singleton_append, ih,
      List.mem_cons]
    simp only [pressed, Bool.and_eq_true, decide_eq_true_eq]
    tauto

/-- The release of what is pressed is not stray. -/
theorem noStray_release {codes : List Code} (hnodup : codes.Nodup) {log : List Report}
    (hpressed : ∀ c ∈ codes, pressed log c = true) :
    NoStray ((codes.map (.key · false)).reverse ++ log) ↔ NoStray log := by
  induction codes generalizing log with
  | nil => rfl
  | cons d codes ih =>
    obtain ⟨hd, hcodes⟩ := List.nodup_cons.mp hnodup
    have hrest : ∀ c ∈ codes, pressed (.key d false :: log) c = true := fun c hc => by
      have hne : c ≠ d := fun he => hd (he ▸ hc)
      simpa [pressed, hne] using hpressed c (List.mem_cons_of_mem _ hc)
    rw [List.map_cons, List.reverse_cons, List.append_assoc, List.singleton_append, ih hcodes hrest]
    exact and_iff_right (hpressed d (List.mem_cons_self ..))

/-! ## Runs -/

/-- The codes an event of a key that goes down reports. -/
def KeyEvent.downCodes (preferScancodes : Bool) (e : KeyEvent) : List Code :=
  if e.types preferScancodes then [] else e.codes preferScancodes

/-- The events of a key go one way from its press to its release: each that goes down reports what
those before it did, and so does the one that goes up, which is not cancelled and no repeat. A key
that typed a text is not reported as pressed before it goes up, and what is reported is not reported
for another key that is down. -/
def Matched (preferScancodes : Bool) (s : State) (e : KeyEvent) : Prop :=
  match e.action with
  | .down =>
    IgnoredRepeat preferScancodes s.sender e ∨
      (e.keyCode ∈ s.down → ∀ c, c ∈ s.reported e.keyCode ↔ c ∈ e.downCodes preferScancodes) ∧
        (e.types preferScancodes = false → e.keyCode ∉ s.sender.mPressedTextKeys) ∧
        ∀ k ∈ s.down, k ≠ e.keyCode → ∀ c ∈ e.downCodes preferScancodes, c ∉ s.reported k
  | .up =>
    if e.canceled then s.reported e.keyCode = []
    else
      preferScancodes = false ∧ e.keyCode ∈ s.sender.mPressedTextKeys ∨
        (∀ c, c ∈ s.reported e.keyCode ↔ c ∈ e.codes preferScancodes) ∧
          (e.legacyKey = none → e.repeatCount = 0)
  | .multiple => True

/-- The codes that are pressed are those of the keys that are down. -/
structure Held (s : State) : Prop where
  pressed : ∀ c, pressed s.log c = true ↔ ∃ k ∈ s.down, c ∈ s.reported k
  noStray : NoStray s.log
  up : ∀ {k}, k ∉ s.down → s.reported k = []
  apart : ∀ {k k' c}, c ∈ s.reported k → c ∈ s.reported k' → k = k'
  text : ∀ {k}, k ∈ s.sender.mPressedTextKeys → s.reported k = []

theorem held_start : Held start where
  pressed _ := by simp [InputEventSender.pressed, start]
  noStray := trivial
  up _ := rfl
  apart := nofun
  text _ := rfl

variable {st : State}

/-- A key that is down for which nothing more is reported. -/
theorem Held.quiet (h : Held st) {sender : Sender} {log : List Report} {down : List KeyCode}
    (hpressed : ∀ c, InputEventSender.pressed log c = InputEventSender.pressed st.log c)
    (hstray : NoStray log ↔ NoStray st.log)
    (hdown : ∀ {k}, st.reported k ≠ [] → (k ∈ down ↔ k ∈ st.down))
    (htext : ∀ {k}, k ∈ sender.mPressedTextKeys → st.reported k = []) :
    Held ⟨sender, log, down, st.reported⟩ where
  pressed c := by
    rw [hpressed, h.pressed]
    refine exists_congr fun k => ⟨fun ⟨hk, hc⟩ => ?_, fun ⟨hk, hc⟩ => ?_⟩
    · exact ⟨(hdown (List.ne_nil_of_mem hc)).mpr hk, hc⟩
    · exact ⟨(hdown (List.ne_nil_of_mem hc)).mp hk, hc⟩
  noStray := hstray.mpr h.noStray
  up {k} hk := by
    by_contra hne
    have hup : k ∉ st.down := fun hd => hk ((hdown hne).mpr hd)
    exact hne (h.up hup)
  apart := h.apart
  text := htext

theorem update_reported_self (s : State) (k : KeyCode) (codes : List Code)
    (h : s.reported k = codes) :
    Function.update s.reported k codes = s.reported :=
  Function.update_eq_self_iff.mpr h.symm

theorem mem_insert_of_ne {k k' : KeyCode} {down : List KeyCode} (h : k ≠ k') :
    k ∈ down.insert k' ↔ k ∈ down := by
  rw [List.mem_insert_iff]
  exact or_iff_right h

theorem mem_filter_of_ne {k k' : KeyCode} {down : List KeyCode} (h : k ≠ k') :
    k ∈ down.filter (· ≠ k') ↔ k ∈ down := by
  rw [List.mem_filter]
  exact and_iff_left (decide_eq_true h)

theorem mem_update {reported : KeyCode → List Code} {k k' : KeyCode} {codes : List Code}
    {c : Code} :
    c ∈ Function.update reported k codes k' ↔ k' = k ∧ c ∈ codes ∨ k' ≠ k ∧ c ∈ reported k' := by
  by_cases hk : k' = k
  · subst hk
    simp
  · simp [hk]

/-- A key goes down. -/
theorem Held.press (h : Held st) {sender : Sender} {k : KeyCode} {codes : List Code}
    (hsender : sender.mPressedTextKeys = st.sender.mPressedTextKeys)
    (hcodes : codes ≠ [] → k ∉ st.sender.mPressedTextKeys)
    (hfree : ∀ k' ∈ st.down, k' ≠ k → ∀ c ∈ codes, c ∉ st.reported k') :
    Held ⟨sender, (codes.map (.key · true)).reverse ++ st.log, st.down.insert k,
      Function.update st.reported k (codes ++ st.reported k)⟩ := by
  have hother : ∀ {k' c}, k' ≠ k → c ∈ codes → c ∉ st.reported k' := fun {k' c} hk hc hr => by
    by_cases hd : k' ∈ st.down
    · exact hfree k' hd hk c hc hr
    · rw [h.up hd] at hr
      cases hr
  refine ⟨fun c => ?_, (noStray_press codes st.log).mpr h.noStray, fun {k'} hk' => ?_, ?_,
    fun {k'} hk' => ?_⟩
  · rw [pressed_press, h.pressed]
    constructor
    · rintro (hc | ⟨k', hd, hc⟩)
      · exact ⟨k, List.mem_insert_iff.mpr (.inl rfl),
          mem_update.mpr (.inl ⟨rfl, List.mem_append_left _ hc⟩)⟩
      · refine ⟨k', List.mem_insert_iff.mpr (.inr hd), mem_update.mpr ?_⟩
        by_cases hk : k' = k
        · exact .inl ⟨hk, List.mem_append_right _ (hk ▸ hc)⟩
        · exact .inr ⟨hk, hc⟩
    · rintro ⟨k', hd, hc⟩
      rcases mem_update.mp hc with ⟨rfl, hc⟩ | ⟨hk, hc⟩
      · refine (List.mem_append.mp hc).imp_right fun hr => ⟨k', ?_, hr⟩
        by_contra hup
        rw [h.up hup] at hr
        cases hr
      · exact .inr ⟨k', (mem_insert_of_ne hk).mp hd, hc⟩
  · have hne : k' ≠ k := fun he => hk' (List.mem_insert_iff.mpr (.inl he))
    exact (Function.update_of_ne hne ..).trans
      (h.up fun hd => hk' (List.mem_insert_iff.mpr (.inr hd)))
  · intro k₁ k₂ c hc₁ hc₂
    rcases mem_update.mp hc₁ with ⟨he₁, hr₁⟩ | ⟨hk₁, hr₁⟩ <;>
      rcases mem_update.mp hc₂ with ⟨he₂, hr₂⟩ | ⟨hk₂, hr₂⟩
    · exact he₁.trans he₂.symm
    · rcases List.mem_append.mp hr₁ with hc | hc
      · exact absurd hr₂ (hother hk₂ hc)
      · exact he₁.trans (h.apart hc hr₂)
    · rcases List.mem_append.mp hr₂ with hc | hc
      · exact absurd hr₁ (hother hk₁ hc)
      · exact (h.apart hr₁ hc).trans he₂.symm
    · exact h.apart hr₁ hr₂
  · have hkeys : k' ∈ st.sender.mPressedTextKeys := hsender ▸ hk'
    by_cases hk : k' = k
    · subst hk
      have hnil : codes = [] := by
        by_contra hne
        exact hcodes hne hkeys
      show Function.update st.reported k' (codes ++ st.reported k') k' = []
      rw [Function.update_self, hnil, h.text hkeys]
      rfl
    · exact (Function.update_of_ne hk ..).trans (h.text hkeys)

/-- A key goes up, and what was reported for it is released. -/
theorem Held.release (h : Held st) {sender : Sender} {k : KeyCode} {codes : List Code}
    (hsender : sender.mPressedTextKeys = st.sender.mPressedTextKeys) (hdown : k ∈ st.down)
    (hcodes : ∀ c, c ∈ st.reported k ↔ c ∈ codes) (hnodup : codes.Nodup) :
    Held ⟨sender, (codes.map (.key · false)).reverse ++ st.log, st.down.filter (· ≠ k),
      Function.update st.reported k []⟩ := by
  have hpressed : ∀ c ∈ codes, InputEventSender.pressed st.log c = true := fun c hc =>
    (h.pressed c).mpr ⟨k, hdown, (hcodes c).mpr hc⟩
  refine ⟨fun c => ?_, (noStray_release hnodup hpressed).mpr h.noStray, fun {k'} hk' => ?_, ?_,
    fun {k'} hk' => ?_⟩
  · rw [pressed_release, h.pressed]
    constructor
    · rintro ⟨hc, k', hd, hr⟩
      have hk : k' ≠ k := fun he => hc ((hcodes c).mp (he ▸ hr))
      exact ⟨k', (mem_filter_of_ne hk).mpr hd, mem_update.mpr (.inr ⟨hk, hr⟩)⟩
    · rintro ⟨k', hd, hr⟩
      rcases mem_update.mp hr with ⟨-, hr⟩ | ⟨hk, hr⟩
      · cases hr
      · exact ⟨fun hc => hk (h.apart hr ((hcodes c).mpr hc)), k', (mem_filter_of_ne hk).mp hd, hr⟩
  · by_cases hk : k' = k
    · rw [hk]
      exact Function.update_self ..
    · exact (Function.update_of_ne hk ..).trans (h.up fun hd => hk' ((mem_filter_of_ne hk).mpr hd))
  · intro k₁ k₂ c hc₁ hc₂
    rcases mem_update.mp hc₁ with ⟨-, hc₁⟩ | ⟨-, hc₁⟩
    · cases hc₁
    · rcases mem_update.mp hc₂ with ⟨-, hc₂⟩ | ⟨-, hc₂⟩
      · cases hc₂
      · exact h.apart hc₁ hc₂
  · by_cases hk : k' = k
    · rw [hk]
      exact Function.update_self ..
    · exact (Function.update_of_ne hk ..).trans (h.text (hsender ▸ hk'))

/-- A key that goes down keeps the invariant. -/
theorem Held.step_down (h : Held st) {st' : State} (haction : e.action = .down)
    (hmatched : Matched preferScancodes st e) (hstep : step preferScancodes st e = some st') :
    Held st' := by
  simp only [Matched, haction] at hmatched
  simp only [step, haction] at hstep
  cases hcanceled : e.canceled with
  | true => simp [hcanceled] at hstep
  | false =>
    simp only [hcanceled, Bool.false_eq_true, if_false, Option.some.injEq] at hstep
    subst hstep
    rcases sendKeyEvent_down st.sender haction hcanceled with
      ⟨htypes, hsent⟩ | ⟨hignored, hsent⟩ | ⟨htypes, hnot, keys, hsent⟩
    · obtain ⟨hpresses, hpressed, hstray⟩ := sendText_spec (e := e) [e.unicode] st.log
      have hcodes : e.downCodes preferScancodes = [] := if_pos htypes
      have hnot : ¬ IgnoredRepeat preferScancodes st.sender e :=
        fun hi => nomatch htypes.symm.trans hi.1
      obtain ⟨hsame, -, -⟩ := hmatched.resolve_left hnot
      have hnone : st.reported e.keyCode = [] := by
        by_cases hdown : e.keyCode ∈ st.down
        · refine List.eq_nil_iff_forall_not_mem.mpr fun c hc => ?_
          have := (hsame hdown c).mp hc
          rw [hcodes] at this
          cases this
        · exact h.up hdown
      simp only [hsent, hpresses, List.nil_append, update_reported_self st e.keyCode _ rfl]
      refine h.quiet (fun c => congrFun hpressed c) (iff_of_eq hstray)
        (fun {k} hk => ?_) fun {k} hk => ?_
      · exact mem_insert_of_ne fun he => hk (he ▸ hnone)
      · rcases List.mem_insert_iff.mp hk with rfl | hk
        · exact hnone
        · exact h.text hk
    · simp only [hsent, presses, List.filterMap_nil, List.nil_append,
        update_reported_self st e.keyCode _ rfl]
      refine h.quiet (fun _ => rfl) Iff.rfl (fun {k} hk => ?_) h.text
      have hdown : k ∈ st.down := by
        by_contra hup
        exact hk (h.up hup)
      exact iff_of_true (List.mem_insert_iff.mpr (.inr hdown)) hdown
    · have hcodes : e.downCodes preferScancodes = e.codes preferScancodes := by
        rw [KeyEvent.downCodes, htypes]
        rfl
      obtain ⟨-, htext, hfree⟩ := hmatched.resolve_left hnot
      rw [hcodes] at hfree
      simp only [hsent, presses_map]
      exact h.press rfl (fun _ => htext htypes) hfree

/-- A key that goes up as it went down keeps the invariant. -/
theorem Held.step_up (h : Held st) {st' : State} (haction : e.action = .up)
    (hmatched : Matched preferScancodes st e) (hstep : step preferScancodes st e = some st') :
    Held st' := by
  simp only [Matched, haction] at hmatched
  simp only [step, haction] at hstep
  split at hstep
  case isFalse => cases hstep
  case isTrue hdown =>
    cases hstep
    -- a key for which nothing was reported
    have hquiet : ∀ {sender : Sender}, st.reported e.keyCode = [] →
        (∀ {k}, k ∈ sender.mPressedTextKeys → k ∈ st.sender.mPressedTextKeys) →
        Held ⟨sender, st.log, st.down.filter (· ≠ e.keyCode),
            Function.update st.reported e.keyCode []⟩ := by
      intro sender hnone htext
      rw [update_reported_self st e.keyCode [] hnone]
      refine h.quiet (fun _ => rfl) Iff.rfl (fun {k} hk => ?_) fun hk => h.text (htext hk)
      exact mem_filter_of_ne fun he => hk (he ▸ hnone)
    cases hcanceled : e.canceled with
    | true =>
      simp only [hcanceled, if_true] at hmatched
      rw [sendKeyEvent_canceled hcanceled]
      exact hquiet hmatched id
    | false =>
      simp only [hcanceled, Bool.false_eq_true, if_false] at hmatched
      rcases sendKeyEvent_up st.sender haction hcanceled with ⟨⟨-, htext⟩, hsent⟩ | ⟨hnot, hway⟩
      · rw [hsent]
        exact hquiet (h.text htext) fun hk => (List.mem_filter.mp hk).1
      · obtain ⟨hcodes, hzero⟩ := hmatched.resolve_left hnot
        rcases hway with ⟨hlegacy, hrepeat⟩ | ⟨keys, hsent⟩
        · exact absurd (hzero hlegacy) (Nat.ne_of_gt hrepeat)
        · rw [hsent]
          exact h.release rfl hdown hcodes (e.codes_nodup preferScancodes)

/-- A text of several characters keeps the invariant. -/
theorem Held.step_multiple (h : Held st) {st' : State} (haction : e.action = .multiple)
    (hstep : step preferScancodes st e = some st') : Held st' := by
  have hsent : ∃ reports, sendKeyEvent preferScancodes e st.sender = (st.sender, reports) ∧
      (∀ c, InputEventSender.pressed (reports.reverse ++ st.log) c =
        InputEventSender.pressed st.log c) ∧
      (NoStray (reports.reverse ++ st.log) ↔ NoStray st.log) := by
    simp only [sendKeyEvent, haction, if_true]
    split
    · exact ⟨[], rfl, fun _ => rfl, Iff.rfl⟩
    · split
      · exact ⟨_, rfl, fun _ => rfl, Iff.rfl⟩
      · split
        · exact ⟨_, rfl, fun _ => rfl, Iff.rfl⟩
        · exact ⟨[], rfl, fun _ => rfl, Iff.rfl⟩
  obtain ⟨reports, hsent, hpressed, hstray⟩ := hsent
  simp only [step, haction, hsent, Option.some.injEq] at hstep
  subst hstep
  exact h.quiet hpressed hstray (fun _ => Iff.rfl) h.text

/-- **Step lemma.** Every matched event keeps the invariant. -/
theorem Held.step (h : Held st) {st' : State} (hmatched : Matched preferScancodes st e)
    (hstep : step preferScancodes st e = some st') : Held st' := by
  cases haction : e.action with
  | down => exact h.step_down haction hmatched hstep
  | up => exact h.step_up haction hmatched hstep
  | multiple => exact h.step_multiple haction hstep

/-- No release is of a code that is not pressed, and no code is pressed when no key is down. -/
structure NotStuck (s : State) : Prop where
  noStray : NoStray s.log
  allUp : s.down = [] → ∀ c, pressed s.log c = false

/-- **No key is left stuck** by events that go one way for each key. -/
theorem notStuck {es : List KeyEvent} {s : State}
    (matched : Meets (InputEventSender.step preferScancodes) (Matched preferScancodes) start es)
    (h : run (InputEventSender.step preferScancodes) start es = some s) : NotStuck s := by
  have hheld : Held s :=
    run_induction (fun hheld hok hstep => hheld.step hok hstep) held_start matched h
  refine ⟨hheld.noStray, fun hdown c => ?_⟩
  rw [← Bool.not_eq_true, hheld.pressed, hdown]
  rintro ⟨_, hk, -⟩
  cases hk

instance sameCodesDecidable (as bs : List Code) : Decidable (∀ c, c ∈ as ↔ c ∈ bs) :=
  decidable_of_iff ((∀ c ∈ as, c ∈ bs) ∧ ∀ c ∈ bs, c ∈ as)
    ⟨fun h c => ⟨h.1 c, h.2 c⟩, fun h => ⟨fun c => (h c).mp, fun c => (h c).mpr⟩⟩

instance (preferScancodes : Bool) (s : Sender) (e : KeyEvent) :
    Decidable (IgnoredRepeat preferScancodes s e) :=
  inferInstanceAs (Decidable (_ ∧ _))

instance (preferScancodes : Bool) : ∀ s e, Decidable (Matched preferScancodes s e) := fun s e =>
  match haction : e.action with
  | .down =>
    decidable_of_iff (IgnoredRepeat preferScancodes s.sender e ∨
      (e.keyCode ∈ s.down → ∀ c, c ∈ s.reported e.keyCode ↔ c ∈ e.downCodes preferScancodes) ∧
        (e.types preferScancodes = false → e.keyCode ∉ s.sender.mPressedTextKeys) ∧
        ∀ k ∈ s.down, k ≠ e.keyCode → ∀ c ∈ e.downCodes preferScancodes, c ∉ s.reported k)
      (by simp only [Matched, haction])
  | .up =>
    decidable_of_iff (if e.canceled then s.reported e.keyCode = []
      else
        preferScancodes = false ∧ e.keyCode ∈ s.sender.mPressedTextKeys ∨
          (∀ c, c ∈ s.reported e.keyCode ↔ c ∈ e.codes preferScancodes) ∧
            (e.legacyKey = none → e.repeatCount = 0))
      (by simp only [Matched, haction])
  | .multiple => .isTrue (by simp only [Matched, haction])

/-- A key of a keyboard on the screen: it has no scan code. -/
def softKey (keyCode : KeyCode) (action : KeyAction) (metaState unicodeChar : UInt32) : KeyEvent :=
  ⟨keyCode, action, 0, metaState, unicodeChar, none, 0, 0⟩

/-- The letter A, and then Ctrl and C. -/
def letterAndShortcut : List KeyEvent :=
  [softKey 29 .down 0 97, softKey 29 .up 0 97, softKey 113 .down META_CTRL_ON 0,
    softKey 31 .down META_CTRL_ON 0, softKey 31 .up META_CTRL_ON 0, softKey 113 .up 0 0]

theorem notStuck_letterAndShortcut :
    Meets (step false) (Matched false) start letterAndShortcut ∧
      ∃ s, run (step false) start letterAndShortcut = some s ∧ NotStuck s := by
  have matched : Meets (step false) (Matched false) start letterAndShortcut := by decide +kernel
  exact ⟨matched, _, rfl, notStuck matched rfl⟩

/-- The letter A is held down while Ctrl goes down, and repeats. -/
def heldLetter : List KeyEvent :=
  [⟨29, .down, 0, 0, 97, none, 30, 0⟩, ⟨29, .down, 0, META_CTRL_ON, 0, none, 30, 1⟩,
    ⟨29, .up, 0, 0, 97, none, 30, 0⟩]

/-- The repeat is reported as pressed, and its release is taken for that of the text. -/
theorem heldLetter_stuck :
    ∃ s, run (step false) start heldLetter = some s ∧ s.down = [] ∧
      pressed s.log (30, 29) = true := by
  exact ⟨_, rfl, rfl, by decide +kernel⟩

end WinEmulator.X11.InputEventSender
