import WinEmulator.Lorie.Clipboard

/-!
# Requests for the selection of the server

What a conversion comes to, and the clients it is for. A parked request holds on to its client, and
nothing takes it out when the client disconnects.
-/

set_option autoImplicit false

namespace WinEmulator.Lorie.Clipboard

open WinEmulator.Lib

variable {s s' : Server} {r : LorieDataTarget}

/-! ## Conversions -/

/-- A conversion that writes a property. -/
structure Writes (s : Server) (r : LorieDataTarget) (hasData : Bool) : Prop where
  selection : (s.selections r.selection).isSome = true
  window : r.requestor ∈ s.windows
  target : r.target = xaTARGETS ∨ r.target = xaTIMESTAMP ∨ isText r.target = true ∧ hasData = true

instance (s : Server) (r : LorieDataTarget) (hasData : Bool) : Decidable (Writes s r hasData) :=
  decidable_of_iff ((s.selections r.selection).isSome = true ∧ r.requestor ∈ s.windows ∧
      (r.target = xaTARGETS ∨ r.target = xaTIMESTAMP ∨ isText r.target = true ∧ hasData = true))
    ⟨fun ⟨hselection, hwindow, htarget⟩ => ⟨hselection, hwindow, htarget⟩,
      fun h => ⟨h.selection, h.window, h.target⟩⟩

/-- A request that is parked. -/
def Server.park (s : Server) (r : LorieDataTarget) : Server :=
  lorieRequestClipboard { s with lorieDataTargetHead := r :: s.lorieDataTargetHead }

/-- What a conversion comes to. -/
inductive Converts (s : Server) (r : LorieDataTarget) (data : Option (List UInt8)) : Server → Prop
  | written (type : Atom) (value : PropertyData) (writes : Writes s r data.isSome) :
    Converts s r data (s.answer r (some ⟨r.requestor, r.realProperty, type, value⟩) r.property)
  | parked (noData : data = none) : Converts s r data (s.park r)
  | refused (unwritten : ¬ Writes s r data.isSome) : Converts s r data (s.answer r none None)

theorem isText_iff {target : Atom} :
    isText target = true ↔ (target = xaSTRING ∨ target = xaTEXT) ∨ target = xaUTF8_STRING := by
  simp [isText]

/-- The spec of `convertOrRefuse`. -/
theorem convertOrRefuse_converts (s : Server) (r : LorieDataTarget) (data : Option (List UInt8)) :
    Converts s r data (convertOrRefuse s r data) := by
  unfold convertOrRefuse lorieConvertSelection
  cases hsel : s.selections r.selection with
  | none => exact .refused fun h => by simpa [hsel] using h.selection
  | some pSel =>
    have hselection : (s.selections r.selection).isSome = true := by rw [hsel]; rfl
    by_cases hwindow : r.requestor ∈ s.windows
    case neg =>
      simp only [hwindow, not_false_eq_true, if_true]
      exact .refused fun h => hwindow h.window
    by_cases htargets : r.target = xaTARGETS
    · simp only [hwindow, htargets, not_true_eq_false, if_false, if_true]
      exact .written _ _ ⟨hselection, hwindow, .inl htargets⟩
    by_cases htimestamp : r.target = xaTIMESTAMP
    · simp only [hwindow, htimestamp, not_true_eq_false, if_false, if_true]
      exact .written _ _ ⟨hselection, hwindow, .inr (.inl htimestamp)⟩
    simp only [hwindow, htargets, htimestamp, not_true_eq_false, if_false]
    have htext : Writes s r data.isSome → isText r.target = true ∧ data.isSome = true := fun h =>
      (h.target.resolve_left htargets).resolve_left htimestamp
    cases data with
    | none =>
      by_cases his : isText r.target = true
      · rw [if_pos his]
        exact .parked rfl
      · rw [if_neg his]
        exact .refused fun h => his (htext h).1
    | some data =>
      have hwrites (his : isText r.target = true) : Writes s r true :=
        ⟨hselection, hwindow, .inr (.inr ⟨his, rfl⟩)⟩
      by_cases hlatin1 : r.target = xaSTRING ∨ r.target = xaTEXT
      · simp only [hlatin1, if_true]
        exact .written _ _ (hwrites (isText_iff.mpr (.inl hlatin1)))
      by_cases hutf8 : r.target = xaUTF8_STRING
      · simp only [hutf8, if_true]
        exact .written _ _ (hwrites (isText_iff.mpr (.inr hutf8)))
      · simp only [hlatin1, hutf8, if_false]
        exact .refused fun h => (isText_iff.mp (htext h).1).elim hlatin1 hutf8

/-- The parts of the state a conversion leaves as they are. -/
structure SameWorld (s s' : Server) : Prop where
  clients : s'.clients = s.clients
  windows : s'.windows = s.windows
  selections : s'.selections = s.selections
  cachedData : s'.cachedData = s.cachedData
  accepted : s'.accepted = s.accepted

/-- An answer changes no client and no selection. -/
theorem convertOrRefuse_sameWorld (s : Server) (r : LorieDataTarget) (data : Option (List UInt8)) :
    SameWorld s (convertOrRefuse s r data) := by
  have hconverts := convertOrRefuse_converts s r data
  generalize convertOrRefuse s r data = s' at hconverts ⊢
  cases hconverts <;> exact ⟨rfl, rfl, rfl, rfl, rfl⟩

/-! ## The loop over the parked requests -/

/-- What holds of the state before a request is converted with data, holds after all were. -/
theorem serve_induction (Inv : List LorieDataTarget → Server → Prop) {data : List UInt8}
    (converted : ∀ {r next s}, Inv (r :: next) s → s.cachedData = some data →
      Inv next { convertOrRefuse s r (some data) with lorieDataTargetHead := next }) :
    ∀ (parked : List LorieDataTarget) (s : Server), Inv parked s → s.cachedData = some data →
      Inv [] (serve parked s)
  | [], _, h, _ => h
  | r :: next, s, h, hcached => by
    rw [serve, hcached]
    have hsame := convertOrRefuse_sameWorld s r (some data)
    exact serve_induction Inv converted next _ (converted h hcached)
      (hsame.cachedData.trans hcached)

/-! ## Clients -/

/-- All parked requests are of clients that are connected. -/
def Live (s : Server) : Prop := ∀ r ∈ s.lorieDataTargetHead, r.client ∈ s.clients

/-- A conversion is for the client that asked, or for one with a parked request. -/
theorem parked_convertOrRefuse {data : Option (List UInt8)} {p : LorieDataTarget}
    (h : p ∈ (convertOrRefuse s r data).lorieDataTargetHead) :
    p = r ∨ p ∈ s.lorieDataTargetHead := by
  have hconverts := convertOrRefuse_converts s r data
  generalize convertOrRefuse s r data = s' at h hconverts
  cases hconverts with
  | written => exact .inr h
  | parked => exact List.mem_cons.mp h
  | refused => exact .inr h

/-- A request is accepted and converted, or it is not for the server. -/
theorem lorieProcConvertSelection_cases (h : lorieProcConvertSelection r s = .ok s') :
    s.owns r.selection = true ∧
      s' = { convertOrRefuse s r s.cachedData with accepted := r :: s.accepted } ∨ s' = s := by
  unfold lorieProcConvertSelection at h
  split at h
  · cases h
  split at h
  · cases h
  split at h
  · next howns =>
    cases h
    exact .inl ⟨howns, rfl⟩
  · cases h
    exact .inr rfl

/-- The only request that is newly parked is the one being served. -/
theorem parked_lorieProcConvertSelection (h : lorieProcConvertSelection r s = .ok s') :
    s'.clients = s.clients ∧ ∀ p ∈ s'.lorieDataTargetHead, p = r ∨ p ∈ s.lorieDataTargetHead := by
  obtain ⟨-, rfl⟩ | rfl := lorieProcConvertSelection_cases h
  · exact ⟨(convertOrRefuse_sameWorld s r s.cachedData).clients,
      fun p hp => parked_convertOrRefuse hp⟩
  · exact ⟨rfl, fun p hp => .inr hp⟩

/-- Data serves all parked requests. -/
theorem parked_lorieHandleClipboardData (data : List UInt8) (s : Server) :
    (lorieHandleClipboardData data s).lorieDataTargetHead = [] :=
  serve_induction (fun parked s => s.lorieDataTargetHead = parked)
    (fun _ _ => rfl) s.lorieDataTargetHead
    { s with cachedData := some data } rfl rfl

/-- The only new answer is the one to the request. -/
theorem answers_convertOrRefuse {data : List UInt8} {a : Answer}
    (h : a ∈ (convertOrRefuse s r (some data)).answers) :
    a.notify.client = r.client ∨ a ∈ s.answers := by
  have hconverts := convertOrRefuse_converts s r (some data)
  generalize convertOrRefuse s r (some data) = s' at h hconverts
  cases hconverts with
  | written =>
    obtain rfl | h := List.mem_cons.mp h
    · exact .inl rfl
    · exact .inr h
  | parked noData => cases noData
  | refused =>
    obtain rfl | h := List.mem_cons.mp h
    · exact .inl rfl
    · exact .inr h

/-- Each event that data leads to is for a parked request. -/
theorem answers_lorieHandleClipboardData {data : List UInt8} {a : Answer}
    (h : a ∈ (lorieHandleClipboardData data s).answers) :
    a ∈ s.answers ∨ ∃ r ∈ s.lorieDataTargetHead, a.notify.client = r.client := by
  let Inv (parked : List LorieDataTarget) (s' : Server) : Prop :=
    (∀ a ∈ s'.answers, a ∈ s.answers ∨ ∃ r ∈ s.lorieDataTargetHead, a.notify.client = r.client) ∧
      ∀ r ∈ parked, r ∈ s.lorieDataTargetHead
  have hconverted : ∀ {r next s'}, Inv (r :: next) s' → s'.cachedData = some data →
      Inv next { convertOrRefuse s' r (some data) with lorieDataTargetHead := next } := by
    rintro r next s' ⟨hanswers, hparked⟩ -
    refine ⟨fun a ha => ?_, fun p hp => hparked p (List.mem_cons_of_mem _ hp)⟩
    obtain hclient | ha := answers_convertOrRefuse ha
    · exact .inr ⟨r, hparked r List.mem_cons_self, hclient⟩
    · exact hanswers a ha
  exact (serve_induction Inv hconverted s.lorieDataTargetHead { s with cachedData := some data }
    ⟨fun a ha => .inl ha, fun r hr => hr⟩ rfl).1 a h

/-- What is to hold of an action: the clients that data is looked up and answered for are
connected. -/
def ServesLive (s : Server) : Action → Prop
  | .clipboardData data =>
    (∀ r ∈ s.lorieDataTargetHead, r.client ∈ s.clients) ∧
      ∀ a ∈ (lorieHandleClipboardData data s).answers, a ∈ s.answers ∨ a.notify.client ∈ s.clients
  | _ => True

/-- A client does not disconnect while a request of it is parked. -/
def LeavesNothing (s : Server) : Action → Prop
  | .disconnect client => ∀ r ∈ s.lorieDataTargetHead, r.client ≠ client
  | _ => True

instance (s : Server) : Decidable (Live s) :=
  inferInstanceAs (Decidable (∀ r ∈ s.lorieDataTargetHead, _))

instance (s : Server) : ∀ a, Decidable (ServesLive s a)
  | .clipboardData _ => inferInstanceAs (Decidable (_ ∧ _))
  | .connect | .disconnect _ | .createWindow _ | .destroyWindow _ | .setSelectionOwner ..
  | .convertSelection _
  | .clipboardAnnounce _ => inferInstanceAs (Decidable True)

instance (s : Server) : ∀ a, Decidable (LeavesNothing s a)
  | .disconnect client =>
    inferInstanceAs (Decidable (∀ r ∈ s.lorieDataTargetHead, r.client ≠ client))
  | .connect | .createWindow _ | .destroyWindow _ | .setSelectionOwner .. | .convertSelection _
  | .clipboardAnnounce _ | .clipboardData _ => inferInstanceAs (Decidable True)

/-- **Step lemma.** A step that leaves nothing of a closed client keeps the parked requests live. -/
theorem Live.step {a : Action} (hlive : Live s) (hleaves : LeavesNothing s a)
    (h : step s a = some s') : Live s' := by
  cases a with
  | connect =>
    cases h
    exact fun r hr => List.mem_cons_of_mem _ (hlive r hr)
  | disconnect client =>
    cases h
    exact fun r hr => List.mem_filter.mpr ⟨hlive r hr, decide_eq_true (hleaves r hr)⟩
  | createWindow window =>
    cases h
    exact hlive
  | destroyWindow window =>
    simp only [Clipboard.step] at h
    split at h
    · cases h
    · cases h
      exact hlive
  | setSelectionOwner selection client window time =>
    simp only [Clipboard.step] at h
    split at h
    · cases h
      exact hlive
    · cases h
  | convertSelection r =>
    simp only [Clipboard.step] at h
    split at h
    case isFalse => cases h
    case isTrue hclient =>
      split at h
      case h_1 s' hproc =>
        cases h
        obtain ⟨hclients, hparked⟩ := parked_lorieProcConvertSelection hproc
        intro p hp
        rw [hclients]
        obtain rfl | hp := hparked p hp
        · exact hclient
        · exact hlive p hp
      case h_2 =>
        cases h
        exact hlive
  | clipboardAnnounce currentTime =>
    cases h
    exact hlive
  | clipboardData data =>
    cases h
    intro r hr
    rw [parked_lorieHandleClipboardData] at hr
    cases hr

/-- With live requests only, every answer goes to a live client. -/
theorem Live.serves {a : Action} (hlive : Live s) : ServesLive s a := by
  cases a with
  | clipboardData data =>
    refine ⟨hlive, fun answer hanswer => ?_⟩
    obtain hold | ⟨r, hr, hclient⟩ := answers_lorieHandleClipboardData hanswer
    · exact .inl hold
    · exact .inr (hclient ▸ hlive r hr)
  | connect | disconnect | createWindow | destroyWindow | setSelectionOwner | convertSelection
  | clipboardAnnounce => trivial

/-- **Data is handled for clients that are connected** in every run in which no client disconnects
while a request of it is parked. -/
theorem servesLive_of_leavesNothing (actions : List Action)
    (h : Meets step LeavesNothing initClipboard actions) :
    Meets step ServesLive initClipboard actions := by
  have hpreserved : ∀ {s s' a}, Live s → LeavesNothing s a → step s a = some s' → Live s' :=
    fun hlive hleaves hstep => hlive.step hleaves hstep
  have hfollows : ∀ {s a}, Live s → LeavesNothing s a → ServesLive s a :=
    fun hlive _ => hlive.serves
  exact Meets.imp hpreserved hfollows nofun h

/-- A client asks for the clipboard as text and waits for it. -/
def asks : List Action :=
  [.connect, .createWindow 2, .clipboardAnnounce 0,
    .convertSelection ⟨1, xaCLIPBOARD, xaUTF8_STRING, xaUTF8_STRING, 2, 0⟩]

/-- It gets the answer and leaves. -/
theorem asks_servesLive :
    Meets step ServesLive initClipboard (asks ++ [.clipboardData [104, 105], .disconnect 1]) :=
  servesLive_of_leavesNothing _ (by decide +kernel)

/-- It leaves before the answer comes. -/
theorem asks_disconnect :
    ¬ Meets step ServesLive initClipboard (asks ++ [.disconnect 1, .clipboardData [104, 105]]) := by
  decide +kernel

end WinEmulator.Lorie.Clipboard
