import WinEmulator.Lorie.RendererWindow
import Mathlib.Data.List.Nodup

/-!
# Laws of the window that is drawn to

While EGL lets old surfaces go, a window other than the renderer's own has a reference for each of
the places `win` and `pendingWin` that it stands in, and one for each call of `surfaceChanged` with
it, which acquires two and hands on one. The only other surface than the renderer's own is that of
`win`; and when a call of `rendererSetWindow` can return, it is that of the window last asked for. A
surface is destroyed only after another one was made current.
-/

set_option autoImplicit false

namespace WinEmulator.Lorie.RendererWindow

open WinEmulator.Lib

variable {Window : Type} [DecidableEq Window] {defaultWin : Window}

/-- Whether a place holds a window, as a number. -/
def counts (w : Window) (place : Option Window) : Int := if place = some w then 1 else 0

@[simp] theorem counts_none (w : Window) : counts w none = 0 := rfl

@[simp] theorem counts_some (w v : Window) : counts w (some v) = if v = w then 1 else 0 := by
  simp [counts]

namespace State

/-- How many references to a window are left over, beside those of `win` and `pendingWin` and those
that `surfaceChanged` keeps. -/
def spare (w : Window) (s : State Window) : Int :=
  s.references w - s.announced w - (counts w (some s.win) + counts w s.pendingWin)

end State

open State

/-! ## References -/

/-- An acquired window has one reference more to spare. -/
theorem spare_acquire (w win : Window) (s : State Window) :
    (ANativeWindow_acquire win s).spare w = s.spare w + counts w (some win) := by
  by_cases h : win = w
  · subst h
    simp only [spare, ANativeWindow_acquire, Function.update_self, counts_some, if_true]
    omega
  · simp only [spare, ANativeWindow_acquire, Function.update_of_ne (Ne.symm h), counts_some,
      if_neg h]
    omega

/-- A released window has one less. -/
theorem spare_release (w win : Window) (s : State Window) :
    (ANativeWindow_release win s).spare w = s.spare w - counts w (some win) := by
  by_cases h : win = w
  · subst h
    simp only [spare, ANativeWindow_release, Function.update_self, counts_some, if_true]
    omega
  · simp only [spare, ANativeWindow_release, Function.update_of_ne (Ne.symm h), counts_some,
      if_neg h]
    omega

/-- The caller's reference becomes that of `pendingWin`. -/
theorem spare_rendererSetWindow (w : Window) (newWin : Option Window) (s : State Window) :
    (rendererSetWindow newWin s).spare w = s.spare w - counts w newWin := by
  rw [rendererSetWindow]
  split_ifs with h
  · cases newWin with
    | none => simp at h
    | some newWin => exact spare_release w newWin { s with asked := some newWin }
  · cases hp : s.pendingWin with
    | none =>
      simp only [spare, Option.elim, hp, counts_none]
      omega
    | some pendingWin =>
      have hrelease := spare_release w pendingWin s
      simp only [spare, ANativeWindow_release, hp] at hrelease ⊢
      simp only [Option.elim]
      omega

/-- It acquires two references, keeps one and hands on the other. -/
theorem spare_surfaceChanged (w : Window) (sfc : Option Window) (s : State Window) :
    (surfaceChanged sfc s).spare w = s.spare w := by
  rw [surfaceChanged, spare_rendererSetWindow]
  cases sfc with
  | none => exact Int.sub_zero _
  | some win =>
    have hannounced :
        State.spare w
          { s with announced := Function.update s.announced win (s.announced win + 1) } =
        s.spare w - counts w (some win) := by
      by_cases h : win = w
      · subst h
        simp only [spare, Function.update_self, counts_some, if_true]
        omega
      · simp only [spare, Function.update_of_ne (Ne.symm h), counts_some, if_neg h]
        omega
    simp only [Option.elim, spare_acquire, hannounced]
    omega

/-- Releasing the current window costs the reference that it held. -/
theorem spare_releaseWin {w : Window} (hw : w ≠ defaultWin) (s : State Window) :
    (releaseWin defaultWin s).spare w = s.spare w := by
  rw [releaseWin]
  split_ifs with h
  · rfl
  · have hrelease := spare_release w s.win s
    simp only [spare, ANativeWindow_release, counts_some, if_neg (Ne.symm hw)] at hrelease ⊢
    omega

/-- Releasing the pending window costs the reference that it held. -/
theorem spare_releasePendingWin {w : Window} (hw : w ≠ defaultWin) (s : State Window) :
    (releasePendingWin defaultWin s).spare w = s.spare w := by
  rw [releasePendingWin]
  split
  · rfl
  · next pendingWin hp =>
    split_ifs with h
    · rfl
    · have hrelease := spare_release w pendingWin s
      simp only [spare, ANativeWindow_release, hp, counts_some, if_neg (Ne.symm hw)] at hrelease ⊢
      omega

/-! ## Surfaces -/

/-- The surfaces that there are: the renderer's own and that of `sfc`, which is drawn to. -/
structure Surfaces (defaultWin : Window) (s : State Window) : Prop where
  nodup : s.surfaces.Nodup
  mem : ∀ w, w ∈ s.surfaces ↔ w = defaultWin ∨ s.sfc = some w
  sfc : ∀ w, s.sfc = some w → s.win = w
  current : s.current = defaultWin ∨ s.sfc = some s.current

/-- Neither window is held and the renderer's own surface is the only one. -/
structure LetGo (defaultWin : Window) (s s' : State Window) : Prop where
  win : s'.win = defaultWin
  sfc : ∀ w, s'.sfc = some w → w = defaultWin
  current : s'.current = defaultWin
  nodup : s'.surfaces.Nodup
  mem : ∀ w, w ∈ s'.surfaces ↔ w = defaultWin
  spare : ∀ w ≠ defaultWin, s'.spare w = s.spare w
  pendingWin : s'.pendingWin = s.pendingWin
  asked : s'.asked = s.asked
  page : s'.page = s.page

theorem releaseWin_win (s : State Window) : (releaseWin defaultWin s).win = defaultWin := by
  rw [releaseWin]
  split_ifs with h
  · exact h
  · rfl

/-- The window's half leaves the rest alone. -/
theorem releaseWin_frame (defaultWin : Window) (s : State Window) :
    (releaseWin defaultWin s).sfc = s.sfc ∧ (releaseWin defaultWin s).surfaces = s.surfaces ∧
      (releaseWin defaultWin s).pendingWin = s.pendingWin ∧
        (releaseWin defaultWin s).asked = s.asked ∧
      (releaseWin defaultWin s).page = s.page ∧ (releaseWin defaultWin s).current = s.current := by
  rw [releaseWin]
  split_ifs
  all_goals exact ⟨rfl, rfl, rfl, rfl, rfl, rfl⟩

/-- What the release of the window and its surface leaves. -/
theorem releaseWinAndSurface_spec {s : State Window} (h : Surfaces defaultWin s) {egl : Answers}
    (hcurrent : egl.defaultCurrent = true) (hdestroyed : egl.destroyed = true) :
    LetGo defaultWin s (releaseWinAndSurface defaultWin egl s) := by
  have key :
      ∀ s' : State Window, releaseSurface defaultWin egl s = (true, s') →
        (∀ w, s'.sfc = some w → w = defaultWin) →
      s'.current = defaultWin → s'.surfaces.Nodup → (∀ w, w ∈ s'.surfaces ↔ w = defaultWin) →
        (∀ w, s'.spare w = s.spare w) →
      s'.pendingWin = s.pendingWin → s'.asked = s.asked → s'.page = s.page →
      LetGo defaultWin s (releaseWinAndSurface defaultWin egl s) := by
    intro s' hs' hsfc hcurrent hnodup hmem hspare hpending hasked hpage
    obtain ⟨fsfc, fsurfaces, fpending, fasked, fpage, fcurrent⟩ := releaseWin_frame defaultWin s'
    rw [releaseWinAndSurface, hs']
    exact ⟨releaseWin_win s', fun w hw => hsfc w (fsfc ▸ hw), fcurrent.trans hcurrent,
      fsurfaces ▸ hnodup,
      fun w => fsurfaces ▸ hmem w,
      fun w hw => (spare_releaseWin hw s').trans (hspare w), fpending.trans hpending,
        fasked.trans hasked,
      fpage.trans hpage⟩
  cases hsfc : s.sfc with
  | none =>
    refine key s (by simp [releaseSurface, hsfc]) (fun w hw => by simp [hsfc] at hw)
      (h.current.resolve_right (by simp [hsfc])) h.nodup (fun w => ?_) (fun _ => rfl) rfl rfl rfl
    simp [h.mem, hsfc]
  | some sfc =>
    by_cases hdefault : sfc = defaultWin
    · subst hdefault
      refine key s (by simp [releaseSurface, hsfc]) (fun w hw => ?_)
        (h.current.elim id fun hcur => (Option.some.inj (hcur.symm.trans hsfc))) h.nodup
          (fun w => ?_) (fun _ => rfl) rfl rfl rfl
      · exact Option.some.inj (hw.symm.trans hsfc)
      · rw [h.mem, hsfc, Option.some_inj, eq_comm (a := sfc), or_self]
    · refine key
        { s with current := defaultWin, surfaces := s.surfaces.erase sfc, sfc := some defaultWin }
        (by simp [releaseSurface, hsfc, hdefault, hcurrent, hdestroyed])
          (fun w hw => (Option.some.inj hw).symm) rfl
        (h.nodup.erase sfc) (fun w => ?_) (fun _ => rfl) rfl rfl rfl
      simp only [h.nodup.mem_erase_iff, h.mem, hsfc, Option.some_inj]
      constructor
      · rintro ⟨hne, hw | hw⟩
        · exact hw
        · exact absurd hw.symm hne
      · rintro rfl
        exact ⟨Ne.symm hdefault, .inl rfl⟩

/-! ## The window between any two steps -/

/-- What holds between any two steps. -/
structure Inv (defaultWin : Window) (s : State Window) : Prop where
  spare : ∀ w ≠ defaultWin, s.spare w = 0
  surfaces : Surfaces defaultWin s
  notDefault : s.pendingWin ≠ some defaultWin
  pending : s.windowChanged = true → s.pendingWin = s.asked
  settled : s.windowChanged = false → s.pendingWin = none ∧
    (s.win ≠ defaultWin → s.asked = some s.win)
  made : s.win ≠ defaultWin →
    s.sfc = some s.win ∧ (s.current = s.win ∨ s.outcome = some .notCurrent) ∨
      s.outcome = some .noSurface
  page : ∀ page, s.page = some page → page.surfaceAvailable = true →
    s.win ≠ defaultWin ∧ s.sfc = some s.win ∧
      (s.current = s.win ∨ s.outcome = some .notCurrent ∧ s.stateSet = true) ∨
        s.outcome = some .noSurface

theorem inv_start (defaultWin : Window) : Inv defaultWin (start defaultWin) where
  spare := fun w hw => by simp [start, State.spare, Function.update_of_ne hw, Ne.symm hw]
  surfaces := ⟨List.nodup_singleton _, fun w => by simp [start, eq_comm],
    fun w hw => Option.some.inj hw, .inl rfl⟩
  notDefault := (Option.some_ne_none _).symm
  pending := fun h => by cases h
  settled := fun _ => ⟨rfl, fun h => absurd rfl h⟩
  made := fun h => absurd rfl h
  page := fun _ h => by cases h

/-- What `rendererSetWindow` does, but for the references. -/
theorem rendererSetWindow_frame (newWin : Option Window) (s : State Window) :
    (rendererSetWindow newWin s).win = s.win ∧ (rendererSetWindow newWin s).sfc = s.sfc ∧
      (rendererSetWindow newWin s).surfaces = s.surfaces ∧
        (rendererSetWindow newWin s).page = s.page ∧
      (rendererSetWindow newWin s).outcome = s.outcome ∧
        (rendererSetWindow newWin s).current = s.current ∧
      (rendererSetWindow newWin s).stateSet = s.stateSet ∧
        (rendererSetWindow newWin s).asked = newWin ∧
      (rendererSetWindow newWin s).pendingWin = newWin ∧
      ((rendererSetWindow newWin s).windowChanged = true ∨
        (rendererSetWindow newWin s).windowChanged = s.windowChanged ∧ s.pendingWin = newWin ∧
          newWin ≠ none) := by
  rw [rendererSetWindow]
  split_ifs with h
  · cases newWin with
    | none => simp at h
    | some win =>
      exact ⟨rfl, rfl, rfl, rfl, rfl, rfl, rfl, rfl, h.2, .inr ⟨rfl, h.2, Option.some_ne_none _⟩⟩
  · cases s.pendingWin
    all_goals exact ⟨rfl, rfl, rfl, rfl, rfl, rfl, rfl, rfl, rfl, .inl rfl⟩

/-- A new surface keeps the invariant. -/
theorem Inv.surfaceChanged {s : State Window} (h : Inv defaultWin s) {sfc : Option Window}
    (hsfc : sfc ≠ some defaultWin) :
    Inv defaultWin (surfaceChanged sfc s) := by
  have hframe :
      ∀ t : State Window, t.win = s.win → t.sfc = s.sfc → t.surfaces = s.surfaces →
        t.page = s.page →
      t.outcome = s.outcome → t.current = s.current → t.stateSet = s.stateSet →
        t.windowChanged = s.windowChanged →
      t.pendingWin = s.pendingWin → (∀ w ≠ defaultWin, (rendererSetWindow sfc t).spare w = 0) →
          Inv defaultWin (rendererSetWindow sfc t) := by
    intro t twin tsfc tsurfaces tpage toutcome tcurrent tset tchanged tpending hspare
    obtain ⟨fwin, fsfc, fsurfaces, fpage, foutcome, fcurrent, fset, fasked, fpending, fchanged⟩ :=
      rendererSetWindow_frame sfc t
    have hchanged : (rendererSetWindow sfc t).windowChanged = true := by
      rcases fchanged with hc | ⟨hc, hp, hne⟩
      · exact hc
      · rw [hc, tchanged]
        -- A window that is pending has yet to be taken over.
        cases hs : s.windowChanged with
        | true => rfl
        | false => exact absurd (hp.symm.trans (tpending.trans (h.settled hs).1)) hne
    refine ⟨hspare, ⟨?_, ?_, ?_, ?_⟩, ?_, ?_, ?_, ?_, ?_⟩
    · exact fsurfaces ▸ tsurfaces ▸ h.surfaces.nodup
    · intro w
      rw [fsurfaces, tsurfaces, fsfc, tsfc]
      exact h.surfaces.mem w
    · intro w hw
      rw [fwin, twin]
      exact h.surfaces.sfc w (by rw [← tsfc, ← fsfc, hw])
    · rw [fcurrent, tcurrent, fsfc, tsfc]
      exact h.surfaces.current
    · rw [fpending]
      exact hsfc
    · exact fun _ => fpending.trans fasked.symm
    · intro hfalse
      rw [hchanged] at hfalse
      cases hfalse
    · rw [fwin, twin, fsfc, tsfc, foutcome, toutcome, fcurrent, tcurrent]
      exact h.made
    · rw [fpage, tpage, fwin, twin, fsfc, tsfc, foutcome, toutcome, fcurrent, tcurrent, fset, tset]
      exact h.page
  have hspare : ∀ w ≠ defaultWin, (RendererWindow.surfaceChanged sfc s).spare w = 0 := fun w hw =>
    (spare_surfaceChanged w sfc s).trans (h.spare w hw)
  rw [RendererWindow.surfaceChanged] at hspare ⊢
  cases sfc
  all_goals exact hframe _ rfl rfl rfl rfl rfl rfl rfl rfl rfl hspare

/-! ## `rendererRefreshContext` -/

/-- A window that is pending stays so or, if its size is invalid, gives way to the renderer's
own. -/
theorem takeWindow_spec {s : State Window} (h : Inv defaultWin s) {egl : Answers}
    (hcurrent : egl.defaultCurrent = true)
    (hdestroyed : egl.destroyed = true) :
    ∃ t, LetGo defaultWin s t ∧ (takeWindow defaultWin egl s = t ∨
      takeWindow defaultWin egl s = releasePendingWin defaultWin t) := by
  refine ⟨_, releaseWinAndSurface_spec h.surfaces hcurrent hdestroyed, ?_⟩
  rw [takeWindow]
  split_ifs
  · exact .inr rfl
  · exact .inl rfl

/-- `applyWindow` on a window that has no other surface than the renderer's own. -/
theorem inv_applyWindow {s : State Window} (egl : Answers)
    (hspare : ∀ w ≠ defaultWin, s.spare w = 0)
    (hnodup : s.surfaces.Nodup) (hmem : ∀ w, w ∈ s.surfaces ↔ w = defaultWin)
    (hcurrent : s.current = defaultWin)
    (hpending : s.pendingWin = none) (hchanged : s.windowChanged = false)
    (hasked : s.win ≠ defaultWin → s.asked = some s.win) :
    Inv defaultWin
      (writeFlags (applyWindow defaultWin egl s).1 (applyWindow defaultWin egl s).2) := by
  have hgeneral :
      ∀ (surfaces : List Window) (sfc : Option Window) (current : Window) (outcome : Outcome),
        surfaces.Nodup →
      (∀ w, w ∈ surfaces ↔ w = defaultWin ∨ sfc = some w) → (∀ w, sfc = some w → s.win = w) →
      (current = defaultWin ∨ sfc = some current) →
      (s.win ≠ defaultWin → sfc = some s.win ∧ (current = s.win ∨ outcome = .notCurrent) ∨
        outcome = .noSurface) →
      (∀ page, (outcome.write page).surfaceAvailable = true →
        s.win ≠ defaultWin ∧ sfc = some s.win ∧ current = s.win ∨ outcome = .noSurface) →
      Inv defaultWin (writeFlags { s with surfaces, sfc, current } outcome) := by
    intro surfaces sfc current outcome gnodup gmem gsfc gcurrent gmade gpage
    refine ⟨hspare, ⟨gnodup, gmem, gsfc, gcurrent⟩, ?_, fun htrue => ?_,
      fun _ => ⟨hpending, hasked⟩, fun hw => ?_,
      fun page hp hav => ?_⟩
    · change s.pendingWin ≠ some defaultWin
      exact hpending ▸ (Option.some_ne_none _).symm
    · exact absurd (hchanged.symm.trans htrue) Bool.false_ne_true
    · exact (gmade hw).imp (And.imp_right (Or.imp_right (congrArg some))) (congrArg some)
    · obtain ⟨before, -, rfl⟩ := Option.map_eq_some_iff.mp hp
      exact (gpage before hav).imp (fun ⟨hne, hsfc, hcur⟩ => ⟨hne, hsfc, .inl hcur⟩) (congrArg some)
  by_cases hmade : egl.created = true ∧ s.win ∉ s.surfaces
  · have hwin : s.win ≠ defaultWin := fun he => hmade.2 ((hmem s.win).mpr he)
    have hmem' : ∀ w, w ∈ s.win :: s.surfaces ↔ w = defaultWin ∨ some s.win = some w := fun w => by
      rw [List.mem_cons, hmem, Option.some_inj, or_comm, eq_comm (a := w) (b := s.win)]
    have hnew := fun current outcome => hgeneral (s.win :: s.surfaces) (some s.win) current outcome
      (List.nodup_cons.mpr ⟨hmade.2, hnodup⟩) hmem' (fun w hw => Option.some.inj hw)
    simp only [applyWindow, eglCreateWindowSurface, if_pos hmade]
    split_ifs
    · exact hnew s.current .notCurrent (.inl hcurrent) (fun _ => .inl ⟨rfl, .inr rfl⟩)
        fun _ hav => by cases hav
    · exact hnew s.win (.applied _) (.inr rfl) (fun _ => .inl ⟨rfl, .inl rfl⟩) fun _ _ =>
        .inl ⟨hwin, rfl, rfl⟩
  · simp only [applyWindow, eglCreateWindowSurface, if_neg hmade]
    exact hgeneral s.surfaces none s.current .noSurface hnodup (fun w => by simp [hmem])
      (fun w hw => by cases hw)
      (.inl hcurrent) (fun _ => .inr rfl) (fun _ _ => .inr rfl)

/-- `win` is the renderer's own window until `pendingWin` takes its place. -/
theorem spare_taken {s : State Window} {win w : Window} (hwin : s.win = defaultWin)
    (hpending : s.pendingWin = some win)
    (hw : w ≠ defaultWin) (hspare : s.spare w = 0) :
    State.spare w { s with win, pendingWin := none, windowChanged := false } = 0 := by
  simp only [State.spare, hwin, hpending, counts_some, if_neg (Ne.symm hw), counts_none] at hspare ⊢
  omega

/-- A refresh keeps the invariant. -/
theorem Inv.rendererRefreshContext {s : State Window} (h : Inv defaultWin s)
    (hchanged : s.windowChanged = true)
    {egl : Answers} (hcurrent : egl.defaultCurrent = true) (hdestroyed : egl.destroyed = true) :
    Inv defaultWin (rendererRefreshContext defaultWin egl s) := by
  obtain ⟨t, hgo, htake⟩ := takeWindow_spec h hcurrent hdestroyed
  have hspare : ∀ w ≠ defaultWin, t.spare w = 0 := fun w hw => (hgo.spare w hw).trans (h.spare w hw)
  have hasked : t.pendingWin = t.asked :=
    hgo.pendingWin.trans ((h.pending hchanged).trans hgo.asked.symm)
  rw [RendererWindow.rendererRefreshContext, refreshContext]
  cases hp : t.pendingWin with
  | none =>
    have hu : takeWindow defaultWin egl s = t := by
      rcases htake with hu | hu
      · exact hu
      · rw [hu, releasePendingWin, hp]
    simp only [hu, hp]
    refine ⟨fun w hw => ?_, ⟨hgo.nodup, fun w => ?_, fun w hw => (hgo.sfc w hw).symm, .inl ?_⟩, ?_,
      fun hc => absurd hc Bool.false_ne_true, fun _ => ⟨rfl, fun hne => absurd rfl hne⟩, fun hne =>
        absurd rfl hne, fun page hpage hav => ?_⟩
    · have ht := hspare w hw
      simp only [State.spare, writeFlags, hgo.win, hp] at ht ⊢
      exact ht
    · exact (hgo.mem w).trans ⟨.inl, fun hw => hw.elim id (hgo.sfc w)⟩
    · show (if egl.idleCurrent = true then defaultWin else t.current) = defaultWin
      rw [hgo.current, ite_self]
    · exact (Option.some_ne_none _).symm
    · obtain ⟨before, -, rfl⟩ := Option.map_eq_some_iff.mp hpage
      exact absurd hav Bool.false_ne_true
  | some win =>
    have hwin : win ≠ defaultWin := fun he => h.notDefault (hgo.pendingWin.symm.trans (he ▸ hp))
    rcases htake with hu | hu
    · simp only [hu, hp]
      exact inv_applyWindow egl (fun w hw => spare_taken hgo.win hp hw (hspare w hw)) hgo.nodup
        hgo.mem hgo.current
        rfl rfl (fun _ => hasked ▸ hp)
    · have hreleased : ∀ w ≠ defaultWin, (releasePendingWin defaultWin t).spare w = 0 := fun w hw =>
        (spare_releasePendingWin hw t).trans (hspare w hw)
      simp only [releasePendingWin, hp, if_neg hwin] at hu hreleased
      simp only [hu]
      exact inv_applyWindow egl
        (fun w hw =>
        spare_taken (s := { ANativeWindow_release win t with pendingWin := some defaultWin })
        hgo.win rfl hw (hreleased w hw)) hgo.nodup hgo.mem hgo.current rfl rfl
          (fun hne => absurd rfl hne)

/-- All that the window and EGL are asked succeeds. -/
structure Succeeds (egl : Answers) : Prop where
  width : 0 < egl.width
  height : 0 < egl.height
  defaultCurrent : egl.defaultCurrent = true
  destroyed : egl.destroyed = true
  created : egl.created = true
  madeCurrent : egl.madeCurrent = true

/-- The window is drawn to, and the server is told to draw; or there is none. -/
def Shows (defaultWin : Window) (s : State Window) : Option Window → Prop
  | none =>
    s.win = defaultWin ∧ s.current = defaultWin ∧ ∀ page, s.page = some page →
      page.surfaceAvailable = false
  | some win =>
    s.win = win ∧ s.sfc = some win ∧ s.current = win ∧ ∀ page, s.page = some page →
      page = ⟨true, true, true⟩

/-- The window last asked for is taken over. -/
theorem Inv.shows {s : State Window} (h : Inv defaultWin s) (hchanged : s.windowChanged = true)
    {egl : Answers}
    (hegl : Succeeds egl) :
    Shows defaultWin (RendererWindow.rendererRefreshContext defaultWin egl s) s.asked ∧
      (RendererWindow.rendererRefreshContext defaultWin egl s).windowChanged = false := by
  have hgo := releaseWinAndSurface_spec h.surfaces hegl.defaultCurrent hegl.destroyed
  have htake : takeWindow defaultWin egl s = releaseWinAndSurface defaultWin egl s := by
    have hwidth := hegl.width
    have hheight := hegl.height
    rw [takeWindow, if_neg fun hinvalid => by omega]
  rw [← h.pending hchanged, RendererWindow.rendererRefreshContext, refreshContext, htake]
  have hpending := hgo.pendingWin
  generalize releaseWinAndSurface defaultWin egl s = t at hgo hpending
  rw [← hpending]
  cases hp : t.pendingWin with
  | none =>
    dsimp only
    refine ⟨⟨rfl, ?_, fun page hpage => ?_⟩, rfl⟩
    · show (if egl.idleCurrent = true then defaultWin else t.current) = defaultWin
      rw [hgo.current, ite_self]
    · obtain ⟨before, -, rfl⟩ := Option.map_eq_some_iff.mp hpage
      rfl
  | some win =>
    have hwin : win ≠ defaultWin := fun heq => h.notDefault (hpending.symm.trans (heq ▸ hp))
    have hmade : egl.created = true ∧ win ∉ t.surfaces :=
      ⟨hegl.created, fun hmem => hwin ((hgo.mem win).mp hmem)⟩
    have hmadeCurrent := hegl.madeCurrent
    simp only [applyWindow, eglCreateWindowSurface, if_pos hmade, hmadeCurrent, Bool.true_eq_false,
      if_false]
    refine ⟨⟨rfl, rfl, rfl, fun page hpage => ?_⟩, rfl⟩
    obtain ⟨before, -, rfl⟩ := Option.map_eq_some_iff.mp hpage
    simp [Outcome.write, hwin]

/-! ## Runs -/

/-- **Step lemma.** Every step keeps the invariant. -/
theorem Inv.step {s s' : State Window} {a : Action Window} (h : Inv defaultWin s) (hok : releases a)
    (hstep : step defaultWin s a = some s') : Inv defaultWin s' := by
  cases a with
  | surfaceChanged sfc =>
    simp only [RendererWindow.step] at hstep
    split_ifs at hstep with hsfc
    exact Option.some.inj hstep ▸ h.surfaceChanged hsfc
  | returned =>
    simp only [RendererWindow.step] at hstep
    split_ifs at hstep
    obtain rfl := Option.some.inj hstep
    exact ⟨h.spare, ⟨h.surfaces.nodup, h.surfaces.mem, h.surfaces.sfc, h.surfaces.current⟩,
      h.notDefault, h.pending,
      h.settled, h.made, h.page⟩
  | setState page =>
    obtain rfl := Option.some.inj hstep
    refine ⟨h.spare, ⟨h.surfaces.nodup, h.surfaces.mem, h.surfaces.sfc, h.surfaces.current⟩,
      h.notDefault, h.pending,
      h.settled, h.made, fun page' hpage hav => ?_⟩
    obtain ⟨before, -, rfl⟩ := Option.map_eq_some_iff.mp hpage
    have hwin : s.win ≠ defaultWin := of_decide_eq_true hav
    exact (h.made hwin).imp_left fun ⟨hsfc, hcurrent⟩ =>
      ⟨hwin, hsfc, hcurrent.imp_right fun hfailed => ⟨hfailed, rfl⟩⟩
  | rendererRefreshContext egl =>
    simp only [RendererWindow.step] at hstep
    split_ifs at hstep with hchanged
    exact Option.some.inj hstep ▸ h.rendererRefreshContext hchanged hok.1 hok.2

/-- **While EGL lets the old surfaces go, the references to a window are those of `win` and
`pendingWin` and one for each time it was announced; a surface is `win`'s, and once no change is
pending `win` is the window last asked for, which a refresh that succeeds takes over; what is drawn
goes to a surface that is there; and what is shown as available is a window whose surface is
current, unless that could not be made, or not be made current before another state was set.** -/
theorem window_handed_over (defaultWin : Window) {as : List (Action Window)} {s : State Window}
    (hrun : run (RendererWindow.step defaultWin) (start defaultWin) as = some s)
    (hok : ∀ a ∈ as, releases a) :
    (∀ w ≠ defaultWin, s.references w =
      s.announced w + (if s.win = w then 1 else 0) + (if s.pendingWin = some w then 1 else 0)) ∧
    (∀ w ∈ s.surfaces, w ≠ defaultWin → s.sfc = some w ∧ s.win = w) ∧
    (s.windowChanged = false → s.pendingWin = none ∧ ∀ w ∈ s.surfaces, w ≠ defaultWin →
      s.asked = some w) ∧
    (s.windowChanged = true → ∀ egl, Succeeds egl →
      ∃ s', RendererWindow.step defaultWin s (.rendererRefreshContext egl) = some s' ∧
        Shows defaultWin s' s.asked ∧ s'.windowChanged = false) ∧
    s.current ∈ s.surfaces ∧
    (∀ page, s.page = some page → page.surfaceAvailable = true →
      s.win ≠ defaultWin ∧ s.win ∈ s.surfaces ∧ s.sfc = some s.win ∧
          (s.current = s.win ∨ s.outcome = some .notCurrent ∧ s.stateSet = true) ∨
        s.outcome = some .noSurface) := by
  have hmeets : Meets (RendererWindow.step defaultWin) (fun _ => releases) (start defaultWin) as :=
    Meets.of_forall (fun a ha _ => hok a ha) _
  have h : Inv defaultWin s := run_induction Inv.step (inv_start defaultWin) hmeets hrun
  have hsfc : ∀ w ∈ s.surfaces, w ≠ defaultWin → s.sfc = some w ∧ s.win = w := fun w hw hne => by
    have hsfc := ((h.surfaces.mem w).mp hw).resolve_left hne
    exact ⟨hsfc, h.surfaces.sfc w hsfc⟩
  refine ⟨fun w hw => ?_, hsfc, fun hchanged => ⟨(h.settled hchanged).1, fun w hw hne => ?_⟩,
    fun hchanged egl hegl => ?_,
    (h.surfaces.mem s.current).mpr h.surfaces.current, fun page hpage hav => ?_⟩
  · have hspare := h.spare w hw
    simp only [State.spare, counts_some] at hspare
    rw [counts] at hspare
    omega
  · obtain ⟨-, hwin⟩ := hsfc w hw hne
    exact hwin ▸ (h.settled hchanged).2 (hwin ▸ hne)
  · exact ⟨_, if_pos hchanged, h.shows hchanged hegl⟩
  · refine (h.page page hpage hav).imp_left ?_
    rintro ⟨hne, hs, hcurrent⟩
    exact ⟨hne, (h.surfaces.mem _).mpr (.inr hs), hs, hcurrent⟩

/-- A window whose size changes, another that has none when its turn comes, and the first one
again. -/
def resized : List (Action Nat) :=
  let fine : Answers := ⟨800, 600, true, true, true, true, true⟩
  [.setState (some ⟨false, false, false⟩), .surfaceChanged (some 1), .rendererRefreshContext fine,
    .returned,
    .surfaceChanged (some 1), .rendererRefreshContext fine, .returned, .surfaceChanged (some 2),
    .rendererRefreshContext { fine with height := 0 }, .returned, .surfaceChanged (some 1),
      .surfaceChanged none,
    .surfaceChanged (some 1), .surfaceChanged (some 1), .rendererRefreshContext fine, .returned]

theorem window_handed_over_resized : ∃ s, run (RendererWindow.step 0) (start 0) resized = some s ∧
    s.references 1 = 6 ∧ s.references 2 = 1 ∧ s.surfaces = [1, 0] ∧ s.asked = some 1 ∧
      s.current ∈ s.surfaces := by
  have hruns : (run (RendererWindow.step 0) (start 0) resized).isSome = true := by decide +kernel
  obtain ⟨s, hs⟩ := Option.isSome_iff_exists.mp hruns
  have hlaw := window_handed_over 0 hs (by simp [resized, releases])
  have hends : (run (RendererWindow.step 0) (start 0) resized).map
      (fun s => (s.win, s.pendingWin, s.surfaces, s.windowChanged, s.announced 1, s.announced 2)) =
      some (1, none, [1, 0], false, 5, 1) := by decide +kernel
  rw [hs] at hends
  simp only [Option.map_some, Option.some_inj, Prod.mk.injEq] at hends
  obtain ⟨hwin, hpending, hsurfaces, hchanged, hone, htwo⟩ := hends
  refine ⟨s, hs, ?_, ?_, hsurfaces,
    (hlaw.2.2.1 hchanged).2 1 (hsurfaces ▸ List.mem_cons_self) (by decide), hlaw.2.2.2.2.1⟩
  · have h := hlaw.1 1 (by decide)
    simpa [hwin, hpending, hone] using h
  · have h := hlaw.1 2 (by decide)
    simpa [hwin, hpending, htwo] using h

end WinEmulator.Lorie.RendererWindow
