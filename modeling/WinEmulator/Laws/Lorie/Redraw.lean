import WinEmulator.Lib.DirtyFlag
import WinEmulator.Lorie.Redraw

/-!
# Laws of the frames

The root window, the cursor's image and its place each reach the screen by a flag: the damage and
then `drawRequested`, `updated` and `moved`. `Inv` says of each that the renderer's copy of it is
`Fresh`. What a call or a frame is still to do is sound (`Sound`, `Shape`): a change is followed by
its flag and a flag that is taken down by the reading.
-/

set_option autoImplicit false

namespace WinEmulator.Lorie.Redraw

open WinEmulator.Lib
open WinEmulator.Lorie.RendererWindow (Outcome)

variable {Pixels Bits : Type}

/-! ## What is still to be done -/

/-- Nothing is reported by what follows. -/
def Silent (rest : List (ServerOp Pixels Bits)) : Prop :=
  .moved ∉ rest ∧ .updated ∉ rest ∧ .damage ∉ rest ∧ .drawRequested ∉ rest

/-- What must follow an operation. -/
def ServerOp.Followed (damage : Bool) (rest : List (ServerOp Pixels Bits)) :
    ServerOp Pixels Bits → Prop
  | .setField c _ => .moved ∈ rest ∧ (c = .width ∨ c = .height → .updated ∈ rest)
  | .lorieConvertCursor _ => .updated ∈ rest
  | .paint _ _ | .rootPixmap _ | .rootScreenPixmap => damage = true ∨ .damage ∈ rest
  | .setScreenPixmap _ _ => .damage ∈ rest
  | .returnUnlessShown _ | .ifDrawRequested | .ifMoved | .ifUpdated => Silent rest
  | _ => True

/-- Whether there is damage after an operation. -/
def ServerOp.damageAfter (damage : Bool) : ServerOp Pixels Bits → Bool
  | .damage => true
  | .setScreenPixmap _ _ | .ifDamaged => false
  | _ => damage

/-- Whatever is changed will be reported. -/
def Sound (damage : Bool) : List (ServerOp Pixels Bits) → Prop
  | [] => True
  | op :: rest => op.Followed damage rest ∧ Sound (op.damageAfter damage) rest

/-- What follows may be done with damage that it does not count on. -/
theorem Sound.mono {rest : List (ServerOp Pixels Bits)} (damage : Bool) (h : Sound false rest) :
    Sound damage rest := by
  cases damage with
  | false => exact h
  | true =>
    induction rest with
    | nil => trivial
    | cons op rest ih =>
      obtain ⟨hfollowed, hrest⟩ := h
      cases op with
      | paint index pixels => exact ⟨.inl rfl, ih hrest⟩
      | rootPixmap buffer => exact ⟨.inl rfl, ih hrest⟩
      | rootScreenPixmap => exact ⟨.inl rfl, ih hrest⟩
      | damage => exact ⟨trivial, hrest⟩
      | setScreenPixmap buffer pixels => exact ⟨hfollowed, hrest⟩
      | ifDamaged => exact ⟨trivial, hrest⟩
      | _ => exact ⟨hfollowed, ih hrest⟩

theorem sound_paints (index : Index) (paints : List Pixels) {rest : List (ServerOp Pixels Bits)}
    (h : Sound true rest) :
    Sound true (paints.map (.paint index) ++ rest) := by
  induction paints with
  | nil => exact h
  | cons p ps ih => exact ⟨.inl rfl, ih⟩

/-- A drawing raises the damage itself, so it is sound before any rest. -/
theorem sound_draw (damage : Bool) (index : Index) (paints : List Pixels)
    {rest : List (ServerOp Pixels Bits)}
    (h : Sound true rest) : Sound damage (draw index paints ++ rest) := by
  have hpaints : Sound true (paints.map (.paint index) ++ .unlock :: rest) :=
    sound_paints index paints ⟨trivial, h⟩
  unfold draw
  split_ifs
  · simp only [List.cons_append, List.nil_append, List.append_assoc]
    exact ⟨trivial, trivial, hpaints⟩
  · exact ⟨trivial, sound_paints index paints h⟩

theorem sound_draws (painted : List (Index × List Pixels)) {rest : List (ServerOp Pixels Bits)}
    (h : Sound true rest) :
    Sound true (painted.flatMap (fun p => draw p.1 p.2) ++ rest) := by
  induction painted with
  | nil => exact h
  | cons p ps ih =>
    rw [List.flatMap_cons, List.append_assoc]
    exact sound_draw true p.1 p.2 ih

/-- A drawing of either kind is sound before a sound rest. -/
theorem sound_drawing (server : Server Pixels Bits) (d : Drawing Pixels)
    {rest : List (ServerOp Pixels Bits)} {damage : Bool}
    (h : Sound damage rest) : Sound damage (d.program server ++ rest) := by
  have htrue : Sound true rest := by
    cases damage with
    | false => exact h.mono true
    | true => exact h
  cases d with
  | draw index paints => exact sound_draw damage index paints htrue
  | flip buffer => exact ⟨.inr List.mem_cons_self, trivial, htrue⟩
  | present_restore_screen_pixmap copied =>
    simp only [Drawing.program, present_restore_screen_pixmap]
    split_ifs
    · exact h
    · rw [List.append_assoc]
      exact sound_draw damage .dest copied ⟨.inl rfl, htrue⟩

/-- So are the vblanks that are due. -/
theorem sound_loriePerformVblanks (vblanks : List (Drawing Pixels))
    {rest : List (ServerOp Pixels Bits)} {damage : Bool}
    (h : Sound damage rest) : Sound damage (loriePerformVblanks vblanks ++ rest) := by
  induction vblanks with
  | nil => exact h
  | cons d ds ih => exact ⟨trivial, ih⟩

/-- Every call of the server is sound. -/
theorem sound_program (server : Server Pixels Bits) (c : Call Pixels Bits) :
    Sound server.damage (c.program server) := by
  cases c with
  | lorieMoveCursor x y => simp [Call.program, lorieMoveCursor, Sound, ServerOp.Followed]
  | lorieSetCursor cursor x0 y0 =>
    cases cursor
    all_goals simp [Call.program, lorieSetCursor, lorieMoveCursor, Sound, ServerOp.Followed]
  | drawing d =>
    have h : Sound server.damage (d.program server ++ ([] : List (ServerOp Pixels Bits))) :=
      sound_drawing server d trivial
    rwa [List.append_nil] at h
  | lorieRRScreenSetSize vblanks buffer pixels restored copied painted =>
    have hpainted :
        Sound true (painted.flatMap (fun p => draw p.1 p.2) ++
          ([.moved] : List (ServerOp Pixels Bits))) :=
      sound_draws painted ⟨trivial, trivial⟩
    simp only [Call.program, lorieRRScreenSetSize, List.append_assoc, List.cons_append,
      List.nil_append]
    refine sound_loriePerformVblanks vblanks
      ⟨trivial, ?_, sound_draw false .dest copied ⟨.inl rfl, hpainted⟩⟩
    simp [ServerOp.Followed, draw]
  | lorieRedraw vblanks connectionAlive =>
    simp only [Call.program, lorieRedraw, List.cons_append, List.nil_append]
    refine ⟨trivial, sound_loriePerformVblanks vblanks ?_⟩
    simp [Sound, ServerOp.Followed, Silent]

/-- What must follow an operation of a frame. -/
def RendererOp.Followed (rest : List RendererOp) : RendererOp → Prop
  | .findById => rest = []
  | .lowerDrawRequested buffer =>
    .lowerMoved ∈ rest ∧ .drawRoot buffer ∈ rest ∧ ∀ b, .drawRoot b ∈ rest → b = buffer
  | .lowerUpdated => .glTexImage2D ∈ rest
  | .lowerMoved => .readField .width ∈ rest ∧ .readField .height ∈ rest ∧ .ifVisible ∈ rest
  | .ifVisible => .eglSwapBuffers ∈ rest ∧ ∀ c, .readField c ∉ rest
  | .drawRoot _ => .eglSwapBuffers ∈ rest ∧ ∀ b, .lowerDrawRequested b ∉ rest
  | .ifUpdated | .glTexImage2D | .readField _ => .eglSwapBuffers ∈ rest
  | .lock | .lockCursor | .unlockCursor | .waitForNextFrame | .unlock | .eglSwapBuffers
  | .renderedFrames => True

/-- What is no longer asked for will be read. -/
def Shape : List RendererOp → Prop
  | [] => True
  | op :: rest => op.Followed rest ∧ Shape rest

theorem shape_rendererRedrawLocked (buffer : Renderer.BufferId) :
    Shape (rendererRedrawLocked buffer) := by
  simp [rendererRedrawLocked, Shape, RendererOp.Followed]

theorem shape_ifUpdated {rest : List RendererOp} (hswap : .eglSwapBuffers ∈ rest) (h : Shape rest) :
    Shape ([.lockCursor, .lowerUpdated, .glTexImage2D, .unlockCursor] ++ rest) := by
  simp [Shape, RendererOp.Followed, hswap, h]

theorem shape_drawCursorReads {rest : List RendererOp} (hswap : .eglSwapBuffers ∈ rest)
    (h : Shape rest) :
    Shape (drawCursorReads ++ rest) := by
  simp [drawCursorReads, Shape, RendererOp.Followed, hswap, h]

/-! ## The copies -/

/-- A number of the cursor that the frame in progress is still to read, or that the last one did not
need. -/
def Unread (renderer : Renderer Pixels Bits) (c : Field) : Prop :=
  .readField c ∈ renderer.todo ∨ .lowerMoved ∈ renderer.todo ∨
    (c ≠ .width ∧ c ≠ .height ∧ (.ifVisible ∈ renderer.todo ∨ renderer.visible = false))

/-- The cursor's numbers. -/
def FreshPlace (s : State Pixels Bits) : Prop :=
  Fresh s.page.cursor s.renderer.cursor (s.page.moved = true ∨ s.page.drawRequested = true)
    (fun _ => .moved ∈ s.server.todo) (Unread s.renderer)

/-- The cursor's image. -/
def FreshImage (s : State Pixels Bits) : Prop :=
  Fresh (fun _ : Unit => s.page.image) (fun _ => s.renderer.texture) (s.page.updated = true)
    (fun _ => .updated ∈ s.server.todo) (fun _ => .glTexImage2D ∈ s.renderer.todo)

/-- The root window. -/
def FreshRoot (s : State Pixels Bits) : Prop :=
  Fresh (fun _ : Unit => some (s.server.picture s.server.root)) (fun _ => s.renderer.drawn)
    (s.server.damage = true ∨ s.page.drawRequested = true)
    (fun _ => .damage ∈ s.server.todo ∨ .drawRequested ∈ s.server.todo)
      (fun _ => .drawRoot s.server.root ∈ s.renderer.todo)

structure Inv (s : State Pixels Bits) : Prop where
  sound : Sound s.server.damage s.server.todo
  shape : Shape s.renderer.todo
  place : s.renderer.surface = true → FreshPlace s
  hidden : s.renderer.visible = false → .ifVisible ∈ s.renderer.todo ∨
    (∀ c, .readField c ∉ s.renderer.todo) ∧
      (s.renderer.cursor .width = 0 ∨ s.renderer.cursor .height = 0)
  image : s.renderer.surface = true → FreshImage s
  root : s.renderer.surface = true → FreshRoot s
  found : ∀ b, .drawRoot b ∈ s.renderer.todo →
    .lowerDrawRequested b ∈ s.renderer.todo ∨ b = s.server.root ∨ Reported s
  frame : .eglSwapBuffers ∈ s.renderer.todo ∨ s.renderer.frame =
    s.renderer.drawn.map fun root => ⟨root, drawCursor s.renderer.texture s.renderer.cursor⟩

/-! ## A step of the server -/

/-- The renderer's part is left alone. -/
theorem Inv.of_server {s s' : State Pixels Bits} (h : Inv s) (hrenderer : s'.renderer = s.renderer)
    (hsound : Sound s'.server.damage s'.server.todo) (hplace : FreshPlace s → FreshPlace s')
    (himage : FreshImage s → FreshImage s') (hroot : FreshRoot s → FreshRoot s')
    (hreported : Reported s → Reported s') (hsame : s'.server.root = s.server.root ∨ Reported s') :
    Inv s' where
  sound := hsound
  shape := hrenderer ▸ h.shape
  place := fun hs => hplace (h.place (hrenderer ▸ hs))
  hidden := hrenderer ▸ h.hidden
  image := fun hs => himage (h.image (hrenderer ▸ hs))
  root := fun hs => hroot (h.root (hrenderer ▸ hs))
  found := fun b hb => by
    rw [hrenderer] at hb ⊢
    rcases h.found b hb with hlower | rfl | hr
    · exact .inl hlower
    · exact .inr (hsame.imp Eq.symm id)
    · exact .inr (.inr (hreported hr))
  frame := hrenderer ▸ h.frame

/-- What becomes of the reports in a step that changes nothing that is to be seen. -/
structure Reports (s s' : State Pixels Bits) : Prop where
  renderer : s'.renderer = s.renderer
  cursor : s'.page.cursor = s.page.cursor
  bits : s'.page.bits = s.page.bits
  root : s'.server.root = s.server.root
  picture : s'.server.picture = s.server.picture
  moved : (s.page.moved = true ∨ s.page.drawRequested = true) ∨ .moved ∈ s.server.todo →
    (s'.page.moved = true ∨ s'.page.drawRequested = true) ∨ .moved ∈ s'.server.todo
  updated : s.page.updated = true ∨ .updated ∈ s.server.todo → s'.page.updated = true ∨
    .updated ∈ s'.server.todo
  reported : Reported s → Reported s'

/-- A step of the server that reports what it changed keeps the invariant. -/
theorem Inv.of_reports {s s' : State Pixels Bits} (h : Inv s) (hreports : Reports s s')
    (hsound : Sound s'.server.damage s'.server.todo) : Inv s' := by
  obtain ⟨hrenderer, hcursor, hbits, hroot, hpicture, hmoved, hupdated, hreported⟩ := hreports
  refine h.of_server hrenderer hsound (fun hfresh => ?_) (fun hfresh => ?_)
    (fun hfresh => ?_) hreported (.inl hroot)
  · rw [FreshPlace, hrenderer, hcursor]
    exact hfresh.mono (fun _ => hmoved) (fun _ => id)
  · have himage : s'.page.image = s.page.image := by simp only [Page.image, hcursor, hbits]
    rw [FreshImage, hrenderer, himage]
    exact hfresh.mono (fun _ => hupdated) (fun _ => id)
  · rw [FreshRoot, hrenderer, hroot, hpicture]
    exact hfresh.mono (fun _ hr => or_assoc.mpr (hreported (or_assoc.mp hr))) (fun _ => id)

/-- A step that changes what is to be seen of the root window, and reports it. -/
theorem Inv.of_repainted {s s' : State Pixels Bits} (h : Inv s)
    (hrenderer : s'.renderer = s.renderer)
    (hsound : Sound s'.server.damage s'.server.todo) (hpage : s'.page = s.page)
    (hmoved : .moved ∈ s.server.todo → .moved ∈ s'.server.todo)
    (hupdated : .updated ∈ s.server.todo → .updated ∈ s'.server.todo)
    (hreported : s'.server.damage = true ∨ .damage ∈ s'.server.todo) : Inv s' := by
  have hall : Reported s' := hreported.imp_right fun hm => .inr (.inl hm)
  refine h.of_server hrenderer hsound (fun hfresh => ?_) (fun hfresh => ?_) (fun _ => ?_)
    (fun _ => hall) (.inr hall)
  · rw [FreshPlace, hrenderer, hpage]
    exact hfresh.mono (fun _ => Or.imp_right hmoved) (fun _ => id)
  · rw [FreshImage, hrenderer, hpage]
    exact hfresh.mono (fun _ => Or.imp_right hupdated) (fun _ => id)
  · exact Fresh.reported fun _ => or_assoc.mpr hall

/-- A return, where nothing that follows would report. -/
theorem Reports.of_silent {s s' : State Pixels Bits} {op : ServerOp Pixels Bits}
    {rest : List (ServerOp Pixels Bits)}
    (htodo : s.server.todo = op :: rest) (hop : Silent [op]) (hsilent : Silent rest)
    (hpage : s'.page = s.page)
    (hrenderer : s'.renderer = s.renderer) (hserver : ∃ todo, s'.server = { s.server with todo }) :
    Reports s s' := by
  obtain ⟨todo, hserver⟩ := hserver
  obtain ⟨hm, hu, hd, hr⟩ := hop
  obtain ⟨hms, hus, hds, hrs⟩ := hsilent
  simp only [List.mem_singleton] at hm hu hd hr
  refine ⟨hrenderer, hpage ▸ rfl, hpage ▸ rfl, hserver ▸ rfl, hserver ▸ rfl, ?_, ?_, ?_⟩
  · simp only [htodo, List.mem_cons, hm, hms, or_false, hpage]
    exact .inl
  · simp only [htodo, List.mem_cons, hu, hus, or_false, hpage]
    exact .inl
  · simp only [Reported, htodo, List.mem_cons, hd, hds, hr, hrs, or_false, hpage, hserver]
    exact fun hreported => hreported.imp_right .inl

/-- An operation that reports nothing and changes nothing that is reported. -/
theorem Reports.of_passed {s s' : State Pixels Bits} {op : ServerOp Pixels Bits}
    {rest : List (ServerOp Pixels Bits)}
    (htodo : s.server.todo = op :: rest) (hop : Silent [op])
    (hpage : ∃ lock cursorLock waitForNextFrame rootWindowTextureID,
      s'.page = { s.page with lock, cursorLock, waitForNextFrame, rootWindowTextureID })
    (hrenderer : s'.renderer = s.renderer)
    (hserver : ∃ rootRead redraws, s'.server = { s.server with rootRead, redraws, todo := rest }) :
    Reports s s' := by
  obtain ⟨_, _, _, _, hpage⟩ := hpage
  obtain ⟨_, _, hserver⟩ := hserver
  obtain ⟨hm, hu, hd, hr⟩ := hop
  simp only [List.mem_singleton] at hm hu hd hr
  refine ⟨hrenderer, hpage ▸ rfl, hpage ▸ rfl, hserver ▸ rfl, hserver ▸ rfl, ?_, ?_, ?_⟩
  · simp only [htodo, List.mem_cons, hm, false_or, hpage, hserver]
    exact id
  · simp only [htodo, List.mem_cons, hu, false_or, hpage, hserver]
    exact id
  · simp only [Reported, htodo, List.mem_cons, hd, hr, false_or, hpage, hserver]
    exact id

/-- A number of the cursor is written, and `moved` and, for its size, `updated` are owed. -/
theorem Inv.setField {s : State Pixels Bits} (h : Inv s) {c : Field} {v : UInt32}
    {rest : List (ServerOp Pixels Bits)}
    (htodo : s.server.todo = .setField c v :: rest) (hmoved : .moved ∈ rest)
    (hupdated : c = .width ∨ c = .height → .updated ∈ rest) (hrest : Sound s.server.damage rest) :
    Inv { s with
      page := { s.page with cursor := Function.update s.page.cursor c v },
        server := { s.server with todo := rest } } := by
  refine h.of_server rfl hrest (fun hfresh => ?_) (fun hfresh => ?_) (fun hfresh => ?_)
    (by simp [Reported, htodo]) (.inl rfl)
  · exact (hfresh.write c v (htodo ▸ List.mem_cons_of_mem _ hmoved)).mono (fun _ => by simp [htodo])
      (fun _ => id)
  · by_cases hc : c = .width ∨ c = .height
    · exact Fresh.reported fun _ => .inr (hupdated hc)
    · obtain ⟨hw, hh⟩ := not_or.mp hc
      have himage :
          Page.image { s.page with cursor := Function.update s.page.cursor c v } =
            s.page.image := by
        simp only [Page.image, Function.update_of_ne (Ne.symm hw),
          Function.update_of_ne (Ne.symm hh)]
      rw [FreshImage, himage]
      exact hfresh.mono (fun _ => by simp [htodo]) (fun _ => id)
  · exact hfresh.mono (fun _ => by simp [htodo]) (fun _ => id)

/-- What the renderer has does not change, and what is changed is reported. -/
theorem Inv.serverOp {s s' : State Pixels Bits} (h : Inv s) {op : ServerOp Pixels Bits}
    {rest : List (ServerOp Pixels Bits)}
    (htodo : s.server.todo = op :: rest) (hstep : serverOp s rest op = some s') : Inv s' := by
  obtain ⟨hfollowed, hrest⟩ :
      op.Followed s.server.damage rest ∧ Sound (op.damageAfter s.server.damage) rest := by
    have := h.sound
    rwa [htodo] at this
  cases op with
  | setField c v =>
    obtain rfl := Option.some.inj hstep
    exact h.setField htodo hfollowed.1 hfollowed.2 hrest
  | moved =>
    obtain rfl := Option.some.inj hstep
    exact h.of_reports
      ⟨rfl, rfl, rfl, rfl, rfl,
      fun _ => .inl (.inl rfl), by simp [htodo], by simp [Reported, htodo]⟩ hrest
  | lockCursor =>
    simp only [Redraw.serverOp] at hstep
    split_ifs at hstep
    obtain rfl := Option.some.inj hstep
    exact h.of_reports (.of_passed htodo (by simp [Silent]) ⟨_, _, _, _, rfl⟩ rfl ⟨_, _, rfl⟩) hrest
  | lorieConvertCursor bits =>
    obtain rfl := Option.some.inj hstep
    refine h.of_server rfl hrest (fun hfresh => ?_)
      (fun _ => Fresh.reported fun _ => .inr hfollowed) (fun hfresh => ?_)
      (by simp [Reported, htodo]) (.inl rfl)
    · exact hfresh.mono (fun _ => by simp [htodo]) (fun _ => id)
    · exact hfresh.mono (fun _ => by simp [htodo]) (fun _ => id)
  | updated =>
    obtain rfl := Option.some.inj hstep
    exact h.of_reports
      ⟨rfl, rfl, rfl, rfl, rfl, by simp [htodo], fun _ => .inl rfl, by simp [Reported, htodo]⟩ hrest
  | unlockCursor =>
    obtain rfl := Option.some.inj hstep
    exact h.of_reports (.of_passed htodo (by simp [Silent]) ⟨_, _, _, _, rfl⟩ rfl ⟨_, _, rfl⟩) hrest
  | damage =>
    obtain rfl := Option.some.inj hstep
    exact h.of_reports
      ⟨rfl, rfl, rfl, rfl, rfl, by simp [htodo], by simp [htodo], fun _ => .inl rfl⟩ hrest
  | lock =>
    simp only [Redraw.serverOp] at hstep
    split_ifs at hstep
    obtain rfl := Option.some.inj hstep
    exact h.of_reports (.of_passed htodo (by simp [Silent]) ⟨_, _, _, _, rfl⟩ rfl ⟨_, _, rfl⟩) hrest
  | paint index pixels =>
    obtain rfl := Option.some.inj hstep
    exact h.of_repainted rfl hrest rfl (by simp [htodo]) (by simp [htodo]) hfollowed
  | unlock =>
    obtain rfl := Option.some.inj hstep
    exact h.of_reports (.of_passed htodo (by simp [Silent]) ⟨_, _, _, _, rfl⟩ rfl ⟨_, _, rfl⟩) hrest
  | rootPixmap buffer =>
    obtain rfl := Option.some.inj hstep
    exact h.of_repainted rfl hrest rfl (by simp [htodo]) (by simp [htodo]) hfollowed
  | rootScreenPixmap =>
    obtain rfl := Option.some.inj hstep
    exact h.of_repainted rfl hrest rfl (by simp [htodo]) (by simp [htodo]) hfollowed
  | setScreenPixmap buffer pixels =>
    obtain rfl := Option.some.inj hstep
    exact h.of_repainted rfl hrest rfl (by simp [htodo]) (by simp [htodo]) (.inr hfollowed)
  | drawing d =>
    obtain rfl := Option.some.inj hstep
    have hmem : ∀ op', op' ≠ .drawing d → op' ∈ s.server.todo →
        op' ∈ d.program s.server ++ rest := fun op' hne hop => by
      rw [htodo] at hop
      exact List.mem_append_right _ ((List.mem_cons.mp hop).resolve_left hne)
    refine h.of_reports ⟨rfl, rfl, rfl, rfl, rfl, ?_, ?_, ?_⟩ (sound_drawing s.server d hrest)
    · exact Or.imp_right (hmem _ nofun)
    · exact Or.imp_right (hmem _ nofun)
    · exact Or.imp_right (Or.imp_right (Or.imp (hmem _ nofun) (hmem _ nofun)))
  | getWindowPixmap =>
    obtain rfl := Option.some.inj hstep
    exact h.of_reports (.of_passed htodo (by simp [Silent]) ⟨_, _, _, _, rfl⟩ rfl ⟨_, _, rfl⟩) hrest
  | nextFrame =>
    obtain rfl := Option.some.inj hstep
    exact h.of_reports (.of_passed htodo (by simp [Silent]) ⟨_, _, _, _, rfl⟩ rfl ⟨_, _, rfl⟩) hrest
  | returnUnlessShown connectionAlive =>
    obtain rfl := Option.some.inj hstep
    refine h.of_reports (.of_silent htodo (by simp [Silent]) hfollowed rfl rfl ⟨_, rfl⟩) ?_
    simp only
    split_ifs
    · trivial
    · exact hrest
  | ifDamaged =>
    simp only [Redraw.serverOp] at hstep
    split_ifs at hstep
    · obtain rfl := Option.some.inj hstep
      exact h.of_reports
        ⟨rfl, rfl, rfl, rfl, rfl, by simp [htodo], by simp [htodo], fun _ => by simp [Reported]⟩
        ⟨trivial, hrest⟩
    · next hdamage =>
      obtain rfl := Option.some.inj hstep
      refine h.of_reports
        (.of_passed htodo (by simp [Silent]) ⟨_, _, _, _, rfl⟩ rfl ⟨_, _, rfl⟩) ?_
      rw [Bool.not_eq_true] at hdamage
      exact hdamage ▸ hrest
  | drawRequested =>
    obtain rfl := Option.some.inj hstep
    exact h.of_reports
      ⟨rfl, rfl, rfl, rfl, rfl, fun _ => .inl (.inr rfl), by simp [htodo], fun _ => .inr (.inl rfl)⟩
      hrest
  | ifDrawRequested =>
    obtain rfl := Option.some.inj hstep
    refine h.of_reports (.of_silent htodo (by simp [Silent]) hfollowed rfl rfl ⟨_, rfl⟩) ?_
    simp only
    split_ifs
    · exact ⟨trivial, trivial⟩
    · exact hrest
  | ifMoved =>
    obtain rfl := Option.some.inj hstep
    refine h.of_reports (.of_silent htodo (by simp [Silent]) hfollowed rfl rfl ⟨_, rfl⟩) ?_
    simp only
    split_ifs
    · exact ⟨trivial, trivial⟩
    · exact hrest
  | ifUpdated =>
    obtain rfl := Option.some.inj hstep
    refine h.of_reports (.of_silent htodo (by simp [Silent]) hfollowed rfl rfl ⟨_, rfl⟩) ?_
    simp only
    split_ifs
    · exact ⟨trivial, trivial⟩
    · exact hrest
  | rootWindowTextureID =>
    obtain rfl := Option.some.inj hstep
    exact h.of_reports (.of_passed htodo (by simp [Silent]) ⟨_, _, _, _, rfl⟩ rfl ⟨_, _, rfl⟩) hrest

/-! ## A step of the renderer -/

/-- What becomes of the readings in a step that takes no flag down and reads nothing. -/
structure Readings (s s' : State Pixels Bits) : Prop where
  server : s'.server = s.server
  cursor : s'.page.cursor = s.page.cursor
  bits : s'.page.bits = s.page.bits
  moved : s'.page.moved = s.page.moved
  updated : s'.page.updated = s.page.updated
  drawRequested : s'.page.drawRequested = s.page.drawRequested
  renderer : ∃ todo buffers frames, s'.renderer = { s.renderer with todo, buffers, frames }
  fields : ∀ c, .readField c ∈ s'.renderer.todo ↔ .readField c ∈ s.renderer.todo
  unread : .lowerMoved ∈ s.renderer.todo → .lowerMoved ∈ s'.renderer.todo
  visible : .ifVisible ∈ s.renderer.todo → .ifVisible ∈ s'.renderer.todo
  texture : .glTexImage2D ∈ s.renderer.todo → .glTexImage2D ∈ s'.renderer.todo
  root : ∀ b, .drawRoot b ∈ s'.renderer.todo ↔ .drawRoot b ∈ s.renderer.todo
  requested : ∀ b, .lowerDrawRequested b ∈ s.renderer.todo →
    .lowerDrawRequested b ∈ s'.renderer.todo
  swapped : .eglSwapBuffers ∈ s.renderer.todo → .eglSwapBuffers ∈ s'.renderer.todo

/-- A step of the renderer that only reads keeps the invariant. -/
theorem Inv.of_readings {s s' : State Pixels Bits} (h : Inv s) (hread : Readings s s')
    (hshape : Shape s'.renderer.todo) :
    Inv s' := by
  obtain ⟨hserver, hcursor, hbits, hmoved, hupdated, hdraw, ⟨todo, buffers, frames, hrenderer⟩,
    hfields, hunread,
    hvisible, htexture, hroot, hrequested, hswapped⟩ := hread
  have hreported : Reported s' ↔ Reported s := by simp only [Reported, hserver, hdraw]
  have hsurface : s'.renderer.surface = s.renderer.surface := by rw [hrenderer]
  refine ⟨hserver ▸ h.sound, hshape, fun hs => ?_, fun hv => ?_, fun hs => ?_, fun hs => ?_,
    fun b hb => ?_, ?_⟩
  · have hcopy : s'.renderer.cursor = s.renderer.cursor := by rw [hrenderer]
    have hsame : s'.renderer.visible = s.renderer.visible := by rw [hrenderer]
    rw [FreshPlace, hcursor, hmoved, hdraw, hserver, hcopy]
    refine (h.place (hsurface ▸ hs)).mono (fun _ => id) fun c hc => ?_
    rw [Unread, hsame]
    exact Or.imp (hfields c).mpr
      (Or.imp hunread (And.imp_right (And.imp_right (Or.imp_left hvisible)))) hc
  · rw [hrenderer] at hv
    refine (h.hidden hv).imp hvisible fun hnone => ⟨fun c hc => hnone.1 c ((hfields c).mp hc), ?_⟩
    rw [hrenderer]
    exact hnone.2
  · have himage : s'.page.image = s.page.image := by simp only [Page.image, hcursor, hbits]
    have hcopy : s'.renderer.texture = s.renderer.texture := by rw [hrenderer]
    rw [FreshImage, himage, hcopy, hupdated, hserver]
    exact (h.image (hsurface ▸ hs)).mono (fun _ => id) (fun _ => htexture)
  · have hcopy : s'.renderer.drawn = s.renderer.drawn := by rw [hrenderer]
    rw [FreshRoot, hserver, hdraw, hcopy]
    exact (h.root (hsurface ▸ hs)).mono (fun _ => id) (fun _ => (hroot _).mpr)
  · rw [hserver, hreported]
    exact (h.found b ((hroot b).mp hb)).imp_left (hrequested b)
  · refine h.frame.imp hswapped fun hframe => ?_
    rw [hrenderer]
    exact hframe

/-- The search for the buffer keeps the invariant. -/
theorem Inv.findById {s : State Pixels Bits} (h : Inv s) (htodo : s.renderer.todo = [.findById])
    {todo : List RendererOp}
    (hnew : todo = [] ∨ ∃ buffer, todo = rendererRedrawLocked buffer) :
    Inv { s with renderer := { s.renderer with todo } } := by
  have hshape : Shape todo := by
    rcases hnew with rfl | ⟨buffer, rfl⟩
    · trivial
    · exact shape_rendererRedrawLocked buffer
  refine ⟨h.sound, hshape, fun hs => ?_, fun hv => ?_, fun hs => ?_, fun hs => ?_,
    fun b hb => ?_, ?_⟩
  · refine (h.place hs).mono (fun _ => id) fun c hc => ?_
    simp only [Unread, htodo, List.mem_singleton, reduceCtorEq, false_or] at hc
    exact .inr (.inr ⟨hc.1, hc.2.1, .inr hc.2.2⟩)
  · rcases hnew with rfl | ⟨buffer, rfl⟩
    · refine .inr ⟨fun c => List.not_mem_nil, ?_⟩
      have hhidden := h.hidden hv
      simp only [htodo, List.mem_singleton, reduceCtorEq, false_or] at hhidden
      exact hhidden.2
    · exact .inl (by simp [rendererRedrawLocked])
  · exact (h.image hs).mono (fun _ => id) (fun _ hc => by simp [htodo] at hc)
  · exact (h.root hs).mono (fun _ => id) (fun _ hc => by simp [htodo] at hc)
  · rcases hnew with rfl | ⟨buffer, rfl⟩
    · simp at hb
    · simp only [rendererRedrawLocked, List.mem_cons, reduceCtorEq, RendererOp.drawRoot.injEq,
        List.not_mem_nil, or_false,
        false_or] at hb
      exact .inl (by simp [rendererRedrawLocked, hb])
  · rcases hnew with rfl | ⟨buffer, rfl⟩
    · exact .inr (h.frame.resolve_left (by simp [htodo]))
    · exact .inl (by simp [rendererRedrawLocked])

/-- The request is taken down, for a frame that shows the root window as it is or that another will
follow. -/
theorem Inv.lowerDrawRequested {s : State Pixels Bits} (h : Inv s) {buffer : Renderer.BufferId}
    {rest : List RendererOp}
    (htodo : s.renderer.todo = .lowerDrawRequested buffer :: rest) (hmoved : .lowerMoved ∈ rest)
    (hdraw : .drawRoot buffer ∈ rest) (honly : ∀ b, .drawRoot b ∈ rest → b = buffer)
    (hrest : Shape rest)
    (hok : buffer = s.server.root ∨ s.server.damage = true ∨ .damage ∈ s.server.todo ∨
      .drawRequested ∈ s.server.todo) :
    Inv { s with
      page := { s.page with drawRequested := false },
      renderer := { s.renderer with todo := rest } } := by
  refine ⟨h.sound, hrest, fun hs => ?_, fun hv => ?_, fun hs => ?_, fun hs => ?_,
    fun b hb => ?_, ?_⟩
  · exact Fresh.lower fun c => .inr (.inl hmoved)
  · simpa [htodo] using h.hidden hv
  · exact (h.image hs).mono (fun _ => id) (fun _ => by simp [htodo])
  · rcases hok with rfl | hreported
    · exact Fresh.lower fun _ => hdraw
    · exact Fresh.reported fun _ => hreported.imp_left .inl
  · obtain rfl := honly b hb
    refine .inr (hok.imp_right fun hreported => ?_)
    exact hreported.imp_right .inr
  · simpa [htodo] using h.frame

/-- Drawing the root window keeps the invariant. -/
theorem Inv.drawRoot {s : State Pixels Bits} (h : Inv s) {buffer : Renderer.BufferId}
    {rest : List RendererOp}
    (htodo : s.renderer.todo = .drawRoot buffer :: rest) (hswap : .eglSwapBuffers ∈ rest)
    (hlowered : ∀ b, .lowerDrawRequested b ∉ rest) (hrest : Shape rest) :
    Inv { s with
      renderer := { s.renderer with drawn := some (s.server.picture buffer), todo := rest } } := by
  refine ⟨h.sound, hrest, fun hs => ?_, fun hv => ?_, fun hs => ?_, fun hs => ?_, fun b hb => ?_,
    .inl hswap⟩
  · exact (h.place hs).mono (fun _ => id) (fun c => by simp [Unread, htodo])
  · simpa [htodo] using h.hidden hv
  · exact (h.image hs).mono (fun _ => id) (fun _ => by simp [htodo])
  · have hfound :=
      (h.found buffer (htodo ▸ List.mem_cons_self)).resolve_left (by simp [htodo, hlowered])
    rcases hfound with rfl | hreported
    · exact fun _ => .inl rfl
    · exact Fresh.reported fun _ => or_assoc.mpr hreported
  · simpa [htodo, Reported] using h.found b (htodo ▸ List.mem_cons_of_mem _ hb)

/-- A number is read. -/
theorem Inv.readField {s : State Pixels Bits} (h : Inv s) {c : Field} {rest : List RendererOp}
    (htodo : s.renderer.todo = .readField c :: rest) (hswap : .eglSwapBuffers ∈ rest)
    (hrest : Shape rest) :
    Inv { s with renderer := { s.renderer with
      cursor := Function.update s.renderer.cursor c (s.page.cursor c), todo := rest } } := by
  refine ⟨h.sound, hrest, fun hs => ?_, fun hv => .inl ?_, fun hs => ?_, fun hs => ?_,
    fun b hb => ?_, .inl hswap⟩
  · refine ((h.place hs).read c).mono (fun _ => id) fun d hd => ?_
    simpa [Unread, htodo, hd.1] using hd.2
  · have hhidden := h.hidden hv
    simp only [htodo, List.mem_cons, reduceCtorEq, false_or] at hhidden
    exact hhidden.resolve_right fun hnone => hnone.1 c (.inl rfl)
  · exact (h.image hs).mono (fun _ => id) (fun _ => by simp [htodo])
  · exact (h.root hs).mono (fun _ => id) (fun _ => by simp [htodo])
  · simpa [htodo, Reported] using h.found b (htodo ▸ List.mem_cons_of_mem _ hb)

/-- The frame goes on to the numbers of the place, or the cursor has no area. -/
theorem Inv.ifVisible {s : State Pixels Bits} (h : Inv s) {rest : List RendererOp}
    (htodo : s.renderer.todo = .ifVisible :: rest)
    (hswap : .eglSwapBuffers ∈ rest) (hnone : ∀ c, .readField c ∉ rest) (hrest : Shape rest)
    {visible : Bool}
    (hvisible : visible = decide (s.renderer.cursor .width ≠ 0 ∧ s.renderer.cursor .height ≠ 0)) :
    Inv { s with renderer := { s.renderer with
      visible
      todo := if visible = true then drawCursorReads ++ rest else rest } } := by
  cases visible with
  | true =>
    refine ⟨h.sound, shape_drawCursorReads hswap hrest, fun hs => ?_, (fun hv => by cases hv),
      fun hs => ?_, fun hs => ?_, fun b hb => ?_,
      .inl (List.mem_append_right _ hswap)⟩
    · refine (h.place hs).mono (fun _ => id) fun c _ => .inl (List.mem_append_left _ ?_)
      cases c
      all_goals decide
    · exact (h.image hs).mono (fun _ => id) (fun _ => by simp [htodo, drawCursorReads])
    · exact (h.root hs).mono (fun _ => id) (fun _ => by simp [htodo, drawCursorReads])
    · simp only [if_true, drawCursorReads, List.cons_append, List.nil_append, List.mem_cons,
        reduceCtorEq, false_or] at hb ⊢
      simpa [htodo, Reported] using h.found b (htodo ▸ List.mem_cons_of_mem _ hb)
  | false =>
    have harea : s.renderer.cursor .width = 0 ∨ s.renderer.cursor .height = 0 := by
      have hnot := of_decide_eq_false hvisible.symm
      by_cases hw : s.renderer.cursor .width = 0
      · exact .inl hw
      · exact .inr (by_contra fun hh => hnot ⟨hw, hh⟩)
    refine ⟨h.sound, hrest, fun hs => ?_, fun _ => .inr ⟨hnone, harea⟩, fun hs => ?_, fun hs => ?_,
      fun b hb => ?_, .inl hswap⟩
    · refine (h.place hs).mono (fun _ => id) fun c hc => ?_
      simp only [Unread, htodo, List.mem_cons, reduceCtorEq, false_or, hnone] at hc
      rcases hc with hc | hc
      · exact .inr (.inl hc)
      · exact .inr (.inr ⟨hc.1, hc.2.1, .inr rfl⟩)
    · exact (h.image hs).mono (fun _ => id) (fun _ => by simp [htodo])
    · exact (h.root hs).mono (fun _ => id) (fun _ => by simp [htodo])
    · simpa [htodo, Reported] using h.found b (htodo ▸ List.mem_cons_of_mem _ hb)

/-- An operation that neither takes a flag down nor reads is done. -/
theorem Readings.of_done {s s' : State Pixels Bits} {op : RendererOp} {rest : List RendererOp}
    (htodo : s.renderer.todo = op :: rest)
    (hop : op ∈ [.lock, .lockCursor, .unlockCursor, .waitForNextFrame, .unlock, .ifUpdated,
      .renderedFrames])
    (hserver : s'.server = s.server)
    (hrenderer : ∃ frames, s'.renderer = { s.renderer with todo := rest, frames })
    (hpage : ∃ lock cursorLock waitForNextFrame renderedFrames,
      s'.page = { s.page with lock, cursorLock, waitForNextFrame, renderedFrames }) :
        Readings s s' := by
  obtain ⟨frames, hrenderer⟩ := hrenderer
  obtain ⟨lock, cursorLock, waitForNextFrame, renderedFrames, hpage⟩ := hpage
  refine ⟨hserver, hpage ▸ rfl, hpage ▸ rfl, hpage ▸ rfl, hpage ▸ rfl, hpage ▸ rfl,
    ⟨rest, s.renderer.buffers, frames, hrenderer⟩,
    ?_, ?_, ?_, ?_, ?_, ?_, ?_⟩
  all_goals
    rw [hrenderer, htodo]
    simp only [List.mem_cons, List.not_mem_nil, or_false] at hop
    rcases hop with rfl | rfl | rfl | rfl | rfl | rfl | rfl
    all_goals simp

/-- The test of the cursor's image keeps the invariant. -/
theorem Inv.ifUpdated {s : State Pixels Bits} (h : Inv s) {rest : List RendererOp}
    (htodo : s.renderer.todo = .ifUpdated :: rest)
    (hswap : .eglSwapBuffers ∈ rest) (hrest : Shape rest) :
    Inv { s with renderer := { s.renderer with
      todo := if s.page.updated =
        true then [.lockCursor, .lowerUpdated, .glTexImage2D, .unlockCursor] ++ rest
        else rest } } := by
  split_ifs
  · refine h.of_readings
      ⟨rfl, rfl, rfl, rfl, rfl, rfl, ⟨_, s.renderer.buffers, s.renderer.frames, rfl⟩, ?_, ?_, ?_,
      ?_, ?_, ?_, ?_⟩
      (shape_ifUpdated hswap hrest)
    all_goals simp [htodo]
  · exact h.of_readings (.of_done htodo (by simp) rfl ⟨_, rfl⟩ ⟨_, _, _, _, rfl⟩) hrest

/-- Every operation of the renderer keeps the invariant. -/
theorem Inv.rendererOp {s s' : State Pixels Bits} (h : Inv s) {op : RendererOp}
    {rest : List RendererOp}
    (htodo : s.renderer.todo = op :: rest) (hok : NotOvertaken s .renderer)
    (hstep : rendererOp s rest op = some s') :
    Inv s' := by
  obtain ⟨hfollowed, hrest⟩ : op.Followed rest ∧ Shape rest := by
    have := h.shape
    rwa [htodo] at this
  cases op with
  | findById =>
    obtain rfl := Option.some.inj hstep
    obtain rfl : rest = [] := hfollowed
    refine h.findById htodo ?_
    split_ifs
    · exact .inr ⟨_, rfl⟩
    · exact .inl rfl
  | lock =>
    simp only [Redraw.rendererOp] at hstep
    split_ifs at hstep
    obtain rfl := Option.some.inj hstep
    exact h.of_readings (.of_done htodo (by simp) rfl ⟨_, rfl⟩ ⟨_, _, _, _, rfl⟩) hrest
  | lowerDrawRequested buffer =>
    obtain rfl := Option.some.inj hstep
    exact h.lowerDrawRequested htodo hfollowed.1 hfollowed.2.1 hfollowed.2.2 hrest
      (hok buffer (by simp [htodo, lowered]))
  | drawRoot buffer =>
    obtain rfl := Option.some.inj hstep
    exact h.drawRoot htodo hfollowed.1 hfollowed.2 hrest
  | ifUpdated =>
    obtain rfl := Option.some.inj hstep
    exact h.ifUpdated htodo hfollowed hrest
  | lockCursor =>
    simp only [Redraw.rendererOp] at hstep
    split_ifs at hstep
    obtain rfl := Option.some.inj hstep
    exact h.of_readings (.of_done htodo (by simp) rfl ⟨_, rfl⟩ ⟨_, _, _, _, rfl⟩) hrest
  | lowerUpdated =>
    obtain rfl := Option.some.inj hstep
    refine ⟨h.sound, hrest, fun hs => ?_, fun hv => ?_, fun _ => Fresh.lower fun _ => hfollowed,
      fun hs => ?_, fun b hb => ?_, ?_⟩
    · exact (h.place hs).mono (fun _ => id) (fun c => by simp [Unread, htodo])
    · simpa [htodo] using h.hidden hv
    · exact (h.root hs).mono (fun _ => id) (fun _ => by simp [htodo])
    · simpa [htodo, Reported] using h.found b (htodo ▸ List.mem_cons_of_mem _ hb)
    · simpa [htodo] using h.frame
  | glTexImage2D =>
    obtain rfl := Option.some.inj hstep
    refine ⟨h.sound, hrest, fun hs => ?_, fun hv => ?_, fun _ _ => .inl rfl, fun hs => ?_,
      fun b hb => ?_, .inl hfollowed⟩
    · exact (h.place hs).mono (fun _ => id) (fun c => by simp [Unread, htodo])
    · simpa [htodo] using h.hidden hv
    · exact (h.root hs).mono (fun _ => id) (fun _ => by simp [htodo])
    · simpa [htodo, Reported] using h.found b (htodo ▸ List.mem_cons_of_mem _ hb)
  | unlockCursor =>
    obtain rfl := Option.some.inj hstep
    exact h.of_readings (.of_done htodo (by simp) rfl ⟨_, rfl⟩ ⟨_, _, _, _, rfl⟩) hrest
  | lowerMoved =>
    obtain rfl := Option.some.inj hstep
    refine ⟨h.sound, hrest, fun _ => Fresh.lower fun c => ?_, fun hv => .inl hfollowed.2.2,
      fun hs => ?_, fun hs => ?_, fun b hb => ?_, ?_⟩
    · cases c with
      | width => exact .inl hfollowed.1
      | height => exact .inl hfollowed.2.1
      | _ => exact .inr (.inr ⟨by decide, by decide, .inl hfollowed.2.2⟩)
    · exact (h.image hs).mono (fun _ => id) (fun _ => by simp [htodo])
    · exact (h.root hs).mono (fun _ => id) (fun _ => by simp [htodo])
    · simpa [htodo, Reported] using h.found b (htodo ▸ List.mem_cons_of_mem _ hb)
    · simpa [htodo] using h.frame
  | readField c =>
    obtain rfl := Option.some.inj hstep
    exact h.readField htodo hfollowed hrest
  | ifVisible =>
    obtain rfl := Option.some.inj hstep
    exact h.ifVisible htodo hfollowed.1 hfollowed.2 hrest rfl
  | waitForNextFrame =>
    obtain rfl := Option.some.inj hstep
    exact h.of_readings (.of_done htodo (by simp) rfl ⟨_, rfl⟩ ⟨_, _, _, _, rfl⟩) hrest
  | unlock =>
    obtain rfl := Option.some.inj hstep
    exact h.of_readings (.of_done htodo (by simp) rfl ⟨_, rfl⟩ ⟨_, _, _, _, rfl⟩) hrest
  | eglSwapBuffers =>
    obtain rfl := Option.some.inj hstep
    refine ⟨h.sound, hrest, fun hs => ?_, fun hv => ?_, fun hs => ?_, fun hs => ?_, fun b hb => ?_,
      .inr rfl⟩
    · exact (h.place hs).mono (fun _ => id) (fun c => by simp [Unread, htodo])
    · simpa [htodo] using h.hidden hv
    · exact (h.image hs).mono (fun _ => id) (fun _ => by simp [htodo])
    · exact (h.root hs).mono (fun _ => id) (fun _ => by simp [htodo])
    · simpa [htodo, Reported] using h.found b (htodo ▸ List.mem_cons_of_mem _ hb)
  | renderedFrames =>
    obtain rfl := Option.some.inj hstep
    exact h.of_readings (.of_done htodo (by simp) rfl ⟨_, rfl⟩ ⟨_, _, _, _, rfl⟩) hrest

/-! ## Runs -/

/-- The invariant holds at the start. -/
theorem Start.inv {s : State Pixels Bits} (h : Start s) : Inv s where
  sound := h.server ▸ trivial
  shape := h.renderer ▸ trivial
  place := fun _ => Fresh.reported fun _ => .inl (.inr h.drawRequested)
  hidden := fun hv => absurd (h.visible.symm.trans hv) Bool.true_eq_false.mp
  image := fun _ => Fresh.reported fun _ => .inl h.updated
  root := fun _ => Fresh.reported fun _ => .inl (.inr h.drawRequested)
  found := fun b hb => absurd (h.renderer ▸ hb) List.not_mem_nil
  frame := .inr (by rw [h.frame, h.drawn]; rfl)

/-- A refresh between two frames keeps the invariant. -/
theorem Inv.rendererRefreshContext {s : State Pixels Bits} (h : Inv s)
    (htodo : s.renderer.todo = []) (outcome : Outcome) :
    Inv (Redraw.rendererRefreshContext outcome s) := by
  have happlied :
      (Redraw.rendererRefreshContext outcome s).renderer.surface = true → outcome = .applied true :=
        of_decide_eq_true
  refine ⟨h.sound, h.shape, fun hs => ?_, h.hidden, fun hs => ?_, fun hs => ?_, fun b hb => ?_,
    .inr rfl⟩
  · obtain rfl := happlied hs
    exact Fresh.reported fun _ => .inl (.inr rfl)
  · obtain rfl := happlied hs
    exact Fresh.reported fun _ => .inl rfl
  · obtain rfl := happlied hs
    exact Fresh.reported fun _ => .inl (.inr rfl)
  · exact absurd (htodo ▸ hb : RendererOp.drawRoot b ∈ []) List.not_mem_nil

/-- **Step lemma.** Every step that is not overtaken keeps the invariant. -/
theorem Inv.step {s s' : State Pixels Bits} {a : Action Pixels Bits} (h : Inv s)
    (hok : NotOvertaken s a)
    (hstep : step s a = some s') : Inv s' := by
  cases a with
  | call c =>
    simp only [Redraw.step] at hstep
    split_ifs at hstep with hidle
    obtain rfl := Option.some.inj hstep
    have htodo : s.server.todo = [] := List.isEmpty_iff.mp hidle
    refine h.of_reports ⟨rfl, rfl, rfl, rfl, rfl, ?_, ?_, ?_⟩ (sound_program s.server c)
    · simpa only [htodo, List.not_mem_nil, or_false] using .inl
    · simpa only [htodo, List.not_mem_nil, or_false] using .inl
    · simpa only [Reported, htodo, List.not_mem_nil, or_false] using fun hr => hr.imp_right .inl
  | server =>
    simp only [Redraw.step] at hstep
    split at hstep
    · cases hstep
    · next op rest htodo => exact h.serverOp htodo hstep
  | redraw =>
    simp only [Redraw.step] at hstep
    split_ifs at hstep with hdraw
    obtain rfl := Option.some.inj hstep
    refine h.of_readings
      ⟨rfl, rfl, rfl, rfl, rfl, rfl, ⟨_, s.renderer.buffers, s.renderer.frames, rfl⟩, ?_, ?_, ?_,
      ?_, ?_, ?_,
      ?_⟩ ⟨rfl, trivial⟩
    all_goals simp [hdraw.1]
  | renderer =>
    simp only [Redraw.step] at hstep
    split at hstep
    · cases hstep
    · next op rest htodo => exact h.rendererOp htodo hok hstep
  | rendererRefreshContext outcome =>
    simp only [Redraw.step] at hstep
    split_ifs at hstep with htodo
    exact Option.some.inj hstep ▸ h.rendererRefreshContext htodo outcome
  | buffers buffers =>
    obtain rfl := Option.some.inj hstep
    exact h.of_readings ⟨rfl, rfl, rfl, rfl, rfl, rfl, ⟨s.renderer.todo, _, s.renderer.frames, rfl⟩,
      fun _ => Iff.rfl, id, id, id,
      fun _ => Iff.rfl, fun _ => id, id⟩ h.shape

/-- When nothing is under way, every copy is current. -/
theorem Inv.frame_eq {s : State Pixels Bits} (h : Inv s) (hquiet : Quiet s) :
    s.renderer.frame = some s.current := by
  have hroot : s.renderer.drawn = some (s.server.picture s.server.root) :=
    (h.root hquiet.surface).current (c := ()) (by simp [hquiet.damage, hquiet.drawRequested])
      (by simp [hquiet.server])
      (by simp [hquiet.renderer])
  have himage : s.renderer.texture = s.page.image :=
    (h.image hquiet.surface).current (c := ()) (by simp [hquiet.updated]) (by simp [hquiet.server])
      (by simp [hquiet.renderer])
  have hplace : ∀ c, ¬Unread s.renderer c → s.renderer.cursor c = s.page.cursor c := fun c hc =>
    (h.place hquiet.surface).current (by simp [hquiet.moved, hquiet.drawRequested])
      (by simp [hquiet.server]) hc
  have hwidth : s.renderer.cursor .width = s.page.cursor .width :=
    hplace _ (by simp [Unread, hquiet.renderer])
  have hheight : s.renderer.cursor .height = s.page.cursor .height :=
    hplace _ (by simp [Unread, hquiet.renderer])
  have hsprite :
      drawCursor s.renderer.texture s.renderer.cursor = drawCursor s.page.image s.page.cursor := by
    cases hvisible : s.renderer.visible with
    | true =>
      have hall : s.renderer.cursor = s.page.cursor :=
        funext fun c => hplace c (by simp [Unread, hquiet.renderer, hvisible])
      rw [himage, hall]
    | false =>
      -- The last frame did not read where a cursor without an area is.
      have hzero : s.renderer.cursor .width = 0 ∨ s.renderer.cursor .height = 0 :=
        ((h.hidden hvisible).resolve_left (by simp [hquiet.renderer])).2
      rw [drawCursor, if_pos hzero, drawCursor, if_pos (hwidth ▸ hheight ▸ hzero)]
  have hframe := h.frame.resolve_left (by simp [hquiet.renderer])
  rw [hframe, hroot, hsprite]
  rfl

/-- **Nothing that the X server shows is lost.** However the steps of the two threads fall, when
nothing is under way and no flag is up, the last frame is the root window and the cursor as they
are; provided that no frame takes down a request for a root window whose buffer it has not found. -/
theorem nothing_lost {s₀ s : State Pixels Bits} (hstart : Start s₀) {as : List (Action Pixels Bits)}
    (hrun : run step s₀ as = some s) (hok : Meets step NotOvertaken s₀ as) (hquiet : Quiet s) :
    s.renderer.frame = some s.current :=
  (run_induction Inv.step hstart.inv hok hrun).frame_eq hquiet

/-- A page that has just been offered, with the screen's buffer 1 and a cursor. -/
def offered : State Nat Nat where
  page := ⟨none, 0, true, true, false, 0, none, fun _ => 4, 7, true, false⟩
  server := ⟨[], false, 1, 100, 1, 1, 0⟩
  renderer := ⟨[], [1, 2], true, none, (0, 0, 0), fun _ => 0, true, none, 0⟩

theorem start_offered : Start offered := ⟨rfl, rfl, rfl, rfl, rfl, rfl, rfl, rfl, rfl, rfl, rfl⟩

/-- So many steps of the one thread or of the other. -/
def server (n : Nat) : List (Action Nat Nat) := List.replicate n .server

def renderer (n : Nat) : List (Action Nat Nat) := List.replicate n .renderer

/-- The first frame. -/
def firstFrame : List (Action Nat Nat) :=
  [.call (.lorieRedraw [] true)] ++ server 6 ++ [.redraw] ++ renderer 23

/-- A frame; then the cursor moves, a vblank comes with something to copy, and a flip comes while
the frame for both is under way; another frame, and the cursor is hidden. -/
def flipWhileMoving : List (Action Nat Nat) :=
  firstFrame ++ [.call (.lorieMoveCursor 8 9)] ++ server 3 ++
    [.call (.lorieRedraw [.draw .src [101]] true)] ++ server 10 ++
    [.redraw] ++ renderer 2 ++ [.call (.drawing (.flip 2))] ++ server 2 ++ renderer 17 ++
      [.call (.lorieRedraw [] true)] ++
    server 7 ++ [.redraw] ++ renderer 19 ++ [.call (.lorieSetCursor none 8 9)] ++ server 10 ++
    [.call (.lorieRedraw [] true)] ++ server 7 ++ [.redraw] ++ renderer 17

theorem nothing_lost_flipWhileMoving :
    ∃ s, run step offered flipWhileMoving = some s ∧ s.renderer.frames = 4 ∧
    s.renderer.frame = some s.current ∧ s.current = ⟨⟨2, none⟩, none⟩ := by
  have hruns : (run step offered flipWhileMoving).isSome = true := by decide +kernel
  obtain ⟨s, hs⟩ := Option.isSome_iff_exists.mp hruns
  have hquiet :
      (run step offered flipWhileMoving).map
        (fun s => ((s.server.todo.isEmpty, s.renderer.todo.isEmpty, s.server.damage),
      (s.page.drawRequested, s.page.updated, s.page.moved), s.renderer.surface)) =
      some ((true, true, false), (false, false, false), true) := by decide +kernel
  have hends :
      (run step offered flipWhileMoving).map
        (fun s => (s.renderer.frames, s.server.root, s.server.screen,
      s.page.cursor .width)) = some (4, 2, 1, 0) := by decide +kernel
  rw [hs] at hquiet hends
  simp only [Option.map_some, Option.some_inj, Prod.mk.injEq, List.isEmpty_iff] at hquiet hends
  obtain ⟨⟨hserver, hrenderer, hdamage⟩, ⟨hdraw, hupdated, hmoved⟩, hsurface⟩ := hquiet
  obtain ⟨hframes, hroot, hscreen, hwidth⟩ := hends
  have hframe :=
    nothing_lost start_offered hs (by decide +kernel)
    ⟨hserver, hrenderer, hdamage, hdraw, hupdated, hmoved, hsurface⟩
  refine ⟨s, hs, hframes, hframe, ?_⟩
  simp only [State.current, Server.picture, hroot, hscreen, drawCursor, hwidth]
  rfl

/-- The condition is needed: here a flip, and a call of `lorieRedraw` for it, come between the
search for the buffer and the taking down of the request. Nothing is left to be done, and the frame
shows the buffer from before the flip. -/
def overtaken : List (Action Nat Nat) :=
  firstFrame ++ [.call (.lorieMoveCursor 8 9)] ++ server 3 ++ [.call (.lorieRedraw [] true)] ++
    server 7 ++ [.redraw] ++
    renderer 2 ++ [.call (.drawing (.flip 2))] ++ server 2 ++ [.call (.lorieRedraw [] true)] ++
      server 5 ++ renderer 1 ++
    server 3 ++ renderer 16

/-- And here a flip was due at a vblank: `lorieRedraw` takes its damage down and asks for the buffer
from before it. -/
def flippedAtVblank : List (Action Nat Nat) :=
  firstFrame ++ [.call (.lorieRedraw [.flip 2] true)] ++ server 10 ++ [.redraw] ++ renderer 19

/-- Whether something is left to be done, the buffer that is to be seen, and the one that should
be. -/
def outcome (as : List (Action Nat Nat)) :
    Option (Bool × Option Renderer.BufferId × Renderer.BufferId) :=
  (run step offered as).map fun s =>
    (!s.server.todo.isEmpty || !s.renderer.todo.isEmpty || s.server.damage ||
      s.page.drawRequested || s.page.updated || s.page.moved,
      s.renderer.frame.map (·.root.buffer), s.server.root)

example :
    outcome overtaken = some (false, some 1, 2) ∧
      outcome flippedAtVblank = some (false, some 1, 2) := by
  decide +kernel

end WinEmulator.Lorie.Redraw
