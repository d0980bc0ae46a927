import WinEmulator.Laws.Lorie.Redraw

/-!
# Laws of the frames: the locks, the pace and the next frame

What a thread is still to do tells which locks it holds (`Guarded`, `Held`), and a lock's owner is
the thread whose list says so (`Locked`). So drawing on either side of a lock excludes the other, no
deadlock is possible, and at rest the locks are free. A frame is begun only when `lorieRedraw` has
been called since the last one (`Paced`).

From any state at rest one call of `lorieRedraw` and one frame show everything.
-/

set_option autoImplicit false

namespace WinEmulator.Lorie.Redraw

open WinEmulator.Lib
open WinEmulator.Lorie.RendererWindow (Outcome)

variable {Pixels Bits : Type}

/-! ## Which locks a thread holds -/

/-- What follows is right for a server that holds these locks. -/
def Guarded (lock cursorLock : Bool) : List (ServerOp Pixels Bits) → Prop
  | [] => lock = false ∧ cursorLock = false
  | .lock :: rest => lock = false ∧ cursorLock = false ∧ Guarded true false rest
  | .unlock :: rest => lock = true ∧ Guarded false cursorLock rest
  | .paint index _ :: rest => (index = .dest → lock = true) ∧ Guarded lock cursorLock rest
  | .lockCursor :: rest => lock = false ∧ cursorLock = false ∧ Guarded false true rest
  | .unlockCursor :: rest => cursorLock = true ∧ Guarded lock false rest
  | .lorieConvertCursor _ :: rest | .updated :: rest =>
    cursorLock = true ∧ Guarded lock cursorLock rest
  | .drawing _ :: rest | .returnUnlessShown _ :: rest | .ifDrawRequested :: rest
  | .ifMoved :: rest | .ifUpdated :: rest =>
    lock = false ∧ cursorLock = false ∧ Guarded false false rest
  | _ :: rest => Guarded lock cursorLock rest

theorem guarded_paints (lock : Bool) {index : Index} (hlock : index = .dest → lock = true)
    (paints : List Pixels)
    {rest : List (ServerOp Pixels Bits)} (h : Guarded lock false rest) :
    Guarded lock false (paints.map (.paint index) ++ rest) := by
  induction paints with
  | nil => exact h
  | cons p ps ih => exact ⟨hlock, ih⟩

/-- A drawing holds the lock where it needs it and gives it back. -/
theorem guarded_draw (index : Index) (paints : List Pixels) {rest : List (ServerOp Pixels Bits)}
    (h : Guarded false false rest) :
    Guarded false false (draw index paints ++ rest) := by
  unfold draw
  split_ifs with hindex
  · have hpaints : Guarded true false (paints.map (.paint index) ++ .unlock :: rest) :=
      guarded_paints true (fun _ => rfl) paints ⟨rfl, h⟩
    simp only [List.cons_append, List.nil_append, List.append_assoc]
    exact ⟨rfl, rfl, hpaints⟩
  · exact guarded_paints false (fun heq => absurd heq hindex) paints h

theorem guarded_draws (painted : List (Index × List Pixels)) {rest : List (ServerOp Pixels Bits)}
    (h : Guarded false false rest) :
    Guarded false false (painted.flatMap (fun p => draw p.1 p.2) ++ rest) := by
  induction painted with
  | nil => exact h
  | cons p ps ih =>
    rw [List.flatMap_cons, List.append_assoc]
    exact guarded_draw p.1 p.2 ih

/-- So does a drawing of either kind. -/
theorem guarded_drawing (server : Server Pixels Bits) (d : Drawing Pixels)
    {rest : List (ServerOp Pixels Bits)}
    (h : Guarded false false rest) : Guarded false false (d.program server ++ rest) := by
  cases d with
  | draw index paints => exact guarded_draw index paints h
  | flip buffer => exact h
  | present_restore_screen_pixmap copied =>
    simp only [Drawing.program, present_restore_screen_pixmap]
    split_ifs
    · exact h
    · rw [List.append_assoc]
      exact guarded_draw .dest copied h

theorem guarded_loriePerformVblanks (vblanks : List (Drawing Pixels))
    {rest : List (ServerOp Pixels Bits)}
    (h : Guarded false false rest) : Guarded false false (loriePerformVblanks vblanks ++ rest) := by
  induction vblanks with
  | nil => exact h
  | cons d ds ih => exact ⟨rfl, rfl, ih⟩

/-- So does every call of the server. -/
theorem guarded_program (server : Server Pixels Bits) (c : Call Pixels Bits) :
    Guarded false false (c.program server) := by
  cases c with
  | lorieMoveCursor x y => simp [Call.program, lorieMoveCursor, Guarded]
  | lorieSetCursor cursor x0 y0 =>
    cases cursor
    all_goals simp [Call.program, lorieSetCursor, lorieMoveCursor, Guarded]
  | drawing d =>
    have h : Guarded false false (d.program server ++ ([] : List (ServerOp Pixels Bits))) :=
      guarded_drawing server d ⟨rfl, rfl⟩
    rwa [List.append_nil] at h
  | lorieRRScreenSetSize vblanks buffer pixels restored copied painted =>
    have hpainted :
        Guarded false false
          (painted.flatMap (fun p => draw p.1 p.2) ++ ([.moved] : List (ServerOp Pixels Bits))) :=
      guarded_draws painted ⟨rfl, rfl⟩
    simp only [Call.program, lorieRRScreenSetSize, List.append_assoc, List.cons_append,
      List.nil_append]
    exact guarded_loriePerformVblanks vblanks ⟨rfl, rfl, guarded_draw .dest copied hpainted⟩
  | lorieRedraw vblanks connectionAlive =>
    simp only [Call.program, lorieRedraw, List.cons_append, List.nil_append]
    refine guarded_loriePerformVblanks vblanks ?_
    simp [Guarded]

/-- What follows is right for a renderer that holds these locks. -/
def Held (lock cursorLock : Bool) : List RendererOp → Prop
  | [] => lock = false ∧ cursorLock = false
  | .findById :: rest => lock = false ∧ cursorLock = false ∧ rest = []
  | .lock :: rest => lock = false ∧ cursorLock = false ∧ Held true false rest
  | .unlock :: rest => lock = true ∧ Held false cursorLock rest
  | .lowerDrawRequested _ :: rest | .drawRoot _ :: rest => lock = true ∧ Held lock cursorLock rest
  | .waitForNextFrame :: rest =>
    (lock = true ∧ .findById ∉ rest ∧ .waitForNextFrame ∉ rest) ∧ Held lock cursorLock rest
  | .ifUpdated :: rest => cursorLock = false ∧ Held lock false rest
  | .lockCursor :: rest => cursorLock = false ∧ Held lock true rest
  | .unlockCursor :: rest => cursorLock = true ∧ Held lock false rest
  | .lowerUpdated :: rest | .glTexImage2D :: rest => cursorLock = true ∧ Held lock cursorLock rest
  | .lowerMoved :: rest | .readField _ :: rest | .ifVisible :: rest | .eglSwapBuffers :: rest
  | .renderedFrames :: rest =>
    Held lock cursorLock rest

/-- A lock is the thread's whose list says so. -/
structure Locked (s : State Pixels Bits) : Prop where
  server : Guarded (decide (s.page.lock = some .server)) (decide (s.page.cursorLock = some .server))
    s.server.todo
  renderer : Held (decide (s.page.lock = some .renderer))
    (decide (s.page.cursorLock = some .renderer)) s.renderer.todo

/-- A step of the server that has to do with no lock. -/
theorem Locked.of_server {s s' : State Pixels Bits} (h : Locked s)
    (hlock : s'.page.lock = s.page.lock)
    (hcursorLock : s'.page.cursorLock = s.page.cursorLock) (hrenderer : s'.renderer = s.renderer)
    (hserver : Guarded (decide (s.page.lock = some .server))
      (decide (s.page.cursorLock = some .server)) s'.server.todo) :
    Locked s' := by
  refine ⟨?_, ?_⟩
  · rw [hlock, hcursorLock]
    exact hserver
  · rw [hlock, hcursorLock, hrenderer]
    exact h.renderer

/-- Every operation of the server keeps the locks in order. -/
theorem Locked.serverOp {s s' : State Pixels Bits} (h : Locked s) {op : ServerOp Pixels Bits}
    {rest : List (ServerOp Pixels Bits)} (htodo : s.server.todo = op :: rest)
    (hstep : serverOp s rest op = some s') :
    Locked s' := by
  have hserver := h.server
  have hrenderer := h.renderer
  rw [htodo] at hserver
  cases op with
  | lock =>
    simp only [Redraw.serverOp] at hstep
    split_ifs at hstep with hfree
    obtain rfl := Option.some.inj hstep
    obtain ⟨-, hcursor, hrest⟩ := hserver
    rw [hfree] at hrenderer
    exact ⟨by simpa [hcursor] using hrest, by simpa using hrenderer⟩
  | lockCursor =>
    simp only [Redraw.serverOp] at hstep
    split_ifs at hstep with hfree
    obtain rfl := Option.some.inj hstep
    obtain ⟨hlock, -, hrest⟩ := hserver
    rw [hfree] at hrenderer
    exact ⟨by simpa [hlock] using hrest, by simpa using hrenderer⟩
  | unlock =>
    obtain rfl := Option.some.inj hstep
    have howner : s.page.lock = some .server := of_decide_eq_true hserver.1
    rw [howner] at hrenderer
    exact ⟨by simpa using hserver.2, by simpa using hrenderer⟩
  | unlockCursor =>
    obtain rfl := Option.some.inj hstep
    have howner : s.page.cursorLock = some .server := of_decide_eq_true hserver.1
    rw [howner] at hrenderer
    exact ⟨by simpa using hserver.2, by simpa using hrenderer⟩
  | paint index pixels =>
    obtain rfl := Option.some.inj hstep
    exact h.of_server rfl rfl rfl hserver.2
  | lorieConvertCursor bits =>
    obtain rfl := Option.some.inj hstep
    exact h.of_server rfl rfl rfl hserver.2
  | updated =>
    obtain rfl := Option.some.inj hstep
    exact h.of_server rfl rfl rfl hserver.2
  | drawing d =>
    obtain rfl := Option.some.inj hstep
    obtain ⟨hlock, hcursor, hrest⟩ := hserver
    refine h.of_server rfl rfl rfl ?_
    rw [hlock, hcursor]
    exact guarded_drawing s.server d hrest
  | ifDamaged =>
    simp only [Redraw.serverOp] at hstep
    split_ifs at hstep
    all_goals exact Option.some.inj hstep ▸ h.of_server rfl rfl rfl hserver
  | returnUnlessShown connectionAlive =>
    obtain rfl := Option.some.inj hstep
    obtain ⟨hlock, hcursor, hrest⟩ := hserver
    refine h.of_server rfl rfl rfl ?_
    rw [hlock, hcursor]
    dsimp only
    split_ifs
    · exact ⟨rfl, rfl⟩
    · exact hrest
  | ifDrawRequested =>
    obtain rfl := Option.some.inj hstep
    obtain ⟨hlock, hcursor, hrest⟩ := hserver
    refine h.of_server rfl rfl rfl ?_
    rw [hlock, hcursor]
    dsimp only
    split_ifs
    · exact ⟨rfl, rfl⟩
    · exact hrest
  | ifMoved =>
    obtain rfl := Option.some.inj hstep
    obtain ⟨hlock, hcursor, hrest⟩ := hserver
    refine h.of_server rfl rfl rfl ?_
    rw [hlock, hcursor]
    dsimp only
    split_ifs
    · exact ⟨rfl, rfl⟩
    · exact hrest
  | ifUpdated =>
    obtain rfl := Option.some.inj hstep
    obtain ⟨hlock, hcursor, hrest⟩ := hserver
    refine h.of_server rfl rfl rfl ?_
    rw [hlock, hcursor]
    dsimp only
    split_ifs
    · exact ⟨rfl, rfl⟩
    · exact hrest
  | _ =>
    obtain rfl := Option.some.inj hstep
    exact h.of_server rfl rfl rfl hserver

/-- A step of the renderer that has to do with no lock. -/
theorem Locked.of_renderer {s s' : State Pixels Bits} (h : Locked s)
    (hlock : s'.page.lock = s.page.lock)
    (hcursorLock : s'.page.cursorLock = s.page.cursorLock) (hserver : s'.server = s.server)
    (hrenderer : Held (decide (s.page.lock = some .renderer))
      (decide (s.page.cursorLock = some .renderer)) s'.renderer.todo) :
    Locked s' := by
  refine ⟨?_, ?_⟩
  · rw [hlock, hcursorLock, hserver]
    exact h.server
  · rw [hlock, hcursorLock]
    exact hrenderer

theorem held_rendererRedrawLocked (buffer : Renderer.BufferId) :
    Held false false (rendererRedrawLocked buffer) := by
  simp [rendererRedrawLocked, Held]

/-- Every operation of the renderer keeps the locks in order. -/
theorem Locked.rendererOp {s s' : State Pixels Bits} (h : Locked s) {op : RendererOp}
    {rest : List RendererOp}
    (htodo : s.renderer.todo = op :: rest) (hstep : rendererOp s rest op = some s') :
    Locked s' := by
  have hserver := h.server
  have hrenderer := h.renderer
  rw [htodo] at hrenderer
  cases op with
  | findById =>
    obtain rfl := Option.some.inj hstep
    obtain ⟨hlock, hcursor, -⟩ := hrenderer
    refine h.of_renderer rfl rfl rfl ?_
    rw [hlock, hcursor]
    dsimp only
    split_ifs
    · exact held_rendererRedrawLocked _
    · exact ⟨rfl, rfl⟩
  | lock =>
    simp only [Redraw.rendererOp] at hstep
    split_ifs at hstep with hfree
    obtain rfl := Option.some.inj hstep
    obtain ⟨-, hcursor, hrest⟩ := hrenderer
    rw [hfree] at hserver
    exact ⟨by simpa using hserver, by simpa [hcursor] using hrest⟩
  | lockCursor =>
    simp only [Redraw.rendererOp] at hstep
    split_ifs at hstep with hfree
    obtain rfl := Option.some.inj hstep
    rw [hfree] at hserver
    exact ⟨by simpa using hserver, by simpa using hrenderer.2⟩
  | unlock =>
    obtain rfl := Option.some.inj hstep
    have howner : s.page.lock = some .renderer := of_decide_eq_true hrenderer.1
    rw [howner] at hserver
    exact ⟨by simpa using hserver, by simpa using hrenderer.2⟩
  | unlockCursor =>
    obtain rfl := Option.some.inj hstep
    have howner : s.page.cursorLock = some .renderer := of_decide_eq_true hrenderer.1
    rw [howner] at hserver
    exact ⟨by simpa using hserver, by simpa using hrenderer.2⟩
  | ifUpdated =>
    obtain rfl := Option.some.inj hstep
    obtain ⟨hcursor, hrest⟩ := hrenderer
    refine h.of_renderer rfl rfl rfl ?_
    rw [hcursor]
    dsimp only
    split_ifs
    · exact ⟨rfl, rfl, rfl, rfl, hrest⟩
    · exact hrest
  | ifVisible =>
    obtain rfl := Option.some.inj hstep
    refine h.of_renderer rfl rfl rfl ?_
    dsimp only
    split_ifs
    all_goals exact hrenderer
  | lowerDrawRequested buffer =>
    obtain rfl := Option.some.inj hstep
    exact h.of_renderer rfl rfl rfl hrenderer.2
  | drawRoot buffer =>
    obtain rfl := Option.some.inj hstep
    exact h.of_renderer rfl rfl rfl hrenderer.2
  | waitForNextFrame =>
    obtain rfl := Option.some.inj hstep
    exact h.of_renderer rfl rfl rfl hrenderer.2
  | lowerUpdated =>
    obtain rfl := Option.some.inj hstep
    exact h.of_renderer rfl rfl rfl hrenderer.2
  | glTexImage2D =>
    obtain rfl := Option.some.inj hstep
    exact h.of_renderer rfl rfl rfl hrenderer.2
  | _ =>
    obtain rfl := Option.some.inj hstep
    exact h.of_renderer rfl rfl rfl hrenderer

theorem Start.locked {s : State Pixels Bits} (h : Start s) : Locked s := by
  refine ⟨?_, ?_⟩
  · rw [h.lock, h.cursorLock, h.server]
    exact ⟨rfl, rfl⟩
  · rw [h.lock, h.cursorLock, h.renderer]
    exact ⟨rfl, rfl⟩

/-- **Step lemma.** Every step keeps the locks in order. -/
theorem Locked.step {s s' : State Pixels Bits} {a : Action Pixels Bits} (h : Locked s)
    (hstep : step s a = some s') :
    Locked s' := by
  cases a with
  | call c =>
    simp only [Redraw.step] at hstep
    split_ifs at hstep with hidle
    obtain rfl := Option.some.inj hstep
    have hserver := h.server
    rw [List.isEmpty_iff.mp hidle] at hserver
    refine h.of_server rfl rfl rfl ?_
    rw [hserver.1, hserver.2]
    exact guarded_program s.server c
  | server =>
    simp only [Redraw.step] at hstep
    split at hstep
    · cases hstep
    · next op rest htodo => exact h.serverOp htodo hstep
  | redraw =>
    simp only [Redraw.step] at hstep
    split_ifs at hstep with hdraw
    obtain rfl := Option.some.inj hstep
    have hrenderer := h.renderer
    rw [hdraw.1] at hrenderer
    exact h.of_renderer rfl rfl rfl ⟨hrenderer.1, hrenderer.2, rfl⟩
  | renderer =>
    simp only [Redraw.step] at hstep
    split at hstep
    · cases hstep
    · next op rest htodo => exact h.rendererOp htodo hstep
  | rendererRefreshContext outcome =>
    simp only [Redraw.step] at hstep
    split_ifs at hstep
    exact Option.some.inj hstep ▸ h.of_renderer rfl rfl rfl h.renderer
  | buffers buffers =>
    exact Option.some.inj hstep ▸ h.of_renderer rfl rfl rfl h.renderer

/-! ## The pace -/

/-- A frame is begun only after a call of `lorieRedraw` since the last one. -/
structure Paced (s : State Pixels Bits) : Prop where
  begun : .findById ∈ s.renderer.todo ∨ .waitForNextFrame ∈ s.renderer.todo →
    s.renderer.frames ≤ s.server.redraws
  next : s.page.waitForNextFrame = false → s.renderer.frames ≤ s.server.redraws
  frames : s.renderer.frames ≤ s.server.redraws + 1

theorem Start.paced {s : State Pixels Bits} (h : Start s) : Paced s := by
  refine ⟨fun _ => ?_, fun _ => ?_, ?_⟩
  all_goals
    rw [h.frames]
    exact Nat.zero_le _

/-- `waitForNextFrame` is lowered once for each call that is counted. -/
theorem serverOp_redraws {s s' : State Pixels Bits} {op : ServerOp Pixels Bits}
    {rest : List (ServerOp Pixels Bits)}
    (hstep : serverOp s rest op = some s') : s'.renderer = s.renderer ∧
      (s'.page.waitForNextFrame = s.page.waitForNextFrame ∧ s'.server.redraws = s.server.redraws ∨
        s'.page.waitForNextFrame = false ∧ s'.server.redraws = s.server.redraws + 1) := by
  cases op with
  | nextFrame =>
    obtain rfl := Option.some.inj hstep
    exact ⟨rfl, .inr ⟨rfl, rfl⟩⟩
  | lock =>
    simp only [Redraw.serverOp] at hstep
    split_ifs at hstep
    exact Option.some.inj hstep ▸ ⟨rfl, .inl ⟨rfl, rfl⟩⟩
  | lockCursor =>
    simp only [Redraw.serverOp] at hstep
    split_ifs at hstep
    exact Option.some.inj hstep ▸ ⟨rfl, .inl ⟨rfl, rfl⟩⟩
  | ifDamaged =>
    simp only [Redraw.serverOp] at hstep
    split_ifs at hstep
    all_goals exact Option.some.inj hstep ▸ ⟨rfl, .inl ⟨rfl, rfl⟩⟩
  | _ =>
    obtain rfl := Option.some.inj hstep
    exact ⟨rfl, .inl ⟨rfl, rfl⟩⟩

/-- What the server does keeps the pace. -/
theorem Paced.of_server {s s' : State Pixels Bits} (h : Paced s)
    (hrenderer : s'.renderer = s.renderer)
    (hredraws : s'.page.waitForNextFrame = s.page.waitForNextFrame ∧
      s'.server.redraws = s.server.redraws ∨
      s'.page.waitForNextFrame = false ∧ s'.server.redraws = s.server.redraws + 1) : Paced s' := by
  obtain ⟨hbegun, hnext, hframes⟩ := h
  rcases hredraws with ⟨hwait, hredraws⟩ | ⟨-, hredraws⟩
  · exact ⟨hrenderer ▸ hredraws ▸ hbegun, hrenderer ▸ hredraws ▸ hwait ▸ hnext,
      hrenderer ▸ hredraws ▸ hframes⟩
  · rw [← hrenderer, ← hredraws] at hframes
    exact ⟨fun _ => hframes, fun _ => hframes, Nat.le_succ_of_le hframes⟩

/-- A step of the renderer that neither begins nor counts a frame. -/
theorem Paced.of_renderer {s s' : State Pixels Bits} (h : Paced s) (hserver : s'.server = s.server)
    (hwait : s'.page.waitForNextFrame = s.page.waitForNextFrame)
    (hframes : s'.renderer.frames = s.renderer.frames)
    (hbegun : .findById ∈ s'.renderer.todo ∨ .waitForNextFrame ∈ s'.renderer.todo →
      .findById ∈ s.renderer.todo ∨ .waitForNextFrame ∈ s.renderer.todo ∨
        s.page.waitForNextFrame = false) : Paced s' := by
  refine ⟨fun hb => ?_, ?_, ?_⟩
  · rw [hframes, hserver]
    rcases hbegun hb with hfind | hwait | hnext
    · exact h.begun (.inl hfind)
    · exact h.begun (.inr hwait)
    · exact h.next hnext
  · rw [hframes, hserver, hwait]
    exact h.next
  · rw [hframes, hserver]
    exact h.frames

/-- Every operation of the renderer keeps the pace. -/
theorem Paced.rendererOp {s s' : State Pixels Bits} (h : Paced s) (hlocked : Locked s)
    {op : RendererOp} {rest : List RendererOp}
    (htodo : s.renderer.todo = op :: rest) (hstep : rendererOp s rest op = some s') : Paced s' := by
  cases op with
  | waitForNextFrame =>
    obtain rfl := Option.some.inj hstep
    have hheld := hlocked.renderer
    rw [htodo] at hheld
    have hframes := h.begun (.inr (htodo ▸ List.mem_cons_self))
    exact ⟨fun hb => (hb.elim hheld.1.2.1 hheld.1.2.2).elim,
      fun hb => absurd hb Bool.true_eq_false.mp, Nat.succ_le_succ hframes⟩
  | lock =>
    simp only [Redraw.rendererOp] at hstep
    split_ifs at hstep
    exact Option.some.inj hstep ▸ h.of_renderer rfl rfl rfl
      (by simpa [htodo] using Or.imp_right .inl)
  | lockCursor =>
    simp only [Redraw.rendererOp] at hstep
    split_ifs at hstep
    exact Option.some.inj hstep ▸ h.of_renderer rfl rfl rfl
      (by simpa [htodo] using Or.imp_right .inl)
  | findById =>
    obtain rfl := Option.some.inj hstep
    exact h.of_renderer rfl rfl rfl fun _ => .inl (htodo ▸ List.mem_cons_self)
  | ifUpdated =>
    obtain rfl := Option.some.inj hstep
    refine h.of_renderer rfl rfl rfl ?_
    dsimp only
    split_ifs
    all_goals simpa [htodo] using Or.imp_right .inl
  | ifVisible =>
    obtain rfl := Option.some.inj hstep
    refine h.of_renderer rfl rfl rfl ?_
    dsimp only
    split_ifs
    all_goals simpa [htodo, drawCursorReads] using Or.imp_right .inl
  | _ =>
    obtain rfl := Option.some.inj hstep
    exact h.of_renderer rfl rfl rfl (by simpa [htodo] using Or.imp_right .inl)

/-- **Step lemma.** Every step keeps the pace. -/
theorem Paced.step {s s' : State Pixels Bits} {a : Action Pixels Bits} (h : Paced s)
    (hlocked : Locked s)
    (hstep : step s a = some s') : Paced s' := by
  cases a with
  | call c =>
    simp only [Redraw.step] at hstep
    split_ifs at hstep
    exact Option.some.inj hstep ▸ h.of_server rfl (.inl ⟨rfl, rfl⟩)
  | server =>
    simp only [Redraw.step] at hstep
    split at hstep
    · cases hstep
    · next op rest htodo =>
      obtain ⟨hrenderer, hredraws⟩ := serverOp_redraws hstep
      exact h.of_server hrenderer hredraws
  | redraw =>
    simp only [Redraw.step] at hstep
    split_ifs at hstep with hdraw
    exact Option.some.inj hstep ▸ h.of_renderer rfl rfl rfl fun _ => .inr (.inr hdraw.2.2.1)
  | renderer =>
    simp only [Redraw.step] at hstep
    split at hstep
    · cases hstep
    · next op rest htodo => exact h.rendererOp hlocked htodo hstep
  | rendererRefreshContext outcome =>
    simp only [Redraw.step] at hstep
    split_ifs at hstep
    exact Option.some.inj hstep ▸ h.of_renderer rfl rfl rfl (Or.imp_right .inl)
  | buffers buffers => exact Option.some.inj hstep ▸ h.of_renderer rfl rfl rfl (Or.imp_right .inl)

/-! ## No deadlock -/

/-- Only a lock keeps the server from its next step. -/
theorem serverOp_blocked {s : State Pixels Bits} {op : ServerOp Pixels Bits}
    {rest : List (ServerOp Pixels Bits)}
    (h : serverOp s rest op = none) :
    op = .lock ∧ s.page.lock ≠ none ∨ op = .lockCursor ∧ s.page.cursorLock ≠ none := by
  cases op with
  | lock => exact .inl ⟨rfl, fun hfree => by simp [Redraw.serverOp, hfree] at h⟩
  | lockCursor => exact .inr ⟨rfl, fun hfree => by simp [Redraw.serverOp, hfree] at h⟩
  | ifDamaged =>
    simp only [Redraw.serverOp] at h
    split_ifs at h
  | _ => cases h

/-- Only a lock keeps the renderer from its next step. -/
theorem rendererOp_blocked {s : State Pixels Bits} {op : RendererOp} {rest : List RendererOp}
    (h : rendererOp s rest op = none) :
    op = .lock ∧ s.page.lock ≠ none ∨ op = .lockCursor ∧ s.page.cursorLock ≠ none := by
  cases op with
  | lock => exact .inl ⟨rfl, fun hfree => by simp [Redraw.rendererOp, hfree] at h⟩
  | lockCursor => exact .inr ⟨rfl, fun hfree => by simp [Redraw.rendererOp, hfree] at h⟩
  | _ => cases h

theorem owner_of_ne {owner : Option Thread} {t t' : Thread} (hne : t ≠ t') (hsome : owner ≠ none)
    (hnot : decide (owner = some t) = false) : owner = some t' := by
  cases owner with
  | none => exact absurd rfl hsome
  | some u =>
    have hu : u ≠ t := fun he => of_decide_eq_false hnot (congrArg some he)
    cases t
    all_goals cases t'
    all_goals cases u
    all_goals first | rfl | exact absurd rfl hu | exact absurd rfl hne

/-- A server that cannot go on waits for a lock that the renderer has, and has none that the
renderer may need. -/
theorem Locked.server_waits {s : State Pixels Bits} (h : Locked s) (hbusy : s.server.todo ≠ [])
    (hstep : Redraw.step s .server = none) :
    s.page.cursorLock ≠ some .server ∧
      (s.page.lock = some .renderer ∨ s.page.cursorLock = some .renderer) := by
  obtain ⟨op, rest, htodo⟩ := List.exists_cons_of_ne_nil hbusy
  have hserver := h.server
  simp only [Redraw.step, htodo] at hstep
  rw [htodo] at hserver
  rcases serverOp_blocked hstep with ⟨rfl, howned⟩ | ⟨rfl, howned⟩
  · exact ⟨of_decide_eq_false hserver.2.1, .inl (owner_of_ne (by decide) howned hserver.1)⟩
  · exact ⟨of_decide_eq_false hserver.2.1, .inr (owner_of_ne (by decide) howned hserver.2.1)⟩

/-- A renderer that cannot go on waits for a lock that the server has. -/
theorem Locked.renderer_waits {s : State Pixels Bits} (h : Locked s) (hbusy : s.renderer.todo ≠ [])
    (hstep : Redraw.step s .renderer = none) :
    s.page.cursorLock ≠ some .renderer ∧
      (s.page.lock = some .server ∨ s.page.cursorLock = some .server) := by
  obtain ⟨op, rest, htodo⟩ := List.exists_cons_of_ne_nil hbusy
  have hrenderer := h.renderer
  simp only [Redraw.step, htodo] at hstep
  rw [htodo] at hrenderer
  rcases rendererOp_blocked hstep with ⟨rfl, howned⟩ | ⟨rfl, howned⟩
  · exact ⟨of_decide_eq_false hrenderer.2.1, .inl (owner_of_ne (by decide) howned hrenderer.1)⟩
  · exact ⟨of_decide_eq_false hrenderer.1, .inr (owner_of_ne (by decide) howned hrenderer.1)⟩

/-- A thread at rest has no lock. -/
theorem Locked.server_rests {s : State Pixels Bits} (h : Locked s) (htodo : s.server.todo = []) :
    s.page.lock ≠ some .server ∧ s.page.cursorLock ≠ some .server := by
  have hserver := h.server
  rw [htodo] at hserver
  exact ⟨of_decide_eq_false hserver.1, of_decide_eq_false hserver.2⟩

/-- A resting renderer holds no lock. -/
theorem Locked.renderer_rests {s : State Pixels Bits} (h : Locked s)
    (htodo : s.renderer.todo = []) :
    s.page.lock ≠ some .renderer ∧ s.page.cursorLock ≠ some .renderer := by
  have hrenderer := h.renderer
  rw [htodo] at hrenderer
  exact ⟨of_decide_eq_false hrenderer.1, of_decide_eq_false hrenderer.2⟩

/-- While one of the threads has something to do, one of them can go on. -/
theorem Locked.no_deadlock {s : State Pixels Bits} (h : Locked s)
    (hbusy : s.server.todo ≠ [] ∨ s.renderer.todo ≠ []) :
    Redraw.step s .server ≠ none ∨ Redraw.step s .renderer ≠ none := by
  by_contra hstuck
  simp only [not_or, not_not] at hstuck
  obtain ⟨hserver, hrenderer⟩ := hstuck
  by_cases hs : s.server.todo = []
  · obtain ⟨hlock, hcursor⟩ := h.server_rests hs
    obtain ⟨-, hwaits⟩ := h.renderer_waits (hbusy.resolve_left (absurd hs)) hrenderer
    exact hwaits.elim hlock hcursor
  · obtain ⟨hnocursor, hwaits⟩ := h.server_waits hs hserver
    by_cases hr : s.renderer.todo = []
    · obtain ⟨hlock, hcursor⟩ := h.renderer_rests hr
      exact hwaits.elim hlock hcursor
    · obtain ⟨hrnocursor, hrwaits⟩ := h.renderer_waits hr hrenderer
      -- The renderer has the lock on the root window, and waits for that on the cursor, which the
      -- server does not have.
      have hlock := hwaits.resolve_right hrnocursor
      rcases hrwaits with hrlock | hrcursor
      · exact Thread.noConfusion (Option.some.inj (hlock.symm.trans hrlock))
      · exact hnocursor hrcursor

/-- The server comes to a state by steps of its own. -/
def Serves (s s' : State Pixels Bits) : Prop := ∃ n, run step s (List.replicate n .server) = some s'

theorem Serves.refl (s : State Pixels Bits) : Serves s s := ⟨0, rfl⟩

/-- One operation and then the rest. -/
theorem Serves.cons {s mid s' : State Pixels Bits} {op : ServerOp Pixels Bits}
    {rest : List (ServerOp Pixels Bits)}
    (htodo : s.server.todo = op :: rest) (hop : serverOp s rest op = some mid) (h : Serves mid s') :
    Serves s s' := by
  obtain ⟨n, hrun⟩ := h
  have hstep : step s .server = some mid := by simp only [step, htodo, hop]
  exact ⟨n + 1, run_cons.mpr ⟨mid, hstep, hrun⟩⟩

theorem Serves.trans {s mid s' : State Pixels Bits} (h : Serves s mid) (h' : Serves mid s') :
    Serves s s' := by
  obtain ⟨n, hrun⟩ := h
  obtain ⟨m, hrun'⟩ := h'
  exact ⟨n + m, List.replicate_add n m (Action.server : Action Pixels Bits) ▸ run_append hrun hrun'⟩

theorem serves_paints (index : Index) (paints : List Pixels) {rest : List (ServerOp Pixels Bits)}
    {s : State Pixels Bits}
    (htodo : s.server.todo = paints.map (.paint index) ++ rest) :
    ∃ pixels, Serves s { s with server := { s.server with pixels, todo := rest } } := by
  induction paints generalizing s with
  | nil =>
    refine ⟨s.server.pixels, ?_⟩
    rw [List.map_nil, List.nil_append] at htodo
    subst htodo
    exact .refl s
  | cons p ps ih =>
    obtain ⟨pixels, hserves⟩ := ih (s := { s with server := { s.server with
      pixels := p, todo := ps.map (.paint index) ++ rest } }) rfl
    exact ⟨pixels, .cons htodo rfl hserves⟩

theorem page_unlocked {page : Page Bits} (hlock : page.lock = none) :
    { page with lock := none } = page := by
  cases page
  subst hlock
  rfl

/-- With the lock free, the server comes to the end of a drawing. -/
theorem serves_draw (index : Index) (paints : List Pixels) {rest : List (ServerOp Pixels Bits)}
    {s : State Pixels Bits}
    (hlock : s.page.lock = none) (htodo : s.server.todo = draw index paints ++ rest) :
    ∃ pixels, Serves
      s { s with server := { s.server with damage := true, pixels, todo := rest } } := by
  unfold draw at htodo
  split_ifs at htodo
  · simp only [List.cons_append, List.nil_append, List.append_assoc] at htodo
    obtain ⟨pixels, hserves⟩ := serves_paints index paints (s := { s with
      page := { s.page with lock := some .server }
      server := { s.server with
        damage := true, todo := paints.map (.paint index) ++ .unlock :: rest } }) rfl
    refine ⟨pixels, .cons htodo rfl (.cons rfl (if_pos hlock) (hserves.trans (.cons rfl rfl ?_)))⟩
    rw [page_unlocked hlock]
    exact .refl _
  · obtain ⟨pixels, hserves⟩ := serves_paints index paints (s := { s with
      server := { s.server with damage := true, todo := paints.map (.paint index) ++ rest } }) rfl
    exact ⟨pixels, .cons htodo rfl hserves⟩

/-- The buffer of the root window's pixmap after drawing. -/
def Drawing.rootAfter (screen root : Renderer.BufferId) : Drawing Pixels → Renderer.BufferId
  | .draw _ _ => root
  | .flip buffer => buffer
  | .present_restore_screen_pixmap _ => screen

/-- After the vblanks. -/
def rootAfter (screen root : Renderer.BufferId) (vblanks : List (Drawing Pixels)) :
    Renderer.BufferId :=
  vblanks.foldl (fun root d => d.rootAfter screen root) root

/-- The same for a drawing of either kind. -/
theorem serves_drawing (d : Drawing Pixels) {rest : List (ServerOp Pixels Bits)}
    {s : State Pixels Bits}
    (hlock : s.page.lock = none) (htodo : s.server.todo = .drawing d :: rest) :
    ∃ damage pixels, Serves s { s with server := { s.server with
      damage, pixels, root := d.rootAfter s.server.screen s.server.root, todo := rest } } := by
  have hbegun :
      ∀ {s'}, Serves { s with server := { s.server with todo := d.program s.server ++ rest } } s' →
        Serves s s' :=
    fun hserves => .cons htodo rfl hserves
  cases d with
  | draw index paints =>
    obtain ⟨pixels, hserves⟩ := serves_draw index paints (s := { s with server := { s.server with
      todo := draw index paints ++ rest } }) hlock rfl
    exact ⟨true, pixels, hbegun hserves⟩
  | flip buffer => exact ⟨true, s.server.pixels, hbegun (.cons rfl rfl (.cons rfl rfl (.refl _)))⟩
  | present_restore_screen_pixmap copied =>
    simp only [Drawing.program, present_restore_screen_pixmap] at hbegun
    by_cases hscreen : s.server.root = s.server.screen
    · rw [if_pos hscreen] at hbegun
      refine ⟨s.server.damage, s.server.pixels, hbegun ?_⟩
      have hsame :
          (Drawing.present_restore_screen_pixmap copied).rootAfter s.server.screen s.server.root =
            s.server.root :=
        hscreen.symm
      rw [hsame]
      exact .refl _
    · rw [if_neg hscreen, List.append_assoc] at hbegun
      obtain ⟨pixels, hserves⟩ := serves_draw .dest copied (s := { s with server := { s.server with
        todo := draw .dest copied ++ ([.rootScreenPixmap] ++ rest) } }) hlock rfl
      exact ⟨true, pixels, hbegun (hserves.trans (.cons rfl rfl (.refl _)))⟩

/-- The same for the vblanks that are due. -/
theorem serves_loriePerformVblanks (vblanks : List (Drawing Pixels))
    {rest : List (ServerOp Pixels Bits)} {s : State Pixels Bits}
    (hlock : s.page.lock = none) (htodo : s.server.todo = loriePerformVblanks vblanks ++ rest) :
    ∃ damage pixels, (vblanks = [] → pixels = s.server.pixels) ∧
      Serves s { s with server := { s.server with
        damage
        pixels
        root := rootAfter s.server.screen s.server.root vblanks
        todo := rest } } := by
  induction vblanks generalizing s with
  | nil =>
    refine ⟨s.server.damage, s.server.pixels, fun _ => rfl, ?_⟩
    change s.server.todo = rest at htodo
    subst htodo
    exact .refl s
  | cons d ds ih =>
    have hbegins : s.server.todo = .drawing d :: (loriePerformVblanks ds ++ rest) := htodo
    obtain ⟨damage, pixels, hfirst⟩ := serves_drawing d hlock hbegins
    obtain ⟨damage', pixels', -, hrest⟩ := ih (s := { s with server := { s.server with
      damage
      pixels
      root := d.rootAfter s.server.screen s.server.root
      todo := loriePerformVblanks ds ++ rest } }) hlock rfl
    exact ⟨damage', pixels', nofun, hfirst.trans hrest⟩

/-- What a call of `lorieRedraw` leaves. -/
structure Asked (vblanks : List (Drawing Pixels)) (s s' : State Pixels Bits) : Prop where
  server : ∃ pixels, (vblanks = [] → pixels = s.server.pixels) ∧ s'.server = { s.server with
    damage := false
    pixels
    root := rootAfter s.server.screen s.server.root vblanks
    rootRead := s.server.root
    redraws := s.server.redraws + 1
    todo := [] }
  renderer : s'.renderer = s.renderer
  lock : s'.page.lock = s.page.lock
  cursorLock : s'.page.cursorLock = s.page.cursorLock
  surfaceAvailable : s'.page.surfaceAvailable = true
  waitForNextFrame : s'.page.waitForNextFrame = false
  cursor : s'.page.cursor = s.page.cursor
  bits : s'.page.bits = s.page.bits
  texture : s'.page.drawRequested = true ∨ s'.page.moved = true ∨ s'.page.updated = true →
    s'.page.rootWindowTextureID = s.server.root

/-- The rest of a call once the vblanks were performed. -/
theorem serves_nextFrame {s : State Pixels Bits} (hshown : s.page.surfaceAvailable = true)
    (htodo : s.server.todo =
      [.nextFrame, .returnUnlessShown true, .ifDamaged, .ifDrawRequested, .ifMoved, .ifUpdated]) :
    ∃ s', Serves s s' ∧
      s'.server = { s.server with damage := false, redraws := s.server.redraws + 1, todo := [] } ∧
      s'.renderer = s.renderer ∧ s'.page.lock = s.page.lock ∧
        s'.page.cursorLock = s.page.cursorLock ∧
      s'.page.surfaceAvailable = true ∧ s'.page.waitForNextFrame = false ∧
        s'.page.cursor = s.page.cursor ∧
      s'.page.bits = s.page.bits ∧
        (s'.page.drawRequested = true ∨ s'.page.moved = true ∨ s'.page.updated = true →
        s'.page.rootWindowTextureID = s.server.rootRead) := by
  obtain ⟨⟨lock, id, draw, available, wait, rendered, cursorLock, cursor, bits, updated, moved⟩,
    ⟨todo, damage, screen, pixels, root,
    rootRead, redraws⟩, renderer⟩ := s
  simp only at htodo hshown
  subst htodo hshown
  cases damage with
  | true => exact ⟨_, ⟨6, rfl⟩, rfl, rfl, rfl, rfl, rfl, rfl, rfl, rfl, fun _ => rfl⟩
  | false =>
    cases draw with
    | true => exact ⟨_, ⟨5, rfl⟩, rfl, rfl, rfl, rfl, rfl, rfl, rfl, rfl, fun _ => rfl⟩
    | false =>
      cases moved with
      | true => exact ⟨_, ⟨6, rfl⟩, rfl, rfl, rfl, rfl, rfl, rfl, rfl, rfl, fun _ => rfl⟩
      | false =>
        cases updated with
        | true => exact ⟨_, ⟨7, rfl⟩, rfl, rfl, rfl, rfl, rfl, rfl, rfl, rfl, fun _ => rfl⟩
        | false =>
          exact ⟨_, ⟨6, rfl⟩, rfl, rfl, rfl, rfl, rfl, rfl, rfl, rfl, fun h => by simp at h⟩

/-- **A call of `lorieRedraw` comes to its end.** -/
theorem run_lorieRedraw (vblanks : List (Drawing Pixels)) {s : State Pixels Bits}
    (htodo : s.server.todo = [])
    (hlock : s.page.lock = none) (hshown : s.page.surfaceAvailable = true) :
    ∃ n s', run step s (.call (.lorieRedraw vblanks true) :: List.replicate n .server) = some s' ∧
      Asked vblanks s s' := by
  have hcall : step s (.call (.lorieRedraw vblanks true)) =
      some { s with server := { s.server with todo := lorieRedraw vblanks true } } :=
        if_pos (List.isEmpty_iff.mpr htodo)
  obtain ⟨damage, pixels, hpixels, hvblanks⟩ := serves_loriePerformVblanks vblanks
    (s := { s with server := { s.server with
      rootRead := s.server.root
      todo := loriePerformVblanks vblanks ++
        [.nextFrame, .returnUnlessShown true, .ifDamaged, .ifDrawRequested, .ifMoved,
          .ifUpdated] } }) hlock rfl
  obtain ⟨s', hrest, hserver, hrenderer, hlock', hcursorLock, havailable, hwait, hcursor, hbits,
      htexture⟩ :=
    serves_nextFrame (s := { s with server := { s.server with
      damage
      pixels
      root := rootAfter s.server.screen s.server.root vblanks
      rootRead := s.server.root
      todo := [.nextFrame, .returnUnlessShown true, .ifDamaged, .ifDrawRequested, .ifMoved,
        .ifUpdated] } }) hshown rfl
  have hserves :
      Serves { s with server := { s.server with todo := lorieRedraw vblanks true } } s' :=
    .cons rfl rfl (hvblanks.trans hrest)
  obtain ⟨n, hrun⟩ := hserves
  exact ⟨n, s', run_cons.mpr ⟨_, hcall, hrun⟩,
    ⟨⟨pixels, hpixels, hserver⟩, hrenderer, hlock', hcursorLock, havailable, hwait,
    hcursor, hbits, htexture⟩⟩

/-- The renderer can go on to a state, and no frame is overtaken. -/
def Goes (s : State Pixels Bits) (Q : State Pixels Bits → Prop) : Prop :=
  Inv s → ∃ n s', run step s (List.replicate n .renderer) = some s' ∧ Inv s' ∧ Q s'

theorem Goes.done {s : State Pixels Bits} {Q : State Pixels Bits → Prop} (h : Q s) :
    Goes s Q := fun hinv =>
  ⟨0, s, rfl, hinv, h⟩

/-- One operation of the renderer and then the rest. -/
theorem Goes.next {s mid : State Pixels Bits} {Q : State Pixels Bits → Prop} {op : RendererOp}
    {rest : List RendererOp}
    (htodo : s.renderer.todo = op :: rest)
    (hok : ∀ buffer ∈ lowered (op :: rest), buffer = s.server.root)
    (hop : rendererOp s rest op = some mid) (h : Goes mid Q) : Goes s Q := fun hinv => by
  have hstep : step s .renderer = some mid := by simp only [step, htodo, hop]
  have hnot : NotOvertaken s .renderer := fun buffer hb => .inl (hok buffer (htodo ▸ hb))
  have hmid : Inv mid := hinv.step hnot hstep
  obtain ⟨n, s', hrun, hs', hq⟩ := h hmid
  exact ⟨n + 1, s', run_cons.mpr ⟨mid, hstep, hrun⟩, hs', hq⟩

theorem Goes.cons {s mid : State Pixels Bits} {Q : State Pixels Bits → Prop} {op : RendererOp}
    {rest : List RendererOp}
    (htodo : s.renderer.todo = op :: rest) (hok : lowered (op :: rest) = none)
    (hop : rendererOp s rest op = some mid)
    (h : Goes mid Q) : Goes s Q :=
  .next htodo (fun buffer hb => absurd (hok ▸ hb) (Option.not_mem_none buffer)) hop h

theorem Goes.imp {s : State Pixels Bits} {Q Q' : State Pixels Bits → Prop} (h : Goes s Q)
    (hq : ∀ s', Q s' → Q' s') :
    Goes s Q' := fun hinv => by
  obtain ⟨n, s', hrun, hs', h⟩ := h hinv
  exact ⟨n, s', hrun, hs', hq s' h⟩

/-- What a part of a frame leaves. -/
structure Ends (s s' : State Pixels Bits) : Prop where
  server : s'.server = s.server
  cursor : s'.page.cursor = s.page.cursor
  bits : s'.page.bits = s.page.bits
  surface : s'.renderer.surface = s.renderer.surface
  todo : s'.renderer.todo = []
  moved : s'.page.moved = false
  frames : s'.renderer.frames = s.renderer.frames + 1

/-- From the cursor's numbers on. -/
theorem goes_drawCursor {s : State Pixels Bits}
    (htodo : s.renderer.todo =
      [.lowerMoved, .readField .width, .readField .height, .ifVisible, .waitForNextFrame, .unlock,
      .eglSwapBuffers, .renderedFrames]) :
    Goes s fun s' => Ends s s' ∧ s'.page.drawRequested = s.page.drawRequested ∧
      s'.page.updated = s.page.updated := by
  refine .cons htodo rfl rfl (.cons rfl rfl rfl (.cons rfl rfl rfl (.cons rfl rfl rfl ?_)))
  dsimp only
  split_ifs
  · exact .cons rfl rfl rfl
      (.cons rfl rfl rfl (.cons rfl rfl rfl (.cons rfl rfl rfl (.cons rfl rfl rfl (.cons rfl rfl rfl
      (.cons rfl rfl rfl (.cons rfl rfl rfl (.cons rfl rfl rfl (.cons rfl rfl rfl
        (.done ⟨⟨rfl, rfl, rfl, rfl, rfl, rfl, rfl⟩, rfl, rfl⟩))))))))))
  · exact .cons rfl rfl rfl (.cons rfl rfl rfl (.cons rfl rfl rfl (.cons rfl rfl rfl
      (.done ⟨⟨rfl, rfl, rfl, rfl, rfl, rfl, rfl⟩, rfl, rfl⟩))))

/-- From the lock on. -/
theorem goes_rendererRedrawLocked {s : State Pixels Bits}
    (htodo : s.renderer.todo = rendererRedrawLocked s.server.root)
    (hlock : s.page.lock = none) (hcursorLock : s.page.cursorLock = none) :
    Goes s fun s' => Ends s s' ∧ s'.page.drawRequested = false ∧ s'.page.updated = false := by
  refine .cons htodo rfl (if_pos hlock)
    (.next rfl (fun buffer hb => (Option.some.inj hb).symm) rfl (.cons rfl rfl rfl
    (.cons rfl rfl rfl ?_)))
  dsimp only
  split_ifs with hupdated
  · refine .cons rfl rfl (if_pos hcursorLock)
      (.cons rfl rfl rfl (.cons rfl rfl rfl (.cons rfl rfl rfl
      ((goes_drawCursor rfl).imp fun s' hs' => ?_))))
    exact ⟨⟨hs'.1.server, hs'.1.cursor, hs'.1.bits, hs'.1.surface, hs'.1.todo, hs'.1.moved,
      hs'.1.frames⟩, hs'.2⟩
  · refine (goes_drawCursor rfl).imp fun s' hs' => ?_
    exact ⟨⟨hs'.1.server, hs'.1.cursor, hs'.1.bits, hs'.1.surface, hs'.1.todo, hs'.1.moved,
      hs'.1.frames⟩, hs'.2.1,
      hs'.2.2.trans (Bool.not_eq_true _ ▸ hupdated)⟩

theorem eq_none_of_rests {owner : Option Thread} (hserver : owner ≠ some .server)
    (hrenderer : owner ≠ some .renderer) :
    owner = none := by
  cases owner with
  | none => rfl
  | some t =>
    cases t with
    | server => exact absurd rfl hserver
    | renderer => exact absurd rfl hrenderer

/-- What is asked for is drawn in one frame. -/
theorem goes_redraw {s : State Pixels Bits} (hinv : Inv s) (hrenderer : s.renderer.todo = [])
    (hlock : s.page.lock = none)
    (hcursorLock : s.page.cursorLock = none) (hshown : s.page.surfaceAvailable = true)
    (hwait : s.page.waitForNextFrame = false)
    (hasked : s.page.drawRequested = true ∨ s.page.moved = true ∨ s.page.updated = true)
    (htexture : s.page.rootWindowTextureID = s.server.root)
    (hfound : s.server.root ∈ s.renderer.buffers) :
    ∃ n s', run step s (.redraw :: List.replicate n .renderer) = some s' ∧ Inv s' ∧ Ends s s' ∧
      s'.page.drawRequested = false ∧ s'.page.updated = false := by
  have hstep :
      step s .redraw = some { s with renderer := { s.renderer with todo := [.findById] } } :=
    if_pos ⟨hrenderer, hshown, hwait, hasked⟩
  have hfind :
      rendererOp { s with renderer := { s.renderer with todo := [.findById] } } [] .findById =
      some { s with
          renderer := { s.renderer with todo := rendererRedrawLocked s.server.root } } := by
    simp only [rendererOp, htexture, if_pos hfound]
  have hgoes :=
    Goes.cons (s := { s with renderer := { s.renderer with todo := [.findById] } }) rfl rfl hfind
    (goes_rendererRedrawLocked rfl hlock hcursorLock)
  obtain ⟨n, s', hrun, hs', hends, hflags⟩ := hgoes (hinv.step (a := .redraw) trivial hstep)
  exact ⟨n, s', run_cons.mpr ⟨_, hstep, hrun⟩, hs',
    ⟨hends.server, hends.cursor, hends.bits, hends.surface, hends.todo, hends.moved, hends.frames⟩,
      hflags⟩

/-- **One call of `lorieRedraw` and at most one frame show everything.** From every state of every
run in which both threads are at rest, there is a window and the root window's buffer is known;
provided that the vblanks which are due leave the root window the pixmap that it has. Without
vblanks that is what was to be seen before the call. -/
theorem one_frame_suffices {s₀ s : State Pixels Bits} (hstart : Start s₀)
    {as : List (Action Pixels Bits)}
    (hrun : run step s₀ as = some s) (hok : Meets step NotOvertaken s₀ as)
    (hserver : s.server.todo = [])
    (hrenderer : s.renderer.todo = []) (hsurface : s.renderer.surface = true)
    (hshown : s.page.surfaceAvailable = true)
    (hfound : s.server.root ∈ s.renderer.buffers) {vblanks : List (Drawing Pixels)}
    (hkeeps : rootAfter s.server.screen s.server.root vblanks = s.server.root) :
    ∃ n frame s', (frame = [] ∨ ∃ m, frame = .redraw :: List.replicate m .renderer) ∧
      run step s (.call (.lorieRedraw vblanks true) :: List.replicate n .server ++ frame) =
        some s' ∧ Quiet s' ∧
      s'.renderer.frame = some s'.current ∧ s'.server.root = s.server.root ∧
        (vblanks = [] → s'.current = s.current) ∧
      s'.renderer.frames ≤ s.renderer.frames + 1 := by
  have hinv : Inv s := run_induction Inv.step hstart.inv hok hrun
  have hlocked : Locked s := run_invariant Locked.step hstart.locked hrun
  have hlock :=
    eq_none_of_rests (hlocked.server_rests hserver).1 (hlocked.renderer_rests hrenderer).1
  have hcursorLock :=
    eq_none_of_rests (hlocked.server_rests hserver).2 (hlocked.renderer_rests hrenderer).2
  obtain ⟨n, t, hrunt, ht⟩ := run_lorieRedraw vblanks hserver hlock hshown
  have hinvt : Inv t := by
    have hcalls : Meets step (fun _ a => a = .call (.lorieRedraw vblanks true) ∨ a = .server) s
        (.call (.lorieRedraw vblanks true) :: List.replicate n .server) :=
      Meets.of_forall (fun a ha _ => (List.mem_cons.mp ha).imp id List.eq_of_mem_replicate) s
    refine run_induction (fun hu hcall hstep => ?_) hinv hcalls hrunt
    rcases hcall with rfl | rfl
    · exact hu.step (a := .call (.lorieRedraw vblanks true)) trivial hstep
    · exact hu.step (a := .server) trivial hstep
  obtain ⟨pixels, hpixels, htserver⟩ := ht.server
  rw [hkeeps] at htserver
  have hcurrent :
      vblanks = [] → ∀ u : State Pixels Bits, u.server = t.server → u.page.cursor = t.page.cursor →
      u.page.bits = t.page.bits → u.current = s.current := by
    intro hnone u husver hucursor hubits
    simp only [State.current, Page.image, husver, hucursor, hubits, htserver, hpixels hnone,
      ht.cursor, ht.bits]
    rfl
  have hrendert : t.renderer.todo = [] := ht.renderer ▸ hrenderer
  by_cases hasked : t.page.drawRequested = true ∨ t.page.moved = true ∨ t.page.updated = true
  · obtain ⟨m, s', hruns', hinvs', hends, hdraw, hupdated⟩ :=
      goes_redraw hinvt hrendert (ht.lock.trans hlock)
      (ht.cursorLock.trans hcursorLock) ht.surfaceAvailable ht.waitForNextFrame hasked
      ((ht.texture hasked).trans (by rw [htserver])) (by rw [htserver, ht.renderer]; exact hfound)
    have hquiet : Quiet s' :=
      ⟨by rw [hends.server, htserver], hends.todo, by rw [hends.server, htserver], hdraw, hupdated,
      hends.moved, by rw [hends.surface, ht.renderer, hsurface]⟩
    refine ⟨n, _, s', .inr ⟨m, rfl⟩, run_append hrunt hruns', hquiet,
      hinvs'.frame_eq hquiet, by rw [hends.server, htserver],
      fun hnone => hcurrent hnone s' hends.server hends.cursor hends.bits, ?_⟩
    exact Nat.le_of_eq (by rw [hends.frames, ht.renderer])
  · simp only [not_or, Bool.not_eq_true] at hasked
    have hquiet : Quiet t :=
      ⟨by rw [htserver], hrendert, by rw [htserver], hasked.1, hasked.2.2, hasked.2.1,
      ht.renderer ▸ hsurface⟩
    refine ⟨n, [], t, .inl rfl, by rw [List.append_nil]; exact hrunt, hquiet,
      hinvt.frame_eq hquiet, by rw [htserver],
      fun hnone => hcurrent hnone t rfl rfl rfl, ?_⟩
    rw [ht.renderer]
    exact Nat.le_succ _

/-- A frame, and a flip whose report has not reached the renderer. -/
def flipped : List (Action Nat Nat) := firstFrame ++ [.call (.drawing (.flip 2)), .server, .server]

/-- At the next redraw a vblank comes with something to copy to the screen's pixmap. -/
theorem one_frame_suffices_flipped :
    ∃ s, run step offered flipped = some s ∧ s.current ≠ offered.current ∧
    ∃ as s', run step s as = some s' ∧ Quiet s' ∧ s'.renderer.frame = some s'.current ∧
      s'.server.root = 2 := by
  have hruns : (run step offered flipped).isSome = true := by decide +kernel
  obtain ⟨s, hs⟩ := Option.isSome_iff_exists.mp hruns
  have hrests :
      (run step offered flipped).map
        (fun s => (s.server.todo.isEmpty, s.renderer.todo.isEmpty, s.renderer.surface,
      s.page.surfaceAvailable)) = some (true, true, true, true) := by decide +kernel
  have hends :
      (run step offered flipped).map (fun s => (s.server.root, s.renderer.buffers)) =
        some (2, [1, 2]) := by
    decide +kernel
  rw [hs] at hrests hends
  simp only [Option.map_some, Option.some_inj, Prod.mk.injEq, List.isEmpty_iff] at hrests hends
  obtain ⟨hserver, hrenderer, hsurface, hshown⟩ := hrests
  obtain ⟨hroot, hbuffers⟩ := hends
  have hkeeps : rootAfter s.server.screen s.server.root [.draw .dest [101]] = s.server.root := rfl
  obtain ⟨n, frame, s', -, hrun, hquiet, hframe, hsame, -⟩ :=
    one_frame_suffices start_offered hs (by decide +kernel) hserver
    hrenderer hsurface hshown (hroot ▸ hbuffers ▸ by decide) hkeeps
  refine ⟨s, hs, fun hequal => ?_, _, s', hrun, hquiet, hframe, hsame.trans hroot⟩
  have hbuffer : s.server.root = 1 := congrArg (·.root.buffer) hequal
  rw [hroot] at hbuffer
  exact absurd hbuffer (by decide)

end WinEmulator.Lorie.Redraw
