import WinEmulator.X11.TouchInputHandler

/-!
# Buttons that gestures hold

A strategy remembers one button and releases it at an up; a cancel releases nothing, a second press
and hold forgets the first, and a reload of the preferences replaces the strategy with what it
remembers. The listener of DeX remembers by its own flags, which an up may not agree with.

`Careful` says when a step does none of that. In a run of such steps every button that a gesture
pressed and nobody released is one that its sender still remembers, with a pointer down on its
device.
-/

set_option autoImplicit false

namespace WinEmulator.X11.TouchInputHandler

open WinEmulator.Lib

/-! ## The log -/

section Log

variable {sender : Sender} {button : Button} {new log : List MouseEvent}

/-- A button that is held after some events was pressed by one of them or held before. -/
theorem held_append (h : held sender button (new ++ log) = true) :
    (∃ e ∈ new, e.sender = sender ∧ e.button = button ∧ e.down = true) ∨
      held sender button log = true := by
  induction new with
  | nil => exact .inr h
  | cons e new ih =>
    rw [List.cons_append, held] at h
    have later : held sender button (new ++ log) = true →
        (∃ e' ∈ e :: new, e'.sender = sender ∧ e'.button = button ∧ e'.down = true) ∨
            held sender button log = true :=
      fun h => (ih h).imp_left fun ⟨e', hmem, hpress⟩ => ⟨e', List.mem_cons_of_mem _ hmem, hpress⟩
    split at h
    case isTrue hbutton =>
      simp only [Bool.and_eq_true, Bool.or_eq_true, decide_eq_true_eq] at h
      obtain ⟨hdown, hsender | hheld⟩ := h
      · exact .inl ⟨e, List.mem_cons_self, hsender, hbutton, hdown⟩
      · exact later hheld
    case isFalse => exact later h

/-- What only others sent does not add to what a sender holds. -/
theorem held_of_append (hothers : ∀ e ∈ new, e.sender = sender → e.down = false)
    (h : held sender button (new ++ log) = true) : held sender button log = true := by
  obtain ⟨e, hmem, hsender, -, hdown⟩ | h := held_append h
  · rw [hothers e hmem hsender] at hdown
    cases hdown
  · exact h

/-- A button that is released and not pressed again is not held. -/
theorem not_held_of_released (hreleased : ∃ e ∈ new, e.button = button)
    (hall : ∀ e ∈ new, e.button = button → e.down = false) :
    held sender button (new ++ log) = false := by
  induction new with
  | nil =>
    obtain ⟨_, hmem, _⟩ := hreleased
    cases hmem
  | cons e new ih =>
    rw [List.cons_append, held]
    split
    case isTrue hbutton => rw [hall e List.mem_cons_self hbutton, Bool.false_and]
    case isFalse hbutton =>
      refine ih ?_ fun e' hmem => hall e' (List.mem_cons_of_mem _ hmem)
      obtain ⟨e', hmem, hbutton'⟩ := hreleased
      rcases List.mem_cons.mp hmem with rfl | hmem
      · exact absurd hbutton' hbutton
      · exact ⟨e', hmem, hbutton'⟩

/-- A click leaves no button held. -/
theorem held_click {sender' : Sender} {clicked : Button}
    (h : held sender button ((sendMouseClick sender' clicked).reverse ++ log) = true) :
    held sender button log = true := by
  by_cases hclicked : clicked = button
  · simp [sendMouseClick, held, hclicked] at h
  · simpa [sendMouseClick, held, hclicked] using h

end Log

/-! ## Buttons of events -/

def Button.mask : Button → UInt32
  | .left => BUTTON_PRIMARY
  | .middle => BUTTON_TERTIARY
  | .right => BUTTON_SECONDARY

theorem mem_buttons {mask : UInt32} {button : Button} :
    (mask, button) ∈ buttons ↔ mask = button.mask := by
  cases button <;> simp [buttons, Button.mask]

/-- A mask is one bit. -/
theorem and_mask (bits : UInt32) (button : Button) :
    bits &&& button.mask = 0 ∨ bits &&& button.mask = button.mask := by
  have hbit : ∃ i, button.mask.toBitVec = BitVec.twoPow 32 i := by
    cases button with
    | left => exact ⟨0, by decide⟩
    | middle => exact ⟨2, by decide⟩
    | right => exact ⟨1, by decide⟩
  obtain ⟨i, hbit⟩ := hbit
  rw [← UInt32.toBitVec_inj, ← UInt32.toBitVec_inj, UInt32.toBitVec_and, hbit, BitVec.and_twoPow]
  split
  · exact .inr rfl
  · exact .inl rfl

theorem isMouseButtonChanged_iff {savedBS currentBS : UInt32} {button : Button} :
    isMouseButtonChanged savedBS currentBS button.mask = true ↔
      mouseButtonDown savedBS button.mask ≠ mouseButtonDown currentBS button.mask := by
  have hmask : button.mask ≠ 0 := by
    cases button <;> decide
  rcases and_mask savedBS button with hsaved | hsaved <;>
    rcases and_mask currentBS button with hcurrent | hcurrent <;>
    simp [isMouseButtonChanged, mouseButtonDown, hsaved, hcurrent, hmask, hmask.symm]

/-- The events of the buttons that have changed. -/
theorem mem_checkButtons {sender : Sender} {savedBS currentBS : UInt32} {e : MouseEvent} :
    e ∈ checkButtons sender savedBS currentBS ↔
      e.sender = sender ∧ e.down = mouseButtonDown currentBS e.button.mask ∧
        isMouseButtonChanged savedBS currentBS e.button.mask = true := by
  simp only [checkButtons, List.mem_map, List.mem_filter]
  constructor
  · rintro ⟨⟨mask, button⟩, ⟨hmem, hchanged⟩, rfl⟩
    obtain rfl := mem_buttons.mp hmem
    exact ⟨rfl, rfl, hchanged⟩
  · rintro ⟨rfl, hdown, hchanged⟩
    refine ⟨(e.button.mask, e.button), ⟨mem_buttons.mpr rfl, hchanged⟩, ?_⟩
    rw [← hdown]

/-! ## Strategies -/

/-- `mHeldButton`. -/
def InputStrategy.mHeldButton : InputStrategy → Option Button
  | .null => none
  | .trackpad mHeldButton => mHeldButton
  | .simulatedTouch mHeldButton => mHeldButton

/-- An up releases the button that is remembered. -/
theorem onMotionEvent_up {sender : Sender} {e : MotionEvent} (haction : e.action = .up)
    (strategy : InputStrategy) :
    (strategy.onMotionEvent sender e).1.mHeldButton = none ∧
      (strategy.onMotionEvent sender e).2 = strategy.mHeldButton.toList.map fun button =>
        ⟨sender, button, false⟩ := by
  cases strategy with
  | null => exact ⟨rfl, rfl⟩
  | trackpad held =>
    cases held <;> simp [InputStrategy.onMotionEvent, InputStrategy.mHeldButton, haction]
  | simulatedTouch held =>
    cases held <;> simp [InputStrategy.onMotionEvent, InputStrategy.mHeldButton, haction]

theorem onMotionEvent_of_ne_up {sender : Sender} {e : MotionEvent} (haction : e.action ≠ .up)
    (strategy : InputStrategy) :
    strategy.onMotionEvent sender e = (strategy, []) := by
  cases strategy with
  | null => rfl
  | trackpad held => cases held <;> simp [InputStrategy.onMotionEvent, haction]
  | simulatedTouch held => cases held <;> simp [InputStrategy.onMotionEvent, haction]

/-- What a tap sends is a click or nothing. -/
theorem held_onTap {sender sender' : Sender} {strategy : InputStrategy} {tapped button : Button}
    {log : List MouseEvent}
    (h : held sender button ((strategy.onTap sender' tapped).reverse ++ log) = true) :
    held sender button log = true := by
  cases strategy with
  | null => exact h
  | trackpad _ => exact held_click h
  | simulatedTouch _ => exact held_click h

/-- A strategy handles a press and hold. -/
def InputStrategy.handles (tapToMove force : Bool) : InputStrategy → Bool
  | .null => false
  | .trackpad _ => !tapToMove || force
  | .simulatedTouch _ => true

/-- The button that a notification presses and holds. -/
def Handler.holds (tapToMove : Bool) (h : Handler) : Notification → Option Button
  | .tap _ _ => none
  | .longPress pointerCount outsideImage =>
    if (h.mInputStrategy.isTrackpad || !outsideImage) &&
      h.mInputStrategy.handles tapToMove false then
      mouseButtonFromPointerCount pointerCount
    else none
  | .doubleTapEvent action pointerCount =>
    if pointerCount = 1 ∧ action = .down ∧ (tapToMove && h.mInputStrategy.isTrackpad) = true then
      some .left
    else none

/-- A strategy that handles the press holds the button. -/
theorem onPressAndHold_of_handles {sender : Sender} {tapToMove force : Bool}
    {strategy : InputStrategy}
    (hhandles : strategy.handles tapToMove force = true) (button : Button) :
    (strategy.onPressAndHold sender tapToMove button force).1.mHeldButton = some button ∧
      (strategy.onPressAndHold sender tapToMove button force).2 = [⟨sender, button, true⟩] := by
  cases strategy with
  | null => cases hhandles
  | trackpad _ =>
    have hmove : (tapToMove && !force) = false := by
      cases tapToMove <;> cases force <;> trivial
    simp [InputStrategy.onPressAndHold, hmove, InputStrategy.mHeldButton]
  | simulatedTouch _ => exact ⟨rfl, rfl⟩

theorem onPressAndHold_of_not_handles {sender : Sender} {tapToMove force : Bool}
    {strategy : InputStrategy}
    (hhandles : strategy.handles tapToMove force = false) (button : Button) :
    strategy.onPressAndHold sender tapToMove button force = (strategy, []) := by
  cases strategy with
  | null => rfl
  | trackpad _ =>
    have hmove : (tapToMove && !force) = true := by
      cases tapToMove <;> cases force <;> trivial
    simp [InputStrategy.onPressAndHold, hmove]
  | simulatedTouch _ => cases hhandles

/-- A notification that holds a button presses it and remembers it. -/
theorem notify_of_holds (sender : Sender) {tapToMove : Bool} {h : Handler} {n : Notification}
    {button : Button}
    (hholds : h.holds tapToMove n = some button) :
    (h.notify sender tapToMove n).1.mInputStrategy.mHeldButton = some button ∧
      (h.notify sender tapToMove n).2 = [⟨sender, button, true⟩] := by
  cases n with
  | tap pointerCount outsideImage => cases hholds
  | longPress pointerCount outsideImage =>
    simp only [Handler.holds, Option.ite_none_right_eq_some, Bool.and_eq_true] at hholds
    obtain ⟨⟨hinside, hhandles⟩, hbutton⟩ := hholds
    have houtside : (!h.mInputStrategy.isTrackpad && outsideImage) = false := by
      revert hinside
      cases h.mInputStrategy.isTrackpad <;> cases outsideImage <;> decide
    simp only [Handler.notify, Handler.onLongPress, hbutton, houtside, Bool.false_eq_true, if_false]
    exact onPressAndHold_of_handles hhandles button
  | doubleTapEvent action pointerCount =>
    simp only [Handler.holds, Option.ite_none_right_eq_some, Option.some.injEq] at hholds
    obtain ⟨hdouble, rfl⟩ := hholds
    simp only [Handler.notify, Handler.onDoubleTapEvent, if_pos hdouble]
    refine onPressAndHold_of_handles ?_ .left
    show h.mInputStrategy.handles tapToMove true = true
    obtain ⟨-, -, hdouble⟩ := hdouble
    cases hstrategy : h.mInputStrategy with
    | null => simp [hstrategy, InputStrategy.isTrackpad] at hdouble
    | trackpad _ => simp [InputStrategy.handles]
    | simulatedTouch _ => rfl

/-- Any other notification sends a click or nothing. -/
theorem notify_of_not_holds (sender : Sender) {tapToMove : Bool} {h : Handler} {n : Notification}
    (hholds : h.holds tapToMove n = none) :
    (h.notify sender tapToMove n).1.mInputStrategy = h.mInputStrategy ∧
      ((h.notify sender tapToMove n).2 = [] ∨
        ∃ button, (h.notify sender tapToMove n).2 = h.mInputStrategy.onTap sender button) := by
  cases n with
  | tap pointerCount outsideImage =>
    simp only [Handler.notify, Handler.onTap]
    split
    · exact ⟨rfl, .inl rfl⟩
    · split
      · exact ⟨rfl, .inl rfl⟩
      · split
        · exact ⟨rfl, .inr ⟨_, rfl⟩⟩
        · exact ⟨rfl, .inl rfl⟩
  | longPress pointerCount outsideImage =>
    simp only [Handler.notify, Handler.onLongPress]
    split
    case h_1 => exact ⟨rfl, .inl rfl⟩
    case h_2 button hbutton =>
      split
      case isTrue => exact ⟨rfl, .inl rfl⟩
      case isFalse houtside =>
        have hinside : (h.mInputStrategy.isTrackpad || !outsideImage) = true := by
          revert houtside
          cases h.mInputStrategy.isTrackpad <;> cases outsideImage <;> simp
        simp only [Handler.holds, hbutton, hinside, Bool.true_and, ite_eq_right_iff, reduceCtorEq,
          imp_false,
          Bool.not_eq_true] at hholds
        simp only [Handler.pressAndHold, onPressAndHold_of_not_handles hholds]
        exact ⟨trivial, .inl trivial⟩
  | doubleTapEvent action pointerCount =>
    have hdouble :
        ¬ (pointerCount = 1 ∧ action = .down ∧
          (tapToMove && h.mInputStrategy.isTrackpad) = true) := by
      intro hdouble
      rw [Handler.holds, if_pos hdouble] at hholds
      cases hholds
    simp only [Handler.notify, Handler.onDoubleTapEvent, if_neg hdouble]
    exact ⟨trivial, .inl trivial⟩

/-! ## Runs -/

/-- Where the fingers are whose up releases the button a handler's strategy holds. -/
def Which.device : Which → Device
  | .main => .touchscreen
  | .touchpad => .touchpad

/-- An up of DeX ends a drag or a tap. -/
def DexListener.endsLeft (d : DexListener) (e : MotionEvent) : Bool :=
  !e.isScrollingEvent &&
    (e.hasFlags 0x4000000 || (checkButtons .dexListener d.savedBS e.buttonState).isEmpty && d.onTap)

/-- The listener of DeX lets go of a button at an up: the button is up in its state and was down in
the last one, or it is the left one and the up ends a drag or a tap. -/
def DexListener.letsGo (d : DexListener) (e : MotionEvent) (button : Button) : Bool :=
  mouseButtonDown d.savedBS button.mask && !mouseButtonDown e.buttonState button.mask ||
    button = .left && d.endsLeft e

/-- An event newly has a button. -/
def DexListener.presses (d : DexListener) (e : MotionEvent) (button : Button) : Bool :=
  mouseButtonDown e.buttonState button.mask && !mouseButtonDown d.savedBS button.mask

/-- A cancel comes when its sender holds nothing, an up of DeX lets go of all that its listener
holds or that it newly has, and a button of DeX is pressed with a pointer down. -/
def CarefulTouch (s : State) (e : MotionEvent) : Prop :=
  match e.device, e.action with
  | .dex, .cancel => ∀ button, held .dexListener button s.log = false
  | .dex, .up =>
    ∀ button, held .dexListener button s.log = true ∨ s.dexListener.presses e button = true →
      s.dexListener.letsGo e button = true
  | .dex, .buttonPress | .dex, .buttonRelease =>
    ∀ button, s.dexListener.presses e button = true → s.down .dex = true
  | .touchscreen, .cancel | .touchpad, .cancel =>
    ∀ button, held (.strategy e.device.which) button s.log = false
  | _, _ => True

/-- A button is pressed and held with a pointer down, and not over another one. The preferences are
reloaded when no strategy holds a button. -/
def Careful (s : State) : Input → Prop
  | .touch e => e.isMouseEvent = false → CarefulTouch s e
  | .notify which n =>
    ∀ button, (s.handlers which).holds s.tapToMove n = some button →
      s.down which.device = true ∧ ∀ other, held (.strategy which) other s.log = true →
        other = button
  | .mouseDownRunnable => s.down .dex = true
  | .reloadPreferences _ _ => ∀ which button, held (.strategy which) button s.log = false
  | .touchpadButtons _ | .delayedTap _ | .dexTap => True

/-- With no pointer down, every button that a gesture pressed has been released. -/
def Released (s : State) : Prop :=
  (∀ device, s.down device = false) → ∀ sender, sender ≠ .touchpadButtons →
    ∀ button, held sender button s.log = false

/-- What is held is remembered by its strategy, and its device has a pointer down. -/
structure Remembered (s : State) : Prop where
  strategy : ∀ which button, held (.strategy which) button s.log = true →
    (s.handlers which).mInputStrategy.mHeldButton = some button ∧ s.down which.device = true
  dex : ∀ button, held .dexListener button s.log = true → s.down .dex = true

theorem remembered_start : Remembered start := ⟨nofun, nofun⟩

/-- In the states of the invariant no button is held while nothing touches. -/
theorem Remembered.released {s : State} (h : Remembered s) : Released s := by
  intro hidle sender hsender button
  rw [← Bool.not_eq_true]
  intro hheld
  cases sender with
  | strategy which =>
    obtain ⟨-, hdown⟩ := h.strategy which button hheld
    rw [hidle] at hdown
    cases hdown
  | dexListener =>
    have hdown := h.dex button hheld
    rw [hidle] at hdown
    cases hdown
  | touchpadButtons => exact hsender rfl

variable {s : State}

/-- A step that holds nothing new keeps what is remembered. -/
theorem Remembered.lowers {s' : State} (h : Remembered s)
    (hlog : ∀ sender button, sender ≠ .touchpadButtons →
      held sender button s'.log = true → held sender button s.log = true)
    (hstrategy : ∀ which,
      (s'.handlers which).mInputStrategy.mHeldButton =
      (s.handlers which).mInputStrategy.mHeldButton)
    (hdown : s'.down = s.down) : Remembered s' where
  strategy := by
    intro which button hheld
    rw [hstrategy, hdown]
    exact h.strategy which button (hlog _ _ nofun hheld)
  dex := by
    intro button hheld
    rw [hdown]
    exact h.dex button (hlog _ _ nofun hheld)

theorem setHandler_mHeldButton {which : Which} {next : Handler × List MouseEvent}
    (hnext : next.1.mInputStrategy.mHeldButton = (s.handlers which).mInputStrategy.mHeldButton)
    (other : Which) :
    ((s.setHandler which next).handlers other).mInputStrategy.mHeldButton =
      (s.handlers other).mInputStrategy.mHeldButton := by
  show (Function.update s.handlers which next.1 other).mInputStrategy.mHeldButton = _
  by_cases hother : other = which
  · subst hother
    rw [Function.update_self, hnext]
  · rw [Function.update_of_ne hother]

/-- The touchpad's buttons keep the invariant. -/
theorem Remembered.touchpadButtons (h : Remembered s) (e : MotionEvent) :
    Remembered (s.handleTouchpadButtons e) := by
  unfold State.handleTouchpadButtons
  split
  · refine h.lowers (fun sender button hsender => held_of_append fun e' hmem hsender' => ?_)
      (setHandler_mHeldButton rfl) rfl
    rw [List.mem_reverse, mem_checkButtons] at hmem
    exact absurd (hsender'.symm.trans hmem.1) hsender
  · exact h

theorem Remembered.delayedTap (h : Remembered s) (which : Which) (delayedTaps : Nat) :
    Remembered (s.setHandler which
      ({ s.handlers which with delayedTaps := delayedTaps },
        (s.handlers which).mInputStrategy.onTap (.strategy which) .left)) :=
  h.lowers (fun _ _ _ => held_onTap) (setHandler_mHeldButton rfl) rfl

theorem Remembered.dexTap (h : Remembered s) :
    Remembered (s.setDex (s.dexListener, sendMouseClick .dexListener .left)) :=
  h.lowers (fun _ _ _ => held_click) (fun _ => rfl) rfl

theorem Remembered.mouseDownRunnable (h : Remembered s) (hdown : s.down .dex = true)
    (dex : DexListener) :
    Remembered (s.setDex (dex, [⟨.dexListener, .left, true⟩])) where
  strategy := fun which button hheld =>
    h.strategy which button (held_of_append (fun e hmem hsender => by
      obtain rfl := List.mem_singleton.mp hmem
      cases hsender) hheld)
  dex := fun _ _ => hdown

/-- Loading the preferences with no button down keeps the invariant. -/
theorem Remembered.reloadPreferences (h : Remembered s)
    (hnone : ∀ which button, held (.strategy which) button s.log = false) (mode : InputMode)
    (tapToMove : Bool) :
    Remembered (s.reloadPreferences mode tapToMove) where
  strategy := fun which button hheld => by
    have := hnone which button
    rw [show held (.strategy which) button s.log = true from hheld] at this
    cases this
  dex := h.dex

/-- A gesture keeps the invariant. -/
theorem Remembered.notify {which : Which} {n : Notification} (h : Remembered s)
    (hcareful : Careful s (.notify which n)) :
    Remembered (s.setHandler which
      ((s.handlers which).notify (.strategy which) s.tapToMove n)) := by
  cases hholds : (s.handlers which).holds s.tapToMove n with
  | none =>
    obtain ⟨hstrategy, hsent⟩ := notify_of_not_holds (.strategy which) hholds
    refine h.lowers (fun sender button _ => ?_) (setHandler_mHeldButton (congrArg _ hstrategy)) rfl
    simp only [State.setHandler]
    rcases hsent with hsent | ⟨tapped, hsent⟩
    · rw [hsent]
      exact id
    · rw [hsent]
      exact held_onTap
  | some button =>
    obtain ⟨hstrategy, hsent⟩ := notify_of_holds (.strategy which) hholds
    obtain ⟨hdown, hothers⟩ := hcareful button hholds
    constructor
    · intro which' button' hheld
      simp only [State.setHandler, hsent] at hheld ⊢
      by_cases hwhich : which' = which
      · subst hwhich
        have hbutton : button' = button := by
          obtain ⟨e, hmem, -, hbutton, -⟩ | hwas := held_append hheld
          · obtain rfl := List.mem_singleton.mp hmem
            exact hbutton.symm
          · exact hothers button' hwas
        rw [Function.update_self, hbutton]
        exact ⟨hstrategy, hdown⟩
      · rw [Function.update_of_ne hwhich]
        refine h.strategy which' button' (held_of_append (fun e hmem hsender => ?_) hheld)
        obtain rfl := List.mem_singleton.mp hmem
        exact absurd (Sender.strategy.inj hsender).symm hwhich
    · intro button' hheld
      simp only [State.setHandler, hsent] at hheld
      refine h.dex button' (held_of_append (fun e hmem hsender => ?_) hheld)
      obtain rfl := List.mem_singleton.mp hmem
      cases hsender

/-! ## Events -/

variable {e : MotionEvent}

/-- Only the end of a gesture takes a pointer from its device. -/
theorem setDown_down {device : Device} (hdown : s.down device = true)
    (h : device = e.device → e.action ≠ .up ∧ e.action ≠ .cancel) :
    (s.setDown e).down device = true := by
  by_cases hdevice : device = e.device
  · obtain ⟨hup, hcancel⟩ := h hdevice
    unfold State.setDown
    split
    · subst hdevice
      exact Function.update_self ..
    · exact absurd ‹_› hup
    · exact absurd ‹_› hcancel
    · exact hdown
  · unfold State.setDown
    split <;> simp [Function.update_of_ne hdevice, hdown]

@[simp] theorem setDown_log : (s.setDown e).log = s.log := by
  unfold State.setDown
  split <;> rfl

@[simp] theorem setDown_handlers : (s.setDown e).handlers = s.handlers := by
  unfold State.setDown
  split <;> rfl

theorem which_device (hdex : e.isDexEvent = false) :
    e.device.which.device = e.device ∧ e.device ≠ .dex := by
  simp only [MotionEvent.device, hdex, Bool.false_eq_true, if_false]
  split
  · exact ⟨rfl, nofun⟩
  · exact ⟨rfl, nofun⟩

theorem Which.device_inj {which which' : Which} (h : which.device = which'.device) :
    which = which' := by
  cases which <;> cases which' <;> first | rfl | cases h

theorem carefulTouch_cancel (hdex : e.device ≠ .dex) (haction : e.action = .cancel)
    (hcareful : CarefulTouch s e)
    (button : Button) : held (.strategy e.device.which) button s.log = false := by
  unfold CarefulTouch at hcareful
  rw [haction] at hcareful
  cases hdevice : e.device with
  | dex => exact absurd hdevice hdex
  | touchscreen =>
    rw [hdevice] at hcareful
    exact hcareful button
  | touchpad =>
    rw [hdevice] at hcareful
    exact hcareful button

/-- An event that the strategy observes: an up releases what it remembers, and a cancel finds
nothing held. -/
theorem Remembered.strategyTouch (h : Remembered s) (hdex : e.isDexEvent = false)
    (hcareful : CarefulTouch s e) :
    Remembered ((s.setDown e).setHandler e.device.which
      ({ s.handlers e.device.which with
          mInputStrategy :=
  ((s.handlers e.device.which).mInputStrategy.onMotionEvent (.strategy e.device.which) e).1 },
        ((s.handlers e.device.which).mInputStrategy.onMotionEvent
          (.strategy e.device.which) e).2)) := by
  obtain ⟨hdevice, hne⟩ := which_device hdex
  have hcancel := fun haction => carefulTouch_cancel hne haction hcareful
  generalize e.device.which = which at hdevice hcancel ⊢
  have hsent :
      ∀ e' ∈ ((s.handlers which).mInputStrategy.onMotionEvent (.strategy which) e).2.reverse,
        e'.down = false := by
    intro e' hmem
    by_cases haction : e.action = .up
    · rw [(onMotionEvent_up haction _).2, List.mem_reverse, List.mem_map] at hmem
      obtain ⟨button, -, rfl⟩ := hmem
      rfl
    · rw [onMotionEvent_of_ne_up haction] at hmem
      cases hmem
  constructor
  · intro which' button hheld
    simp only [State.setHandler, setDown_log, setDown_handlers] at hheld ⊢
    have hwas := held_of_append (fun e' hmem _ => hsent e' hmem) hheld
    obtain ⟨hremembered, hdown⟩ := h.strategy which' button hwas
    by_cases hsame : which' = which
    · subst hsame
      have haction : e.action ≠ .up := by
        intro haction
        rw [not_held_of_released ⟨⟨.strategy which', button, false⟩, ?_, rfl⟩ fun e' hmem _ =>
          hsent e' hmem] at hheld
        · cases hheld
        · rw [(onMotionEvent_up haction _).2, hremembered]
          exact List.mem_singleton_self _
      rw [Function.update_self, onMotionEvent_of_ne_up haction]
      refine ⟨hremembered, setDown_down hdown fun _ => ⟨haction, fun haction => ?_⟩⟩
      rw [hcancel haction button] at hwas
      cases hwas
    · rw [Function.update_of_ne hsame]
      refine ⟨hremembered, setDown_down hdown fun h' => ?_⟩
      exact absurd (Which.device_inj (h'.trans hdevice.symm)) hsame
  · intro button hheld
    simp only [State.setHandler, setDown_log] at hheld
    refine setDown_down (h.dex button (held_of_append (fun e' hmem _ => hsent e' hmem) hheld))
      fun h' => ?_
    exact absurd h'.symm hne

/-! ## Events of DeX -/

theorem not_held_checkButtons {sender sender' : Sender} {savedBS currentBS : UInt32}
    {button : Button} {log : List MouseEvent}
    (hsaved : mouseButtonDown savedBS button.mask = true)
    (hcurrent : mouseButtonDown currentBS button.mask = false) :
    held sender button ((checkButtons sender' savedBS currentBS).reverse ++ log) = false := by
  refine not_held_of_released ⟨⟨sender', button, false⟩, ?_, rfl⟩ fun e hmem hbutton => ?_
  · rw [List.mem_reverse, mem_checkButtons, isMouseButtonChanged_iff, hsaved, hcurrent]
    exact ⟨rfl, rfl, nofun⟩
  · rw [List.mem_reverse, mem_checkButtons, hbutton, hcurrent] at hmem
    exact hmem.2.1

/-- A button that an event of DeX presses is down in it and was not before. -/
theorem presses_of_mem_checkButtons {d : DexListener} {e' : MouseEvent}
    (hmem : e' ∈ checkButtons .dexListener d.savedBS e.buttonState) (hdown : e'.down = true) :
    d.presses e e'.button = true := by
  obtain ⟨-, hcurrent, hchanged⟩ := mem_checkButtons.mp hmem
  rw [isMouseButtonChanged_iff, ← hcurrent, hdown, ne_eq, Bool.not_eq_true] at hchanged
  rw [DexListener.presses, ← hcurrent, hdown, hchanged]
  rfl

/-- What an up of DeX sends. -/
def DexListener.sentUp (d : DexListener) (e : MotionEvent) : List MouseEvent :=
  checkButtons .dexListener d.savedBS e.buttonState ++ if d.endsLeft e
    then [⟨.dexListener, .left, false⟩] else []

/-- The end of a touch releases what the listener holds. -/
theorem onTouch_up {d : DexListener} {next : DexListener × List MouseEvent}
    (haction : e.action = .up)
    (h : d.onTouch e = some next) : next.2 = d.sentUp e := by
  simp only [DexListener.onTouch, haction, Option.some.injEq] at h
  subst h
  simp only [DexListener.sentUp, DexListener.endsLeft]
  by_cases hscrolling : e.isScrollingEvent = true
  · simp [hscrolling]
  · by_cases hflags : e.hasFlags 0x4000000 = true
    · simp [hscrolling, hflags]
    · simp only [hscrolling, hflags, Bool.false_eq_true, if_false, Bool.not_false, Bool.true_and,
        Bool.false_or,
        Bool.not_not]
      split
      · rfl
      · exact (List.append_nil _).symm

theorem sender_checkButtons {s c : UInt32} :
    ∀ e' ∈ checkButtons .dexListener s c, e'.sender = .dexListener :=
  fun _ hmem => (mem_checkButtons.mp hmem).1

/-- The listener reports under its own name. -/
theorem onTouch_sender {d : DexListener} {next : DexListener × List MouseEvent}
    (h : d.onTouch e = some next) :
    ∀ e' ∈ next.2, e'.sender = .dexListener := by
  have hchecked := sender_checkButtons (s := d.savedBS) (c := e.buttonState)
  have hleft :
      ∀ down, ∀ e' ∈ checkButtons .dexListener d.savedBS e.buttonState ++
        [⟨.dexListener, .left, down⟩],
      e'.sender = .dexListener := by
    intro down e' hmem
    rcases List.mem_append.mp hmem with hmem | hmem
    · exact hchecked e' hmem
    · rw [List.mem_singleton.mp hmem]
  cases haction : e.action with
  | buttonPress | buttonRelease =>
    simp only [DexListener.onTouch, haction, Option.some.injEq] at h
    subst h
    exact hchecked
  | down | up =>
    simp only [DexListener.onTouch, haction, Option.some.injEq] at h
    subst h
    split
    · exact hchecked
    · split
      · first | exact hchecked | exact hleft false
      · split
        · exact hleft _
        · exact hchecked
  | hoverMove | move | hoverExit | cancel =>
    simp only [DexListener.onTouch, haction, Option.some.injEq] at h
    subst h
    nofun
  | outside | pointerDown | pointerUp | scroll | hoverEnter =>
    simp only [DexListener.onTouch, haction, reduceCtorEq] at h

/-- After an up that lets go of all of it, nothing is held. -/
theorem not_held_up {button : Button} (hdevice : e.device = .dex) (haction : e.action = .up)
    (hcareful : CarefulTouch s e) :
    held .dexListener button ((s.dexListener.sentUp e).reverse ++ s.log) = false := by
  simp only [CarefulTouch, hdevice, haction] at hcareful
  rw [← Bool.not_eq_true]
  intro hheld
  rw [DexListener.sentUp, List.reverse_append, List.append_assoc] at hheld
  by_cases hends : button = .left ∧ s.dexListener.endsLeft e = true
  · obtain ⟨rfl, hends⟩ := hends
    simp [hends, held] at hheld
  · -- the left button aside, what is let go of is released by `checkButtons`
    have hcheck := held_of_append (fun e' hmem _ => ?_) hheld
    · have hletsGo : s.dexListener.letsGo e button = true := by
        refine hcareful button ?_
        obtain ⟨e', hmem, -, rfl, hdown⟩ | hwas := held_append hcheck
        · exact .inr (presses_of_mem_checkButtons (List.mem_reverse.mp hmem) hdown)
        · exact .inl hwas
      simp only [DexListener.letsGo, Bool.or_eq_true, Bool.and_eq_true, Bool.not_eq_true',
        decide_eq_true_eq, hends,
        or_false] at hletsGo
      rw [not_held_checkButtons hletsGo.1 hletsGo.2] at hcheck
      cases hcheck
    · split at hmem
      · obtain rfl := List.mem_singleton.mp hmem
        rfl
      · cases hmem

/-- An event of DeX sends nothing that a strategy holds. -/
theorem Remembered.dexTouch {d' : DexListener} {sent : List MouseEvent} (h : Remembered s)
    (hdevice : e.device = .dex)
    (hsent : ∀ e' ∈ sent, e'.sender = .dexListener)
    (hdex : ∀ button, held .dexListener button (sent.reverse ++ s.log) = true →
      (s.setDown e).down .dex = true) :
    Remembered ((s.setDown e).setDex (d', sent)) := by
  constructor
  · intro which button hheld
    simp only [State.setDex, setDown_log, setDown_handlers] at hheld ⊢
    have hwas := held_of_append (fun e' hmem hsender => ?_) hheld
    · obtain ⟨hremembered, hdown⟩ := h.strategy which button hwas
      refine ⟨hremembered, setDown_down hdown fun h' => ?_⟩
      rw [hdevice] at h'
      cases which <;> cases h'
    · rw [hsent e' (List.mem_reverse.mp hmem)] at hsender
      cases hsender
  · intro button hheld
    simp only [State.setDex, setDown_log] at hheld
    exact hdex button hheld

/-- The listener of DeX. -/
theorem Remembered.onTouch {next : DexListener × List MouseEvent} (h : Remembered s)
    (hdevice : e.device = .dex)
    (hcareful : CarefulTouch s e) (hnext : s.dexListener.onTouch e = some next) :
    Remembered ((s.setDown e).setDex next) := by
  have hquiet :
      ∀ {button}, held .dexListener button s.log = true → e.action ≠ .up → e.action ≠ .cancel →
      (s.setDown e).down .dex = true :=
    fun hheld hup hcancel => setDown_down (h.dex _ hheld) fun _ => ⟨hup, hcancel⟩
  cases haction : e.action with
  | buttonPress | buttonRelease =>
    simp only [DexListener.onTouch, haction, Option.some.injEq] at hnext
    subst hnext
    refine h.dexTouch hdevice sender_checkButtons fun button hheld => ?_
    obtain ⟨e', hmem, -, -, hdown⟩ | hwas := held_append hheld
    · simp only [CarefulTouch, hdevice, haction] at hcareful
      refine setDown_down
        (hcareful _ (presses_of_mem_checkButtons (List.mem_reverse.mp hmem) hdown)) fun _ => ?_
      exact ⟨by rw [haction]; nofun, by rw [haction]; nofun⟩
    · exact hquiet hwas (by rw [haction]; nofun) (by rw [haction]; nofun)
  | down =>
    refine h.dexTouch hdevice (onTouch_sender hnext) fun button hheld => ?_
    simp only [State.setDown, haction, hdevice, Function.update_self]
  | up =>
    refine h.dexTouch hdevice (onTouch_sender hnext) fun button hheld => ?_
    rw [onTouch_up haction hnext, not_held_up hdevice haction hcareful] at hheld
    cases hheld
  | hoverMove | move | hoverExit =>
    simp only [DexListener.onTouch, haction, Option.some.injEq] at hnext
    subst hnext
    refine h.dexTouch hdevice nofun fun button hheld => hquiet hheld ?_ ?_
    all_goals rw [haction]; nofun
  | cancel =>
    simp only [DexListener.onTouch, haction, Option.some.injEq] at hnext
    subst hnext
    refine h.dexTouch hdevice nofun fun button hheld => ?_
    simp only [CarefulTouch, hdevice, haction] at hcareful
    rw [List.reverse_nil, List.nil_append, hcareful button] at hheld
    cases hheld
  | outside | pointerDown | pointerUp | scroll | hoverEnter =>
    simp only [DexListener.onTouch, haction, reduceCtorEq] at hnext

theorem device_of_isDexEvent (hdex : e.isDexEvent = true) : e.device = .dex := by
  rw [MotionEvent.device, if_pos hdex]

/-- What the listener of DeX does not take is no up and no cancel, and leaves all as it is. -/
theorem action_of_onTouch_none {d : DexListener} (h : d.onTouch e = none) :
    e.action ≠ .down ∧ e.action ≠ .up ∧ e.action ≠ .cancel := by
  refine ⟨fun haction => ?_, fun haction => ?_, fun haction => ?_⟩ <;>
    simp [DexListener.onTouch, haction] at h

theorem setDown_of_ne (hdown : e.action ≠ .down) (hup : e.action ≠ .up)
    (hcancel : e.action ≠ .cancel) :
    s.setDown e = s := by
  unfold State.setDown
  split <;> first | contradiction | rfl

/-- A careful touch keeps the invariant. -/
theorem Remembered.touch (h : Remembered s) (hcareful : Careful s (.touch e)) :
    Remembered (s.handleTouchEvent e) := by
  unfold State.handleTouchEvent
  split
  case isTrue => exact h
  case isFalse hmouse =>
    have hcareful := hcareful (Bool.not_eq_true _ ▸ hmouse)
    by_cases hdex : e.isDexEvent = true
    · rw [if_pos hdex]
      split
      case h_1 next hnext => exact h.onTouch (device_of_isDexEvent hdex) hcareful hnext
      case h_2 hnext =>
        obtain ⟨hdown, hup, hcancel⟩ := action_of_onTouch_none hnext
        simp only [setDown_of_ne hdown hup hcancel, onMotionEvent_of_ne_up hup]
        exact h.lowers (fun _ _ _ => id) (setHandler_mHeldButton rfl) rfl
    · rw [if_neg hdex]
      exact h.strategyTouch (Bool.not_eq_true _ ▸ hdex) hcareful

/-- **Step lemma.** Every careful input keeps the invariant. -/
theorem Remembered.step {s' : State} {input : Input} (h : Remembered s) (hcareful : Careful s input)
    (hstep : step s input = some s') : Remembered s' := by
  cases input with
  | touch e =>
    cases hstep
    exact h.touch hcareful
  | touchpadButtons e =>
    cases hstep
    exact h.touchpadButtons e
  | notify which n =>
    cases hstep
    exact h.notify hcareful
  | delayedTap which =>
    simp only [TouchInputHandler.step, Option.ite_none_right_eq_some, Option.some.injEq] at hstep
    obtain ⟨-, rfl⟩ := hstep
    exact h.delayedTap which _
  | dexTap =>
    cases hstep
    exact h.dexTap
  | mouseDownRunnable =>
    simp only [TouchInputHandler.step, Option.ite_none_right_eq_some, Option.some.injEq] at hstep
    obtain ⟨-, rfl⟩ := hstep
    exact h.mouseDownRunnable hcareful _
  | reloadPreferences mode tapToMove =>
    cases hstep
    exact h.reloadPreferences hcareful mode tapToMove

/-- **No gesture leaves a button held** in a run of careful steps. -/
theorem gestures_released {inputs : List Input} (hcareful : Meets step Careful start inputs)
    (hrun : run step start inputs = some s) :
    Released s :=
  (run_induction (fun h hcareful hstep => h.step hcareful hstep) remembered_start hcareful
    hrun).released

instance Button.decidableForall {p : Button → Prop} [DecidablePred p] :
    Decidable (∀ button, p button) :=
  decidable_of_iff (p .left ∧ p .middle ∧ p .right)
    ⟨fun ⟨hleft, hmiddle, hright⟩ button => by cases button <;> assumption,
      fun h => ⟨h _, h _, h _⟩⟩

instance Which.decidableForall {p : Which → Prop} [DecidablePred p] :
    Decidable (∀ which, p which) :=
  decidable_of_iff (p .main ∧ p .touchpad)
    ⟨fun ⟨hmain, htouchpad⟩ which => by cases which <;> assumption, fun h => ⟨h _, h _⟩⟩

instance CarefulTouch.decidable (s : State) (e : MotionEvent) : Decidable (CarefulTouch s e) := by
  unfold CarefulTouch
  split <;> infer_instance

instance Careful.decidable (s : State) : ∀ input, Decidable (Careful s input)
  | .touch e => inferInstanceAs (Decidable (e.isMouseEvent = false → CarefulTouch s e))
  | .notify which n =>
    inferInstanceAs (Decidable (∀ button, (s.handlers which).holds s.tapToMove n = some button →
      s.down which.device = true ∧ ∀ other, held (.strategy which) other s.log = true →
        other = button))
  | .mouseDownRunnable => inferInstanceAs (Decidable (s.down .dex = true))
  | .reloadPreferences _ _ =>
    inferInstanceAs (Decidable (∀ which button, held (.strategy which) button s.log = false))
  | .touchpadButtons _ => inferInstanceAs (Decidable True)
  | .delayedTap _ => inferInstanceAs (Decidable True)
  | .dexTap => inferInstanceAs (Decidable True)

/-- A finger holds the left button on the screen, and another drags on the touchpad of DeX. -/
def longPressAndDrag : List Input :=
  [.touch ⟨.down, SOURCE_TOUCHSCREEN, 0, 0, false⟩, .notify .main (.longPress 1 false),
    .touch ⟨.up, SOURCE_TOUCHSCREEN, 0, 0, false⟩, .reloadPreferences .simulatedTouch true,
    .touch ⟨.down, SOURCE_MOUSE ||| SOURCE_TOUCHSCREEN, 0x4000000, 0, false⟩, .mouseDownRunnable,
    .touch ⟨.up, SOURCE_MOUSE ||| SOURCE_TOUCHSCREEN, 0x4000000, 0, false⟩]

theorem gestures_released_longPressAndDrag :
    ∃ s, run step start longPressAndDrag = some s ∧ s.log.length = 4 ∧ Released s :=
  ⟨_, rfl, rfl,
    gestures_released (show Meets step Careful start longPressAndDrag by decide +kernel) rfl⟩

/-- A long press that Android cancels leaves the left button held. -/
def cancelledLongPress : List Input :=
  [.touch ⟨.down, SOURCE_TOUCHSCREEN, 0, 0, false⟩, .notify .main (.longPress 1 false),
    .touch ⟨.cancel, SOURCE_TOUCHSCREEN, 0, 0, false⟩]

theorem cancelledLongPress_held :
    ∃ s, run step start cancelledLongPress = some s ∧ ¬ Released s := by
  refine ⟨_, rfl, fun hreleased => ?_⟩
  have hfalse := hreleased (fun device => by cases device <;> rfl) (.strategy .main) nofun .left
  revert hfalse
  decide +kernel

end WinEmulator.X11.TouchInputHandler
