import WinEmulator.Lib.Sessions
import WinEmulator.Lorie.StylusInput

/-!
# Stylus buttons

The buttons of a stylus event are compared with those of the event before, whatever device that was
for. So the buttons of each device are balanced as long as an event is for the device of the one
before it, or that one left no button pressed.
-/

set_option autoImplicit false

namespace WinEmulator.Lorie.StylusInput

open WinEmulator.Lib
open WinEmulator.Lib.Switches (isOn Alternates)

/-- The button of a device that an event turns. -/
def turn : DeviceIntPtr × PointerEvent → Option ((DeviceIntPtr × Nat) × Bool)
  | (_, .motionNotify) => none
  | (device, .buttonPress button) => some ((device, button), true)
  | (device, .buttonRelease button) => some ((device, button), false)

/-- The presses and releases in a queue. -/
def turns (queue : Queue) : List ((DeviceIntPtr × Nat) × Bool) := queue.filterMap turn

@[simp] theorem turns_motion (device : DeviceIntPtr) (queue : Queue) :
    turns ((device, .motionNotify) :: queue) = turns queue := rfl

@[simp] theorem turns_press (device : DeviceIntPtr) (button : Nat) (queue : Queue) :
    turns ((device, .buttonPress button) :: queue) = ((device, button), true) :: turns queue := rfl

@[simp] theorem turns_release (device : DeviceIntPtr) (button : Nat) (queue : Queue) :
    turns ((device, .buttonRelease button) :: queue) = ((device, button), false) :: turns queue :=
  rfl

/-- The bit of a button word. Button `i + 1` is bit `i`. -/
def bit (word : UInt32) (i : Nat) : Bool := word.toNat.testBit i

/-! ## The loop -/

theorem and_one_ne_zero (word : UInt32) : word &&& 0x1 ≠ 0 ↔ bit word 0 = true := by
  rw [ne_eq, ← UInt32.toNat_inj, UInt32.toNat_and]
  show ¬ word.toNat &&& 1 = 0 ↔ _
  rw [Nat.and_one_is_mod, bit, Nat.testBit_zero, decide_eq_true_iff]
  omega

theorem bit_shift (word : UInt32) (i : Nat) : bit (word >>> 1) i = bit word (i + 1) := by
  simp [bit, UInt32.toNat_shiftRight, Nat.testBit_shiftRight, Nat.add_comm]

/-- The released buttons are those that were down and are up. -/
theorem bit_xor_and_not (prev buttons : UInt32) (i : Nat) :
    bit ((prev ^^^ buttons) &&& ~~~buttons) i = (bit prev i && !bit buttons i) := by
  simp only [bit, ← UInt32.toNat_toBitVec, BitVec.testBit_toNat, UInt32.toBitVec_and,
    UInt32.toBitVec_xor, UInt32.toBitVec_not,
    BitVec.getLsbD_and, BitVec.getLsbD_xor, BitVec.getLsbD_not]
  by_cases hi : i < 32
  · cases prev.toBitVec.getLsbD i <;> cases buttons.toBitVec.getLsbD i <;> simp [hi]
  · simp [BitVec.getLsbD_of_ge prev.toBitVec i (by omega), hi]

/-- The pressed buttons are those that were up and are down. -/
theorem bit_xor_and (prev buttons : UInt32) (i : Nat) :
    bit ((prev ^^^ buttons) &&& buttons) i = (!bit prev i && bit buttons i) := by
  simp only [bit, UInt32.toNat_and, UInt32.toNat_xor, Nat.testBit_and, Nat.testBit_xor]
  cases prev.toNat.testBit i <;> cases buttons.toNat.testBit i <;> rfl

/-- What one round does to a button: it turns button `i + 1` of the device to what is left of the
words. -/
theorem turns_next (device : DeviceIntPtr) (l : Loop) (i : Nat)
    (h : ¬ (bit l.released 0 = true ∧ bit l.pressed 0 = true)) :
    turns (l.next device i).queue =
      if bit l.pressed 0 = bit l.released 0 then turns l.queue
      else ((device, i + 1), bit l.pressed 0) :: turns l.queue := by
  simp only [Loop.next, and_one_ne_zero]
  cases hr : bit l.released 0 <;> cases hp : bit l.pressed 0
  · rfl
  · rfl
  · rfl
  · exact absurd ⟨hr, hp⟩ h

/-- The loop after some rounds. -/
def rounds (device : DeviceIntPtr) (l : Loop) (n : Nat) : Loop :=
  (List.range n).foldl (Loop.next device) l

theorem rounds_succ (device : DeviceIntPtr) (l : Loop) (n : Nat) :
    rounds device l (n + 1) = (rounds device l n).next device n := by
  simp only [rounds, List.range_succ, List.foldl_append, List.foldl_cons, List.foldl_nil]

/-- The loop shifts both words by one button a round. -/
theorem bit_rounds (device : DeviceIntPtr) (l : Loop) (n i : Nat) :
    bit (rounds device l n).released i = bit l.released (n + i) ∧
      bit (rounds device l n).pressed i = bit l.pressed (n + i) := by
  induction n generalizing i with
  | zero => simp [rounds]
  | succ n ih =>
    rw [rounds_succ]
    simp only [Loop.next, bit_shift, ih (i + 1)]
    exact ⟨by congr 1; omega, by congr 1; omega⟩

variable {device d : DeviceIntPtr} {prev buttons : UInt32} {queue : Queue} {i : Nat}

/-- The loop for the two words that differ in the buttons that are to be turned. -/
def turned (device : DeviceIntPtr) (prev buttons : UInt32) (queue : Queue) (n : Nat) : Queue :=
  (rounds device ⟨(prev ^^^ buttons) &&& ~~~buttons, (prev ^^^ buttons) &&& buttons, queue⟩ n).queue

/-- One round turns its own button, when it has changed. -/
theorem turns_turned_succ (n : Nat) :
    turns (turned device prev buttons queue (n + 1)) =
      if bit prev n = bit buttons n then turns (turned device prev buttons queue n)
      else ((device, n + 1), bit buttons n) :: turns (turned device prev buttons queue n) := by
  obtain ⟨hr, hp⟩ :=
    bit_rounds device ⟨(prev ^^^ buttons) &&& ~~~buttons, (prev ^^^ buttons) &&& buttons, queue⟩ n 0
  rw [bit_xor_and_not, Nat.add_zero] at hr
  rw [bit_xor_and, Nat.add_zero] at hp
  have hdisjoint :
      ¬ ((bit prev n && !bit buttons n) = true ∧ (!bit prev n && bit buttons n) = true) := by
    cases bit prev n <;> simp
  rw [turned, rounds_succ, turns_next device _ n (by rw [hr, hp]; exact hdisjoint), hr, hp]
  cases bit prev n <;> cases bit buttons n <;> rfl

/-- A button is turned when its bits differ and its round has come. -/
theorem isOn_turned (n : Nat) :
    isOn (d, i + 1) (turns (turned device prev buttons queue n)) =
      if d = device ∧ i < n ∧
        bit prev i ≠ bit buttons i then bit buttons i else isOn (d, i + 1) (turns queue) := by
  induction n with
  | zero => simp [turned, rounds]
  | succ n ih =>
    rw [turns_turned_succ]
    by_cases hkey : (device, n + 1) = (d, i + 1)
    · obtain ⟨rfl, hn⟩ := Prod.mk.inj hkey
      obtain rfl := Nat.succ.inj hn
      split
      case isTrue heq => rw [ih]; simp [heq]
      case isFalse hne => simp [hne]
    · have hiff :
          (d = device ∧ i < n + 1 ∧ bit prev i ≠ bit buttons i) ↔ d = device ∧ i < n ∧
            bit prev i ≠ bit buttons i := by
        refine and_congr_right fun hd => and_congr_left fun _ => ?_
        have hin : i ≠ n := fun h => hkey (by rw [hd, h])
        omega
      simp only [hiff, ← ih]
      split
      · rfl
      · exact Switches.isOn_cons_of_ne hkey

/-- A button goes on alternating when it was as its bit in the old word says. -/
theorem alternates_turned (n : Nat) :
    Alternates (d, i + 1) (turns (turned device prev buttons queue n)) ↔
      Alternates (d, i + 1) (turns queue) ∧
        (d = device ∧ i < n ∧ bit prev i ≠ bit buttons i →
          isOn (d, i + 1) (turns queue) = bit prev i) := by
  induction n with
  | zero => simp [turned, rounds]
  | succ n ih =>
    rw [turns_turned_succ]
    by_cases hkey : (device, n + 1) = (d, i + 1)
    · obtain ⟨rfl, hn⟩ := Prod.mk.inj hkey
      obtain rfl := Nat.succ.inj hn
      split
      case isTrue heq => rw [ih]; simp [heq]
      case isFalse hne =>
        have hnot : (!bit buttons n) = bit prev n := by
          revert hne
          cases bit buttons n <;> cases bit prev n <;> simp
        rw [Switches.alternates_cons_self, isOn_turned, ih, hnot]
        simp [hne, and_comm]
    · have hiff :
          (d = device ∧ i < n + 1 ∧ bit prev i ≠ bit buttons i) ↔ d = device ∧ i < n ∧
            bit prev i ≠ bit buttons i := by
        refine and_congr_right fun hd => and_congr_left fun _ => ?_
        have hin : i ≠ n := fun h => hkey (by rw [hd, h])
        omega
      rw [hiff, ← ih]
      split
      · rfl
      · exact Switches.alternates_cons_of_ne hkey

/-! ## Events -/

/-- Whether a button of a device is pressed. Buttons count from 0 here. -/
def Server.pressed (s : Server) (device : DeviceIntPtr) (i : Nat) : Bool :=
  isOn (device, i + 1) (turns s.queue)

/-- The presses and releases of a button alternate, a press first. -/
def Server.Alternates (s : Server) (device : DeviceIntPtr) (i : Nat) : Prop :=
  Switches.Alternates (device, i + 1) (turns s.queue)

variable {s : Server} {e : Stylus}

theorem handleStylus_none (h : s.device e = none) : handleStylus e s = s := by
  simp only [handleStylus, h]

theorem queue_handleStylus (h : s.device e = some device) :
    (handleStylus e s).queue = turned device s.buttons_prev e.buttons.toUInt32
    ((device, .motionNotify) :: s.queue) 3 := by
  simp only [handleStylus, h, turned, rounds]

theorem buttons_prev_handleStylus (h : s.device e = some device) :
    (handleStylus e s).buttons_prev = e.buttons.toUInt32 := by
  simp only [handleStylus, h]

theorem devices_handleStylus : (handleStylus e s).devices = s.devices := by
  unfold handleStylus
  split <;> rfl

theorem device_mem_devices (h : s.device e = some device) : device ∈ s.devices := by
  simp only [Server.device] at h
  simp only [Server.devices, List.mem_cons, List.mem_append, Option.mem_toList]
  split at h
  · exact .inl (Option.some.inj h).symm
  · split at h
    · exact .inr (.inr h)
    · exact .inr (.inl h)

/-- A stylus event turns the changed buttons of its device, and no other. -/
theorem pressed_handleStylus (h : s.device e = some device) (hi : i < 3) :
    (handleStylus e s).pressed d i =
      if d = device ∧ bit s.buttons_prev i ≠ bit e.buttons.toUInt32 i then bit e.buttons.toUInt32 i
        else s.pressed d i := by
  rw [Server.pressed, queue_handleStylus h, isOn_turned]
  simp only [hi, true_and, turns_motion, Server.pressed]

/-- Presses and releases of a button go on alternating if the recorded state was right. -/
theorem alternates_handleStylus (h : s.device e = some device) (hi : i < 3) :
    (handleStylus e s).Alternates d i ↔
      s.Alternates d i ∧
        (d = device ∧ bit s.buttons_prev i ≠ bit e.buttons.toUInt32 i →
        s.pressed d i = bit s.buttons_prev i) := by
  rw [Server.Alternates, queue_handleStylus h, alternates_turned]
  simp only [hi, true_and, turns_motion, Server.pressed, Server.Alternates]

theorem queue_lorieSetStylusEnabled (enabled : Bool) :
    (lorieSetStylusEnabled enabled s).queue = s.queue := by
  cases enabled
  · rfl
  · simp only [lorieSetStylusEnabled, if_true]
    split <;> split <;> rfl

theorem buttons_prev_lorieSetStylusEnabled (enabled : Bool) :
    (lorieSetStylusEnabled enabled s).buttons_prev = s.buttons_prev := by
  cases enabled
  · rfl
  · simp only [lorieSetStylusEnabled, if_true]
    split <;> split <;> rfl

/-! ## Runs -/

/-- What is to hold of the server after a stylus event: its device, if there is one, holds the
buttons of the event and the other devices hold none. -/
def Holds (server : Server) (device : Option DeviceIntPtr) (e : Stylus) : Prop :=
  ∀ d ∈ server.devices, ∀ i < 3,
    server.pressed d i = (decide (device = some d) && e.buttons.toNat.testBit i)

/-- What is to hold when an action has been taken. -/
def Balanced (s : State) (a : Action) : Prop :=
  ∀ s', step s a = some s' →
    (∀ d, ∀ i < 3, s'.server.Alternates d i) ∧ ∀ e, a = .stylus e →
      Holds s'.server (s.server.device e) e

/-- The event is for the device of the one before, or that one left no button pressed. An event that
has no device is to find that of the one before gone. -/
def Continues (s : State) : Action → Prop
  | .stylus e =>
    (∀ i < 3, bit s.server.buttons_prev i = false) ∨
      match s.server.device e with
      | some device => s.last = some device
      | none => ∀ device ∈ s.last, device ∉ s.server.devices
  | .stylusEnable _ => True

/-- Every device holds what the handler goes by, if it is the last one, and else nothing. -/
structure Settled (s : State) : Prop where
  alternates : ∀ d, ∀ i < 3, s.server.Alternates d i
  pressed : ∀ d, ∀ i < 3,
    s.server.pressed d i = (decide (s.last = some d) && bit s.server.buttons_prev i)

theorem settled_start : Settled start where
  alternates _ _ _ := trivial
  pressed _ _ _ := rfl

theorem bit_toUInt32 (buttons : UInt8) (i : Nat) :
    bit buttons.toUInt32 i = buttons.toNat.testBit i := rfl

/-- The buttons a device starts an event with, when the event goes on where the last one left
off. -/
theorem Continues.pressed {s : State} (hsettled : Settled s) (hcont : Continues s (.stylus e))
    (h : s.server.device e = some device) (hi : i < 3) :
    s.server.pressed d i = (decide (d = device) && bit s.server.buttons_prev i) := by
  rw [hsettled.pressed d i hi]
  rcases hcont with hnone | hlast
  · simp [hnone i hi]
  · rw [h] at hlast
    simp only [hlast, Option.some.injEq, eq_comm]

/-- **The step lemma.** An event that goes on where the last one left off leaves the devices
settled. -/
theorem Settled.handleStylus {s : State} (hsettled : Settled s) (hcont : Continues s (.stylus e))
    (h : s.server.device e = some device) : Settled ⟨handleStylus e s.server, some device⟩ where
  alternates d i hi := by
    rw [alternates_handleStylus h hi]
    refine ⟨hsettled.alternates d i hi, fun ⟨hd, _⟩ => ?_⟩
    simp [hcont.pressed hsettled h hi, hd]
  pressed d i hi := by
    rw [pressed_handleStylus h hi, buttons_prev_handleStylus h, hcont.pressed hsettled h hi]
    by_cases hd : d = device
    · subst hd
      simp only [true_and, decide_true, Bool.true_and]
      split
      · rfl
      case isFalse heq => exact not_not.mp heq
    · have hd' : ¬ device = d := fun h => hd h.symm
      simp [hd, hd']

/-- **Step lemma.** An event that continues the stylus' history keeps the state settled. -/
theorem Settled.next {s s' : State} {a : Action} (hsettled : Settled s) (hcont : Continues s a)
    (h : step s a = some s') : Settled s' := by
  cases a with
  | stylus e =>
    cases h
    cases hdevice : s.server.device e with
    | none => simpa only [handleStylus_none hdevice, hdevice, Option.none_or] using hsettled
    | some device => simpa only [hdevice, Option.some_or] using hsettled.handleStylus hcont hdevice
  | stylusEnable enable =>
    cases h
    refine ⟨fun d i hi => ?_, fun d i hi => ?_⟩
    · simpa only [Server.Alternates, queue_lorieSetStylusEnabled] using hsettled.alternates d i hi
    · simpa only [Server.pressed, queue_lorieSetStylusEnabled, buttons_prev_lorieSetStylusEnabled]
        using
        hsettled.pressed d i hi

/-- An event whose device does not exist changes nothing. The devices that do exist hold nothing
then. -/
theorem balanced_none_iff {s : State} (hsettled : Settled s) (h : s.server.device e = none) :
    Balanced s (.stylus e) ↔ Continues s (.stylus e) := by
  have hsame :
      Balanced s (.stylus e) ↔ ∀ d ∈ s.server.devices, ∀ i < 3, s.server.pressed d i = false := by
    simp only [Balanced, step, Option.some.injEq, forall_eq', handleStylus_none h,
      Action.stylus.injEq, h, Holds, reduceCtorEq,
      decide_false, Bool.false_and]
    exact and_iff_right hsettled.alternates
  rw [hsame, Continues, h]
  constructor
  · intro hnone
    by_cases hgone : ∀ device ∈ s.last, device ∉ s.server.devices
    · exact .inr hgone
    · simp only [not_forall, not_not] at hgone
      obtain ⟨device, hlast, hmem⟩ := hgone
      refine .inl fun i hi => ?_
      have hpressed := hnone device hmem i hi
      rw [hsettled.pressed device i hi, Option.mem_def.mp hlast] at hpressed
      simpa using hpressed
  · rintro (hnone | hgone) d hd i hi
    · rw [hsettled.pressed d i hi, hnone i hi, Bool.and_false]
    · have hlast : s.last ≠ some d := fun h => hgone d h hd
      simp [hsettled.pressed d i hi, hlast]

/-- An event for a device that was not the last one turns the wrong way or not at all each button
that one left pressed. -/
theorem continues_of_balanced {s : State} (hsettled : Settled s)
    (h : s.server.device e = some device)
    (hbalanced : Balanced s (.stylus e)) : Continues s (.stylus e) := by
  simp only [Continues, h]
  by_cases hlast : s.last = some device
  · exact .inr hlast
  · refine .inl fun i hi => ?_
    obtain ⟨halternates, hholds⟩ := hbalanced _ rfl
    have hbefore : s.server.pressed device i = false := by
      simp [hsettled.pressed device i hi, hlast]
    by_cases hbit : bit s.server.buttons_prev i = bit e.buttons.toUInt32 i
    · -- The button is not turned, so it is not pressed after the event either.
      have hmem : device ∈ (handleStylus e s.server).devices := by
        rw [devices_handleStylus]
        exact device_mem_devices h
      have hafter := hholds e rfl device hmem i hi
      rw [pressed_handleStylus h hi, h] at hafter
      simp only [hbit, ne_eq, not_true, and_false, if_false, hbefore, decide_true, Bool.true_and]
        at hafter
      rw [hbit, bit_toUInt32, ← hafter]
    · rw [← ((alternates_handleStylus h hi).mp (halternates device i hi)).2 ⟨rfl, hbit⟩, hbefore]

/-- Such an event is balanced. -/
theorem balanced_of_continues {s : State} (hsettled : Settled s)
    (h : s.server.device e = some device)
    (hcont : Continues s (.stylus e)) : Balanced s (.stylus e) := by
  intro s' hstep
  have hnext := hsettled.next hcont hstep
  cases hstep
  refine ⟨hnext.alternates, fun e' he' d _ i hi => ?_⟩
  cases he'
  rw [hnext.pressed d i hi, h, Option.some_or, buttons_prev_handleStylus h, bit_toUInt32]

/-- In a settled state no other event is. -/
theorem balanced_iff {s : State} {a : Action} (hsettled : Settled s) :
    Balanced s a ↔ Continues s a := by
  cases a with
  | stylus e =>
    cases hdevice : s.server.device e with
    | none => exact balanced_none_iff hsettled hdevice
    | some device =>
      exact ⟨continues_of_balanced hsettled hdevice, balanced_of_continues hsettled hdevice⟩
  | stylusEnable enable =>
    refine iff_of_true (fun s' hstep => ⟨?_, fun e he => by cases he⟩) trivial
    exact (hsettled.next (a := .stylusEnable enable) trivial hstep).alternates

/-- **The buttons are balanced on every device** exactly when each event goes on where the last one
left off. -/
theorem balanced_always_iff (actions : List Action) :
    Meets step Balanced start actions ↔ Meets step Continues start actions := by
  have hpreserved : ∀ {s s' a}, Settled s → Continues s a → step s a = some s' → Settled s' :=
    fun hsettled hcont hstep => hsettled.next hcont hstep
  have hagree : ∀ {s a}, Settled s → (Balanced s a ↔ Continues s a) :=
    fun hsettled => balanced_iff hsettled
  exact meets_congr hpreserved hagree settled_start actions

/-- The pen is turned over while its first button is pressed. -/
def turnedOver : List Action :=
  [.stylusEnable 1,
    .stylus
      { x := 0, y := 0, pressure := 0, tilt_x := 0, tilt_y := 0, orientation := 0
        buttons := 1, eraser := 0, mouse := 0 },
    .stylus
      { x := 0, y := 0, pressure := 0, tilt_x := 0, tilt_y := 0, orientation := 0
        buttons := 0, eraser := 1, mouse := 0 }]

/-- The eraser is sent a release, and the pen keeps its press. -/
theorem turnedOver_unbalanced : ¬ Meets step Balanced start turnedOver := by
  rintro ⟨-, henable⟩
  obtain ⟨-, hpen⟩ := henable _ rfl
  obtain ⟨heraser, -⟩ := hpen _ rfl
  obtain ⟨halternates, -⟩ := heraser _ rfl
  have hrelease : isOn (4, 1) [((3, 1), true)] = true := (halternates 4 0 (by decide)).1 rfl
  exact absurd hrelease (by decide)

end WinEmulator.Lorie.StylusInput
