import WinEmulator.Laws.Lorie.BufferConversion
import WinEmulator.Laws.Lorie.BufferLock
import WinEmulator.Laws.Lorie.Display
import WinEmulator.Lorie.Pixmap

/-!
# Which pixmaps are flipped to

Two comparisons with the width of the screen stand where one with its height should. So on a screen
that is no square it is a square that is flipped to, and no pixmap of the screen's size.
-/

set_option autoImplicit false

namespace WinEmulator.Lorie.PixmapBuffer

variable {root : Root} {forceFlip : Option (List Char)} {calls : (width : Int32) → Calls width}
  {result : LockResult}
  {s : Flip} {priv : LoriePixmapPriv} {b : LorieBuffer}

/-- The activity can show a buffer, or the conversion will give it memory with which it can. -/
def Shareable (root : Root) (calls : (width : Int32) → Calls width) (b : LorieBuffer) : Prop :=
  b.type ≠ .regular ∨ target b (calls b.width) root.type root.format ≠ none

/-- A pixmap has a buffer that can be flipped to, whatever its size. -/
structure Flippable (root : Root) (forceFlip : Option (List Char))
    (calls : (width : Int32) → Calls width)
    (pixmap : Pixmap) (priv : LoriePixmapPriv) (b : LorieBuffer) : Prop where
  hasPriv : pixmap.priv = some priv
  hasBuffer : priv.buffer = some b
  mem : priv.mem = none
  shareable : Shareable root calls b
  allowed : ¬(b.type = .fd ∧ priv.imported ∧ ¬forceFlip = some ['1'])

/-- A pixmap has the size of the screen. -/
def Pixmap.Fills (pixmap : Pixmap) (root : Root) : Prop :=
  pixmap.width.toUInt32 = root.width ∧ pixmap.height.toUInt32 = root.height

/-- The activity can show the buffer of a pixmap, and knows it. -/
def Shown (s : Flip) : Prop :=
  ∃ priv b, s.pixmap.priv = some priv ∧ priv.buffer = some b ∧
    (b.type = .fd ∨ b.type = .ahardwarebuffer) ∧
    (s.registry.conn_fd ≠ none → b.id ∈ s.registry.registeredBuffers)

/-- What a flip should do. -/
structure Correct (root : Root) (calls : (width : Int32) → Calls width) (s : Flip) (returned : Bool)
    (s' : Flip) :
    Prop where
  sound : returned = true → s.pixmap.Fills root ∧ Shown s'
  complete : ∀ priv b, s.pixmap.priv = some priv → priv.buffer = some b → s.pixmap.Fills root →
    priv.imported = false →
    priv.mem = none → Shareable root calls b → returned = true
  kept : returned = false → s'.pixmap = s.pixmap

/-! ## The buffer -/

theorem type_ne_regular_iff {type : BufferType} :
    type ≠ .regular ↔ type = .fd ∨ type = .ahardwarebuffer := by
  cases type with
  | regular => exact ⟨fun h => absurd rfl h, fun h => by rcases h with h | h <;> cases h⟩
  | fd => exact ⟨fun _ => .inl rfl, fun _ h => by cases h⟩
  | ahardwarebuffer => exact ⟨fun _ => .inr rfl, fun _ h => by cases h⟩

/-- A lock changes neither the type nor the id. -/
theorem lock_same (result : LockResult) (b : LorieBuffer) (out : Option Block) :
    ∃ b', (LorieBuffer_lock result (some b) out).2.1 = some b' ∧ b'.type = b.type ∧
      b'.id = b.id := by
  cases hlocked : b.locked with
  | true => exact ⟨b, congrArg (·.2.1) (LorieBuffer_lock_locked result out hlocked), rfl, rfl⟩
  | false =>
    obtain ⟨lockedData, heq⟩ := LorieBuffer_lock_unlocked result out hlocked
    exact ⟨{ b with lockedData, locked := true }, congrArg (·.2.1) heq, rfl, rfl⟩

/-- A buffer that cannot be shared is not changed. -/
theorem convertPixmap_of_target_none (hpriv : s.pixmap.priv = some priv)
    (hbuffer : priv.buffer = some b)
    (htype : b.type = .regular) (h : target b (calls b.width) root.type root.format = none) :
    convertPixmap root calls result s priv b = (s, b) := by
  have hsame : { priv with buffer := some b } = priv := by rw [← hbuffer]
  have hpixmap : { s.pixmap with priv := some priv } = s.pixmap := by rw [← hpriv]
  simp only [convertPixmap, convert_of_target_none h, htype, ne_eq, not_true_eq_false, if_false,
    hsame, hpixmap]

/-- A buffer that can be shared is of a type that can be shown, and in the pixmap. -/
theorem convertPixmap_of_target (result : LockResult) (s : Flip) (priv : LoriePixmapPriv)
    (h : target b (calls b.width) root.type root.format ≠ none) :
    (convertPixmap root calls result s priv b).2.type ≠ .regular ∧
      ∃ priv' b', (convertPixmap root calls result s priv b).1.pixmap.priv = some priv' ∧
        priv'.buffer = some b' ∧
        b'.type = (convertPixmap root calls result s priv b).2.type ∧
        b'.id = (convertPixmap root calls result s priv b).2.id := by
  obtain ⟨⟨block, stride⟩, htarget⟩ := Option.ne_none_iff_exists'.mp h
  obtain ⟨-, -, hgiven⟩ := convert_of_target s.memory htarget
  have htype := hgiven.type
  simp only [convertPixmap, if_pos htype]
  obtain ⟨b', hb', hsame⟩ :=
    lock_same result (LorieBuffer_convert s.memory b (calls b.width) root.type root.format).2
    priv.locked
  exact ⟨htype, _, b', rfl, hb', hsame⟩

/-! ## The flip -/

/-- Registering a shareable buffer shows the pixmap. -/
theorem shown_register {registry : Registry} (hpriv : s.pixmap.priv = some priv)
    (hbuffer : priv.buffer = some b)
    (htype : b.type ≠ .regular) : Shown { s with registry := registry.lorieRegisterBuffer b.id } :=
  ⟨priv, b, hpriv, hbuffer, type_ne_regular_iff.mp htype, fun hconn =>
    Registry.mem_register (by rwa [Registry.conn_fd_register] at hconn)⟩

/-- A flip that returns `TRUE` shows the pixmap. -/
theorem loriePresentFlip_true (result : LockResult)
    (h : Flippable root forceFlip calls s.pixmap priv b)
    (hwidth : root.width = s.pixmap.width.toUInt32)
    (hheight : root.width = s.pixmap.height.toUInt32) :
    (loriePresentFlip root forceFlip calls result s).1 = true ∧
      Shown (loriePresentFlip root forceFlip calls result s).2 := by
  have hguard :
      ¬(priv.mem ≠ none ∨ root.width ≠ s.pixmap.width.toUInt32 ∨
        root.width ≠ s.pixmap.height.toUInt32) := by
    rw [not_or, not_or]
    exact ⟨not_not_intro h.mem, not_not_intro hwidth, not_not_intro hheight⟩
  simp only [loriePresentFlip, h.hasPriv, h.hasBuffer, if_neg hguard, if_neg h.allowed]
  by_cases hregular : b.type = .regular
  · have htarget := h.shareable.resolve_left (not_not_intro hregular)
    obtain ⟨htype, priv', b', hpriv', hbuffer', htype', hid⟩ :=
      convertPixmap_of_target result s priv htarget
    have hshown := not_and_or.mpr ((type_ne_regular_iff.mp htype).imp not_not_intro not_not_intro)
    rw [if_pos hregular, if_neg hshown, ← hid]
    exact ⟨rfl, shown_register hpriv' hbuffer' (htype' ▸ htype)⟩
  · have hshown :=
      not_and_or.mpr ((type_ne_regular_iff.mp hregular).imp not_not_intro not_not_intro)
    rw [if_neg hregular, if_neg hshown]
    exact ⟨rfl, shown_register h.hasPriv h.hasBuffer hregular⟩

/-- What is not flipped to is not changed either. -/
theorem loriePresentFlip_false (result : LockResult)
    (h : ∀ priv b, Flippable root forceFlip calls s.pixmap priv b →
      root.width = s.pixmap.width.toUInt32 →
      root.width ≠ s.pixmap.height.toUInt32) :
    loriePresentFlip root forceFlip calls result s = (false, s) := by
  unfold loriePresentFlip
  split
  case h_1 => rfl
  case h_2 priv hpriv =>
    split
    case h_1 => rfl
    case h_2 b hbuffer =>
      split
      case isTrue => rfl
      case isFalse hguard =>
        obtain ⟨hmem, hwidth, hheight⟩ := (not_or.mp hguard).imp not_not.mp not_or.mp
        split
        case isTrue => rfl
        case isFalse hallowed =>
          have hnot : ¬Shareable root calls b := fun hshareable =>
            h priv b ⟨hpriv, hbuffer, hmem, hshareable, hallowed⟩ (not_not.mp hwidth)
              (not_not.mp hheight)
          obtain ⟨hregular, htarget⟩ := (not_or.mp hnot).imp not_not.mp not_not.mp
          rw [if_pos hregular, convertPixmap_of_target_none hpriv hbuffer hregular htarget]
          exact if_pos (by rw [hregular]; exact ⟨nofun, nofun⟩)

/-- **A flip accepts exactly what can be shown** on a screen that is a square. On any other it must
not be asked for a square of the screen's width, nor for a pixmap of the screen's size. -/
theorem correct_iff (root : Root) (forceFlip : Option (List Char))
    (calls : (width : Int32) → Calls width)
    (result : LockResult) (s : Flip) :
    Correct root calls s (loriePresentFlip root forceFlip calls result s).1
        (loriePresentFlip root forceFlip calls result s).2 ↔
      root.width = root.height ∨ ∀ priv b, Flippable root forceFlip calls s.pixmap priv b →
        s.pixmap.width.toUInt32 = root.width → s.pixmap.height.toUInt32 ≠ root.width ∧
          (s.pixmap.height.toUInt32 = root.height → priv.imported = true) := by
  by_cases hflips : ∃ priv b, Flippable root forceFlip calls s.pixmap priv b ∧
    root.width = s.pixmap.width.toUInt32 ∧
      root.width = s.pixmap.height.toUInt32
  · obtain ⟨priv, b, hflippable, hwidth, hheight⟩ := hflips
    obtain ⟨htrue, hshown⟩ := loriePresentFlip_true result hflippable hwidth hheight
    constructor
    · intro h
      obtain ⟨-, hheight'⟩ := (h.sound htrue).1
      exact .inl (hheight.trans hheight')
    · rintro (hsquare | hnever)
      · refine ⟨fun _ => ⟨⟨hwidth.symm, hheight.symm.trans hsquare⟩, hshown⟩,
          fun _ _ _ _ _ _ _ _ => htrue, fun hfalse => ?_⟩
        exact Bool.noConfusion (htrue.symm.trans hfalse)
      · exact absurd hheight.symm (hnever priv b hflippable hwidth.symm).1
  · have hnone :
        ∀ priv b, Flippable root forceFlip calls s.pixmap priv b →
          root.width = s.pixmap.width.toUInt32 →
        root.width ≠ s.pixmap.height.toUInt32 := fun priv b hflippable hwidth hheight =>
      hflips ⟨priv, b, hflippable, hwidth, hheight⟩
    rw [loriePresentFlip_false result hnone]
    constructor
    · intro h
      refine or_iff_not_imp_left.mpr fun _ priv b hflippable hwidth => ⟨?_, fun hheight => ?_⟩
      · exact (hnone priv b hflippable hwidth.symm).symm
      · by_contra himported
        exact Bool.noConfusion
          (h.complete priv b hflippable.hasPriv hflippable.hasBuffer ⟨hwidth, hheight⟩
          (Bool.not_eq_true _ ▸ himported) hflippable.mem hflippable.shareable)
    · intro h
      refine ⟨nofun, fun priv b hpriv hbuffer hfills himported hmem hshareable => ?_, fun _ => rfl⟩
      have hallowed : ¬(b.type = .fd ∧ priv.imported ∧ ¬forceFlip = some ['1']) := by
        rw [himported]
        exact fun hnot => Bool.noConfusion hnot.2.1
      have hflippable : Flippable root forceFlip calls s.pixmap priv b :=
        ⟨hpriv, hbuffer, hmem, hshareable, hallowed⟩
      rcases h with hsquare | hnever
      · exact absurd (hsquare.trans hfills.2.symm) (hnone priv b hflippable hfills.1.symm)
      · exact Bool.noConfusion
          (himported.symm.trans ((hnever priv b hflippable hfills.1).2 hfills.2))

/-- A pixmap of the screen's size, the buffer of which can be shown as it is. -/
def fullScreen : Flip where
  memory := fun _ _ => 0
  registry := ⟨some 0, [], []⟩
  pixmap := ⟨1280, 1024, 5120, some (hardwareBacked 1280 1024 false)⟩

/-- Calls that all fail. -/
def noCalls {width : Int32} : Calls width where
  page_size := 4096
  createRegion := -1
  mmap := none
  AHardwareBuffer_allocate := none
  AHardwareBuffer_lock := ⟨-22, none⟩
  pixman_blt := false

/-- It is not flipped to. -/
theorem not_correct_fullScreen :
    ¬Correct ⟨1280, 1024, false, false⟩ (fun _ => noCalls) fullScreen
      (loriePresentFlip ⟨1280, 1024, false, false⟩ none (fun _ => noCalls) ⟨0, none⟩ fullScreen).1
      (loriePresentFlip ⟨1280, 1024, false, false⟩ none (fun _ => noCalls)
        ⟨0, none⟩ fullScreen).2 := by
  intro h
  exact absurd (h.complete _ _ rfl rfl ⟨rfl, rfl⟩ rfl rfl (.inl nofun)) (by decide)

/-! ## The display -/

/-- The pixmap as the display knows it. -/
def Pixmap.displayed (pixmap : Pixmap) (priv : LoriePixmapPriv) (b : LorieBuffer) :
    Display.Pixmap where
  id := b.id
  width := pixmap.width.toNat
  height := pixmap.height.toNat
  mem := priv.mem.isSome
  imported := priv.imported
  type := b.type

/-- The environment of the flip as the display knows it. -/
def flipEnv (root : Root) (forceFlip : Option (List Char)) (calls : (width : Int32) → Calls width)
    (memory : Memory)
    (b : LorieBuffer) : Display.FlipEnv where
  forceFlip := forceFlip = some ['1']
  converted := (LorieBuffer_convert memory b (calls b.width) root.type root.format).2.type

/-- Which buffers the activity can be given, after the conversion. -/
theorem shareable_iff (memory : Memory) :
    Shareable root calls b ↔
      (if b.type =
        .regular then (LorieBuffer_convert memory b (calls b.width) root.type root.format).2.type
        else b.type) ≠ .regular := by
  unfold Shareable
  by_cases htype : b.type = .regular
  · rw [if_pos htype]
    refine (or_iff_right (not_not_intro htype)).trans
      ⟨fun htarget => ?_, fun hconverted htarget => ?_⟩
    · obtain ⟨⟨block, stride⟩, hgiven⟩ := Option.ne_none_iff_exists'.mp htarget
      exact (convert_of_target memory hgiven).2.2.type
    · rw [convert_of_target_none htarget] at hconverted
      exact hconverted htype
  · rw [if_neg htype]
    exact or_iff_left_of_imp fun _ => htype

/-- The flip of the connection's model accepts the same pixmaps. -/
theorem display_flip_iff (hpriv : s.pixmap.priv = some priv) (hbuffer : priv.buffer = some b) :
    Display.loriePresentFlip (flipEnv root forceFlip calls s.memory b) root.width.toNat
      (s.pixmap.displayed priv b) = true ↔
      Flippable root forceFlip calls s.pixmap priv b ∧ root.width = s.pixmap.width.toUInt32 ∧
        root.width = s.pixmap.height.toUInt32 := by
  have hside (side : UInt16) : root.width.toNat = side.toNat ↔ root.width = side.toUInt32 := by
    rw [← UInt32.toNat_inj, UInt16.toNat_toUInt32]
  have hmem : priv.mem.isSome = false ↔ priv.mem = none :=
    Option.isSome_eq_false_iff.trans Option.isNone_iff_eq_none
  simp only [Display.loriePresentFlip, flipEnv, Pixmap.displayed, Bool.and_eq_true, beq_iff_eq,
    Bool.not_eq_true',
    bne_iff_ne, hside, hmem]
  constructor
  · rintro ⟨⟨⟨⟨hmem, hwidth⟩, hheight⟩, hallowed⟩, hshareable⟩
    refine ⟨⟨hpriv, hbuffer, hmem, (shareable_iff s.memory).mpr hshareable, fun hnot => ?_⟩, hwidth,
      hheight⟩
    simp [hnot.1, hnot.2.1, hnot.2.2] at hallowed
  · rintro ⟨hflippable, hwidth, hheight⟩
    refine ⟨⟨⟨⟨hflippable.mem, hwidth⟩, hheight⟩, Bool.eq_false_iff.mpr fun hnot => ?_⟩,
      (shareable_iff s.memory).mp hflippable.shareable⟩
    simp only [Bool.and_eq_true, Bool.not_eq_true', decide_eq_false_iff_not] at hnot
    exact hflippable.allowed ⟨of_decide_eq_true hnot.1.1, hnot.1.2, hnot.2⟩

/-- The display decides as `loriePresentFlip` does. -/
theorem loriePresentFlip_eq_display (result : LockResult) (hpriv : s.pixmap.priv = some priv)
    (hbuffer : priv.buffer = some b) :
    (loriePresentFlip root forceFlip calls result s).1 =
      Display.loriePresentFlip (flipEnv root forceFlip calls s.memory b) root.width.toNat
        (s.pixmap.displayed priv b) := by
  cases hdisplay :
    Display.loriePresentFlip (flipEnv root forceFlip calls s.memory b) root.width.toNat
      (s.pixmap.displayed priv b) with
  | true =>
    obtain ⟨hflippable, hwidth, hheight⟩ := (display_flip_iff hpriv hbuffer).mp hdisplay
    exact (loriePresentFlip_true result hflippable hwidth hheight).1
  | false =>
    rw [loriePresentFlip_false result fun priv' b' hflippable hwidth hheight => ?_]
    obtain rfl := Option.some.inj (hpriv.symm.trans hflippable.hasPriv)
    obtain rfl := Option.some.inj (hbuffer.symm.trans hflippable.hasBuffer)
    have htrue := (display_flip_iff hpriv hbuffer).mpr ⟨hflippable, hwidth, hheight⟩
    exact Bool.noConfusion (hdisplay.symm.trans htrue)

end WinEmulator.Lorie.PixmapBuffer
