import WinEmulator.Lorie.Pixmap

/-!
# What a failed lock leaves

`LorieBuffer_lock` marks a buffer as locked before it looks at the error of the platform, and
`loriePrepareAccess` returns with `state->lock` held. So a lock that failed once is not tried again,
and one that is left held is never given back.
-/

set_option autoImplicit false

namespace WinEmulator.Lorie.PixmapBuffer

/-- A buffer that could not be locked is as it was. -/
def LockKeeps (result : LockResult) (buffer : Option LorieBuffer) : Prop :=
  ∀ b out, buffer = some b → b.locked = false → (LorieBuffer_lock result buffer out).1 ≠ 0 →
    ∃ b', (LorieBuffer_lock result buffer out).2.1 = some b' ∧ b'.locked = b.locked ∧
      b'.lockedData = b.lockedData

/-- A pixmap whose access could not be prepared is as it was, and `state->lock` is not held for
it. -/
def PrepareKeeps (result : LockResult) (index : Int32) (isScreenPixmap : Bool) (s : Access) :
    Prop :=
  (loriePrepareAccess result index isScreenPixmap s).1 = false →
    (loriePrepareAccess result index isScreenPixmap s).2.lock = s.lock ∧
      (loriePrepareAccess result index isScreenPixmap s).2.priv = s.priv

variable {result : LockResult} {buffer : Option LorieBuffer} {b : LorieBuffer} {out : Option Block}
  {index : Int32}
  {isScreenPixmap : Bool} {s : Access}

/-! ## The buffer -/

theorem LorieBuffer_lock_locked (result : LockResult) (out : Option Block) (h : b.locked = true) :
    LorieBuffer_lock result (some b) out = (EEXIST, some b, b.lockedData) :=
  if_pos h

/-- Whatever happens, a buffer is locked afterwards. -/
theorem LorieBuffer_lock_unlocked (result : LockResult) (out : Option Block)
    (h : b.locked = false) :
    ∃ lockedData, LorieBuffer_lock result (some b) out =
      (if b.type = .ahardwarebuffer then result.error else 0,
        some { b with lockedData, locked := true }, lockedData) := by
  have hlocked : ¬b.locked = true := Bool.eq_false_iff.mp h
  simp only [LorieBuffer_lock, if_neg hlocked]
  split
  case h_1 htype => exact ⟨b.data, Prod.ext (if_neg (htype ▸ nofun)).symm rfl⟩
  case h_2 htype => exact ⟨b.data, Prod.ext (if_neg (htype ▸ nofun)).symm rfl⟩
  case h_3 htype => exact ⟨_, Prod.ext (if_pos htype).symm rfl⟩

/-- The lock keeps the buffer's state unless it fails on an unlocked hardware buffer. -/
theorem lockKeeps_iff :
    LockKeeps result buffer ↔
      ∀ b, buffer = some b → b.locked = false → b.type = .ahardwarebuffer → result.error = 0 := by
  constructor
  · intro h b hb hlocked htype
    subst hb
    by_contra herror
    obtain ⟨lockedData, heq⟩ := LorieBuffer_lock_unlocked result none hlocked
    have hfails : (LorieBuffer_lock result (some b) none).1 ≠ 0 := by
      rw [heq, if_pos htype]
      exact herror
    obtain ⟨b', hb', hkept, -⟩ := h b none rfl hlocked hfails
    rw [heq] at hb'
    obtain rfl := Option.some.inj hb'
    exact Bool.noConfusion (hkept.trans hlocked)
  · intro h b out hb hlocked hfails
    subst hb
    obtain ⟨lockedData, heq⟩ := LorieBuffer_lock_unlocked result out hlocked
    rw [heq] at hfails
    refine absurd ?_ hfails
    split
    case isTrue htype => exact h b rfl hlocked htype
    case isFalse => rfl

/-- If the platform does not fail, an error means that the buffer is `NULL` or locked already. -/
theorem lock_error_iff (out : Option Block) (h : LockKeeps result buffer) :
    (LorieBuffer_lock result buffer out).1 ≠ 0 ↔ ∀ b, buffer = some b → b.locked = true := by
  cases buffer with
  | none => exact ⟨fun _ _ => nofun, fun _ => show ENODEV ≠ 0 by decide⟩
  | some b =>
    cases hlocked : b.locked with
    | true =>
      rw [LorieBuffer_lock_locked result out hlocked]
      refine ⟨fun _ b' hb' => ?_, fun _ => show EEXIST ≠ 0 by decide⟩
      rw [← Option.some.inj hb']
      exact hlocked
    | false =>
      obtain ⟨lockedData, heq⟩ := LorieBuffer_lock_unlocked result out hlocked
      have hzero : (LorieBuffer_lock result (some b) out).1 = 0 := by
        rw [heq]
        split
        case isTrue htype => exact lockKeeps_iff.mp h b rfl hlocked htype
        case isFalse => rfl
      refine ⟨fun hne => absurd hzero hne, fun hall => ?_⟩
      exact Bool.noConfusion ((hall b rfl).symm.trans hlocked)

/-! ## The pixmap -/

/-- What is held for an access. -/
def held (index : Int32) (isScreenPixmap : Bool) : Nat :=
  if index = EXA_PREPARE_DEST ∧ isScreenPixmap then 1 else 0

theorem held_eq_zero_iff :
    held index isScreenPixmap = 0 ↔ ¬(index = EXA_PREPARE_DEST ∧ isScreenPixmap) := by
  unfold held
  split
  case isTrue h => exact ⟨nofun, fun hn => absurd h hn⟩
  case isFalse h => exact ⟨fun _ => h, fun _ => rfl⟩

/-- `loriePrepareAccess` by its cases. -/
theorem loriePrepareAccess_eq (result : LockResult) (index : Int32) (isScreenPixmap : Bool)
    (s : Access) :
    loriePrepareAccess result index isScreenPixmap s =
      if s.priv.locked = none ∧ s.priv.mem = none then
        let l := LorieBuffer_lock result s.priv.buffer s.priv.locked
        let priv := { s.priv with buffer := l.2.1, locked := l.2.2 }
        if l.1 ≠ 0 then (false, { s with lock := s.lock + held index isScreenPixmap, priv })
        else (true, ⟨s.lock + held index isScreenPixmap, { priv with wasLocked := false },
          priv.locked.or priv.mem⟩)
      else (true, ⟨s.lock + held index isScreenPixmap, { s.priv with wasLocked := true },
          s.priv.locked.or s.priv.mem⟩) := by
  unfold loriePrepareAccess held
  by_cases h : index = EXA_PREPARE_DEST ∧ isScreenPixmap = true
  · rw [if_pos h, if_pos h]
  · rw [if_neg h, if_neg h]
    rfl

/-- An access fails for a pixmap that has no pixels yet, if those of its buffer cannot be locked. -/
theorem prepare_failed (h : (loriePrepareAccess result index isScreenPixmap s).1 = false) :
    s.priv.locked = none ∧ s.priv.mem = none ∧
      (LorieBuffer_lock result s.priv.buffer s.priv.locked).1 ≠ 0 := by
  rw [loriePrepareAccess_eq] at h
  split at h
  case isTrue hnone =>
    simp only at h
    split at h
    case isTrue herr => exact ⟨hnone.1, hnone.2, herr⟩
    case isFalse => cases h
  case isFalse => cases h

theorem loriePrepareAccess_of_error (hlocked : s.priv.locked = none) (hmem : s.priv.mem = none)
    (herr : (LorieBuffer_lock result s.priv.buffer s.priv.locked).1 ≠ 0) :
    loriePrepareAccess result index isScreenPixmap s =
      (false, { s with
        lock := s.lock + held index isScreenPixmap
        priv := { s.priv with
          buffer := (LorieBuffer_lock result s.priv.buffer s.priv.locked).2.1
          locked := (LorieBuffer_lock result s.priv.buffer s.priv.locked).2.2 } }) := by
  rw [loriePrepareAccess_eq, if_pos ⟨hlocked, hmem⟩]
  exact if_pos herr

/-! ## An access that ends -/

/-- Preparing takes the lock for the destination on the screen pixmap alone. -/
theorem lock_prepared (result : LockResult) (index : Int32) (isScreenPixmap : Bool) (s : Access) :
    (loriePrepareAccess result index isScreenPixmap s).2.lock =
      s.lock + held index isScreenPixmap := by
  rw [loriePrepareAccess_eq]
  split
  case isTrue =>
    simp only
    split
    case isTrue => rfl
    case isFalse => rfl
  case isFalse => rfl

/-- Finishing gives back what preparing has taken. -/
theorem lock_finished (unlocked : Int32) (index : Int32) (isScreenPixmap : Bool) (s : Access) :
    (lorieFinishAccess unlocked index isScreenPixmap s).lock =
      s.lock - held index isScreenPixmap := by
  unfold lorieFinishAccess held
  by_cases h : index = EXA_PREPARE_DEST ∧ isScreenPixmap = true
  · simp only [if_pos h]
    split
    · rfl
    · rfl
  · simp only [if_neg h, Nat.sub_zero]
    split
    · rfl
    · rfl

/-- What is held for an access is given back when the access is finished, and nowhere else. -/
theorem lock_finish_prepare (result : LockResult) (unlocked index : Int32) (isScreenPixmap : Bool)
    (s : Access) :
    (lorieFinishAccess unlocked index isScreenPixmap
      (loriePrepareAccess result index isScreenPixmap s).2).lock = s.lock := by
  rw [lock_finished, lock_prepared, Nat.add_sub_cancel]

/-! ## An access that fails -/

/-- **A failed lock leaves nothing locked** if the platform does not fail, and a pixmap whose buffer
is `NULL` or locked already is not drawn to as the screen, nor given the memory of that buffer. -/
theorem keeps_iff (result : LockResult) (index : Int32) (isScreenPixmap : Bool) (s : Access) :
    LockKeeps result s.priv.buffer ∧ PrepareKeeps result index isScreenPixmap s ↔
      (∀ b, s.priv.buffer = some b → b.locked = false → b.type = .ahardwarebuffer →
        result.error = 0) ∧
        (s.priv.locked = none → s.priv.mem = none →
          (∀ b, s.priv.buffer = some b → b.locked = true) →
          ¬(index = EXA_PREPARE_DEST ∧ isScreenPixmap) ∧ ∀ b, s.priv.buffer = some b →
            b.lockedData = none) := by
  rw [← lockKeeps_iff]
  refine and_congr_right fun hlock => ⟨fun hprepare hlocked hmem hall => ?_, fun h hfailed => ?_⟩
  · have herr := (lock_error_iff s.priv.locked hlock).mpr hall
    obtain ⟨hheld, hpriv⟩ :=
      hprepare (congrArg Prod.fst (loriePrepareAccess_of_error hlocked hmem herr))
    rw [loriePrepareAccess_of_error hlocked hmem herr] at hheld hpriv
    refine ⟨held_eq_zero_iff.mp (Nat.add_eq_left.mp hheld), fun b hb => ?_⟩
    have hdata : (LorieBuffer_lock result s.priv.buffer s.priv.locked).2.2 = s.priv.locked :=
      congrArg LoriePixmapPriv.locked hpriv
    rw [hb, LorieBuffer_lock_locked result _ (hall b hb), hlocked] at hdata
    exact hdata
  · obtain ⟨hlocked, hmem, herr⟩ := prepare_failed hfailed
    have hall := (lock_error_iff _ hlock).mp herr
    obtain ⟨hscreen, hdata⟩ := h hlocked hmem hall
    rw [loriePrepareAccess_of_error hlocked hmem herr, held_eq_zero_iff.mpr hscreen]
    refine ⟨rfl, ?_⟩
    -- nothing is written that was not there
    have hsame : LorieBuffer_lock result s.priv.buffer s.priv.locked =
        ((LorieBuffer_lock result s.priv.buffer s.priv.locked).1, s.priv.buffer,
            s.priv.locked) := by
      cases hbuffer : s.priv.buffer with
      | none => rfl
      | some b => rw [LorieBuffer_lock_locked result _ (hall b hbuffer), hdata b hbuffer, hlocked]
    rw [hsame]

/-- A pixmap that is backed by a hardware buffer and not accessed. -/
def hardwareBacked (width height : Int32) (imported : Bool) : LoriePixmapPriv where
  buffer := some
    { width
      height
      stride := width
      format := AHARDWAREBUFFER_FORMAT_B8G8R8A8_UNORM
      type := .ahardwarebuffer
      id := 0
      buffer := some ⟨0, width, Int32.le_refl width⟩
      data := none
      locked := false
      lockedData := none
      fd := -1
      size := 0
      offset := 0
      regular := nofun }
  wasLocked := false
  imported
  locked := none
  mem := none

/-- The screen pixmap, whose buffer `lorieCreatePixmap` could not lock. -/
def failedAtCreation : LoriePixmapPriv :=
  let (_, buffer, locked) := LorieBuffer_lock ⟨-22, none⟩ (hardwareBacked 1 1 false).buffer none
  { hardwareBacked 1 1 false with buffer, locked }

/-- After the error the buffer of an imported pixmap is locked; the next access to a screen pixmap
like it keeps `state->lock`. -/
theorem not_keeps_hardware :
    ¬LockKeeps ⟨-22, none⟩ (hardwareBacked 1 1 true).buffer ∧
      ¬PrepareKeeps ⟨0, none⟩ EXA_PREPARE_DEST true ⟨0, failedAtCreation, none⟩ ∧
      (loriePrepareAccess ⟨0, none⟩ EXA_PREPARE_DEST true ⟨0, failedAtCreation, none⟩).2.lock =
        1 := by
  refine ⟨fun h => ?_, fun h => ?_, rfl⟩
  · obtain ⟨b', hb', hkept, -⟩ := h _ none rfl rfl (by decide)
    rw [← Option.some.inj hb'] at hkept
    cases hkept
  · exact absurd (h rfl).1 (by decide)

end WinEmulator.Lorie.PixmapBuffer
