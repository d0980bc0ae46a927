import Mathlib.Data.Option.Basic

/-!
# `InitOutput.c`: the size of the screen

`lorieConfigureNotify` makes a mode with `libxcvt_gen_mode_info`, sets it for the output and gives
the screen its size, which replaces the screen pixmap. Memory does not run out. The timings of a
mode are left out: they are floating point, and nothing here reads them. So are the damage, the clip
and the contents of the pixmaps.
-/

set_option autoImplicit false

namespace WinEmulator.Lorie.ConfigureNotify

/-- `hdisplay` and `vdisplay` of `struct libxcvt_mode_info`. -/
structure ModeInfo where
  hdisplay : UInt32
  vdisplay : UInt32
deriving DecidableEq

/-- The size of an `RRModeRec`. -/
structure RRMode where
  width : UInt16
  height : UInt16
deriving DecidableEq

structure Pixmap where
  id : Nat
  width : UInt16
  height : UInt16
deriving DecidableEq

/-- What changes the mode of the screen or its pixmap. -/
inductive Call
  | outputSetModes (mode : RRMode)
  | crtcNotify (mode : RRMode)
  | setScreenPixmap (pixmap : Pixmap)
deriving DecidableEq

structure Output where
  name : List UInt8
  modes : List RRMode
deriving DecidableEq

/-- `pvfb->root`. -/
structure Root where
  width : UInt32
  height : UInt32
  name : List UInt8
  framerate : UInt32
deriving DecidableEq

structure State where
  /-- `pScreen->width`. -/
  width : Int16
  height : Int16
  root : Root
  /-- The size of the root window. -/
  drawableWidth : UInt16
  drawableHeight : UInt16
  /-- `RRFirstOutput`. -/
  output : Option Output
  screenPixmap : Pixmap
  nextPixmap : Nat
  vblank_interval : UInt64
  cursorMoved : Bool
  calls : List Call
deriving DecidableEq

/-- What `libxcvt_gen_mode_info` makes of a size without margins. -/
def libxcvt_gen_mode_info (hdisplay vdisplay : Int32) : ModeInfo :=
  let hdisplay_rnd := hdisplay.toUInt32 - hdisplay.toUInt32 % 8
  -- the FWXGA hack, because 1366 is no multiple of 8
  if hdisplay_rnd = 1360 ∧ vdisplay.toUInt32 = 768 then ⟨1366, 768⟩
  else ⟨hdisplay_rnd, vdisplay.toUInt32⟩

def lorieCvt (width height : Int32) : RRMode :=
  let info := libxcvt_gen_mode_info width height
  ⟨info.hdisplay.toUInt16, info.vdisplay.toUInt16⟩

def lorieRRScreenSetSize (s : State) (width height : UInt16) : State :=
  let pixmap : Pixmap := ⟨s.nextPixmap, width, height⟩
  { s with
    width := width.toInt16
    height := height.toInt16
    root := { s.root with
      width := width.toInt16.toInt32.toUInt32, height := height.toInt16.toInt32.toUInt32 }
    drawableWidth := width
    drawableHeight := height
    screenPixmap := pixmap
    nextPixmap := s.nextPixmap + 1
    cursorMoved := true
    calls := s.calls ++ [.setScreenPixmap pixmap] }

/-- `strncpy` into a buffer that was cleared, up to its end. -/
def strncpy (name : List UInt8) (n : Nat) : List UInt8 := (name.take n).takeWhile fun c => c ≠ 0

/-- The name of the output is set, and kept for a reset of the server. -/
def setName (s : State) (name_size : UInt64) (name : List UInt8) : State :=
  let copied := strncpy name (min name_size.toNat 1024)
  { s with
    root := { s.root with name := copied }
    output := s.output.map fun output => { output with name := copied.take 1023 } }

/-- The size and the frame rate are other ones. -/
def Differs (s : State) (width height framerate : Int32) : Prop :=
  width ≠ 0 ∧ height ≠ 0 ∧
    (s.width.toInt32 ≠ width ∨ s.height.toInt32 ≠ height ∨ s.root.framerate ≠ framerate.toUInt32)

instance (s : State) (width height framerate : Int32) :
    Decidable (Differs s width height framerate) :=
  inferInstanceAs (Decidable (_ ∧ _ ∧ (_ ∨ _ ∨ _)))

def setMode (s : State) (width height framerate : Int32) : State :=
  let mode := lorieCvt width height
  let s := { s with
    output := s.output.map fun output => { output with modes := [mode] }
    calls := s.calls ++ [.outputSetModes mode, .crtcNotify mode] }
  let s := lorieRRScreenSetSize s mode.width mode.height
  { s with
    root := { s.root with framerate := framerate.toUInt32 }
    vblank_interval := (1000000 / framerate.toUInt32).toUInt64 }

def lorieConfigureNotify (s : State) (width height framerate : Int32) (name_size : UInt64)
    (name : Option (List UInt8)) :
    State :=
  let framerate := if framerate = 0 then 30 else framerate
  let s := match name with
    | some name => if s.output.isSome then setName s name_size name else s
    | none => s
  if s.output.isSome ∧ Differs s width height framerate then setMode s width height framerate else s

end WinEmulator.Lorie.ConfigureNotify
