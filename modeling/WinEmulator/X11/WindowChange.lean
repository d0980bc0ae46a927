import WinEmulator.Lorie.ActivityMessage
import WinEmulator.Lorie.CmdEntryPoint
import WinEmulator.X11.DisplaySettings

/-!
# From the size of the display to the X server

`surfaceChanged` of `LorieView.java` gives the size that `getDimensionsFromSettings` has set to the
callback of `MainActivity.java`. That sends it over the connection, and `sendConfigureNotify` of
`cmdentrypoint.c` reads it from the event.
-/

set_option autoImplicit false

namespace WinEmulator.X11.WindowChange

open WinEmulator.Lib
open WinEmulator.Lorie
open WinEmulator.X11.DisplaySettings
open WinEmulator.X11.LoriePreferences

/-- What `Callback.changed` is called with. -/
structure Changed where
  surfaceWidth : Int32
  surfaceHeight : Int32
  screenWidth : Int32
  screenHeight : Int32

/-- What `lorieConfigureNotify` is called with. -/
structure Configure where
  width : Int32
  height : Int32
  framerate : Int32
  name : List UInt8
deriving DecidableEq

def surfaceChanged (prefs : SharedPreferences) (mMeasuredWidth mMeasuredHeight : UInt32) :
    Except Thrown Changed :=
  (getDimensionsFromSettings prefs mMeasuredWidth mMeasuredHeight).map fun (x, y) =>
    ⟨getMeasured mMeasuredWidth, getMeasured mMeasuredHeight, x, y⟩

/-- The callback, on a display with a refresh rate and a name. -/
def changed (framerate : Int32) (name : JStringUTF) (c : Changed) : ActivityMessage :=
  .sendWindowChange c.screenWidth c.screenHeight framerate (some name)

def sendConfigureNotify (size : ScreenSize) (name : List UInt8) : Configure :=
  ⟨Int32.ofNat size.width.toNat, Int32.ofNat size.height.toNat,
    Int32.ofNat size.framerate.toNat, name⟩

/-- `EVENT_SCREEN_SIZE` of `handleLorieEvents`, when what comes after the event is `payload`. -/
def handleScreenSize (e : LorieEvent) (payload : List UInt8) : Option Configure :=
  match route e with
  | .now (.screenSize size name) => some (sendConfigureNotify size name)
  | .name size => some (sendConfigureNotify size (block size.name_size.toNat payload))
  | _ => none

section

variable (android_to_linux_keycode : Int32 → Int32) (junk : LorieEvent)

/-- What the X server makes of a call of the activity. -/
def received (m : ActivityMessage) : Option Configure :=
  (m.event android_to_linux_keycode junk).bind fun e => handleScreenSize e m.payload

/-- What `lorieConfigureNotify` is called with when the surface has changed. -/
def configured (prefs : SharedPreferences) (mMeasuredWidth mMeasuredHeight : UInt32)
    (framerate : Int32)
    (name : JStringUTF) : Except Thrown (Option Configure) :=
  (surfaceChanged prefs mMeasuredWidth mMeasuredHeight).map fun c =>
    received android_to_linux_keycode junk (changed framerate name c)

end

end WinEmulator.X11.WindowChange
