import WinEmulator.Lorie.InputXKB

/-!
# `InputXKB.c`: the key of a keysym

`lorieKeysymToKeycode` as it runs over a keyboard map: the loop with its fallback, and the states it
tries one after the other. What the map says of a key, `XkbTranslateKeyCode` and `XkbKeyActionPtr`,
is any function.
-/

set_option autoImplicit false

namespace WinEmulator.Lorie.InputXKB

/-- A keyboard map, by what is asked of it. -/
structure Keymap where
  min_key_code : KeyCode
  max_key_code : KeyCode
  legal : 8 ≤ min_key_code ∧ max_key_code ≤ 255
  /-- `XkbTranslateKeyCode`: the modifiers it returns and the keysym. -/
  translateKeyCode : KeyCode → UInt32 → UInt32 × KeySym
  /-- `XkbKeyActionPtr`. -/
  keyAction : KeyCode → UInt32 → Option XkbAction
  modmap : KeyCode → UInt8

namespace Keymap

variable (xkb : Keymap)

/-- The keycodes, in the order of the loop over them. -/
def keycodes : List KeyCode :=
  List.range' xkb.min_key_code (xkb.max_key_code + 1 - xkb.min_key_code)

/-- The loop over the keys, with the fallback it has found. No key has the keycode 0. -/
def scan (keysym : KeySym) (state : UInt32) : List KeyCode → KeyCode → KeyCode
  | [], fallback => fallback
  | key :: keys, fallback =>
    let (mods, ks) := xkb.translateKeyCode key state
    if ks = NoSymbol then scan keysym state keys fallback
    else
      let state_out := state &&& ~~~mods
      let ks := if state_out &&& LockMask ≠ 0 then (XkbConvertCase ks).2 else ks
      if ks ≠ keysym then scan keysym state keys fallback
      else if fakeKeys.contains key then
        scan keysym state keys (if fallback = 0 then key else fallback)
      else key

/-- `lorieKeysymToKeycode` with `NULL` for the new state. -/
def keycodeIn (keysym : KeySym) (state : UInt32) : KeyCode := xkb.scan keysym state xkb.keycodes 0

/-- `lorieGetLevelThreeMask`, where `keyboard` is `lorieGetKeyboardState()`. -/
def lorieGetLevelThreeMask (keyboard : UInt32) : UInt32 :=
  let state := keyboard &&& ~~~(0xff : UInt32)
  let keycode := xkb.keycodeIn XK_ISO_Level3_Shift state
  let keycode := if keycode = 0 then xkb.keycodeIn XK_Mode_switch state else keycode
  if keycode = 0 then 0
  else
    match xkb.keyAction keycode state with
    | none => 0
    | some act =>
      if act.type ≠ .SetMods then 0
      else if act.useModMapMods then (xkb.modmap keycode).toUInt32
      else act.mask.toUInt32

/-- Shift and Level 3 both at their other values. -/
def toggleBoth (state mask : UInt32) : UInt32 :=
  (state &&& ~~~(ShiftMask ||| mask)) ||| (if state &&& ShiftMask ≠ 0 then 0 else ShiftMask) |||
    (if state &&& mask ≠ 0 then 0 else mask)

/-- `lorieKeysymToKeycode`: the keycode and the new state. -/
def lorieKeysymToKeycode (keyboard : UInt32) (keysym : KeySym) (state : UInt32) :
    KeyCode × UInt32 :=
  let key := xkb.keycodeIn keysym state
  if key ≠ 0 then (key, state)
  else
    let new_state := Keyboard.toggle state ShiftMask
    let key := xkb.keycodeIn keysym new_state
    if key ≠ 0 then (key, new_state)
    else
      let level_three_mask := xkb.lorieGetLevelThreeMask keyboard
      if level_three_mask = 0 then (0, new_state)
      else
        let new_state := Keyboard.toggle state level_three_mask
        let key := xkb.keycodeIn keysym new_state
        if key ≠ 0 then (key, new_state)
        else
          let new_state := toggleBoth state level_three_mask
          (xkb.keycodeIn keysym new_state, new_state)

end Keymap

/-- The map of the server, by what is asked of it. -/
def XkbDesc.toKeymap (xkb : XkbDesc) : Keymap where
  min_key_code := xkb.min_key_code
  max_key_code := xkb.max_key_code
  legal := xkb.legal
  translateKeyCode := xkb.translateKeyCode
  keyAction := xkb.keyAction
  modmap key := (xkb.keys key).modmap

end WinEmulator.Lorie.InputXKB
