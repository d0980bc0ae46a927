import Mathlib.Logic.Function.Basic

/-!
# `InputXKB.c`: typing a keysym

`lorieKeysymKeyboardEvent` looks for a key that gives a keysym, fakes the modifiers it needs,
presses the key and undoes what it faked. The keyboard map, the state of the modifiers and the keys
that are down are those of the master keyboard after `mieqProcessInputEvents`, and what is queued
comes back as a list of events. Each event has the reason that the comments of the code give it.

A keycode of the map is at least `XkbMinLegalKeyCode`, so where the code returns 0 for none there is
no key here. Arrays are read as `NoSymbol` or as no action behind their end.
-/

set_option autoImplicit false

namespace WinEmulator.Lorie.InputXKB

abbrev KeyCode := Nat

abbrev KeySym := UInt32

def NoSymbol : KeySym := 0

def XK_Tab : KeySym := 0xff09

def XK_Mode_switch : KeySym := 0xff7e

def XK_Num_Lock : KeySym := 0xff7f

def XK_ISO_Level3_Shift : KeySym := 0xfe03

def ShiftMask : UInt32 := 1

def LockMask : UInt32 := 2

def XkbAlphabeticIndex : Nat := 2

/-! ## The keyboard map -/

inductive XkbActionType
  | SetMods
  | LockMods
  | other
deriving DecidableEq, Repr

structure XkbAction where
  type : XkbActionType
  /-- `XkbSA_UseModMapMods`. -/
  useModMapMods : Bool
  mask : UInt8
deriving DecidableEq, Repr

structure XkbKTMapEntry where
  active : Bool
  mods : UInt8
  level : Nat
deriving DecidableEq, Repr

structure XkbKeyType where
  mods : UInt8
  num_levels : Nat
  map : List XkbKTMapEntry
  preserve : Option (List UInt8)
deriving DecidableEq, Repr

/-- What the map has for a key. -/
structure XkbKey where
  group_info : UInt8
  width : Nat
  kt_index : List Nat
  syms : List KeySym
  acts : Option (List XkbAction)
  modmap : UInt8
deriving DecidableEq, Repr

structure XkbDesc where
  min_key_code : KeyCode
  max_key_code : KeyCode
  legal : 8 ≤ min_key_code ∧ max_key_code ≤ 255
  types : List XkbKeyType
  keys : KeyCode → XkbKey
  /-- The names of the keys, if there are any. -/
  names : Option (KeyCode → List Char)

namespace XkbDesc

variable (xkb : XkbDesc)

/-- The keycodes of the map, in the order of the loops over them. -/
def keycodes : List KeyCode :=
  List.range' xkb.min_key_code (xkb.max_key_code + 1 - xkb.min_key_code)

def numGroups (key : KeyCode) : Nat := ((xkb.keys key).group_info &&& 0x0f).toNat

def keyType (key : KeyCode) (group : Nat) : XkbKeyType :=
  xkb.types.getD ((xkb.keys key).kt_index.getD group 0) ⟨0, 0, [], none⟩

/-- `effectiveGroup`, for a key with groups. -/
def effectiveGroup (key : KeyCode) (mods : UInt32) : Nat :=
  let group := ((mods >>> 13) &&& 0x3).toNat
  let n := xkb.numGroups key
  if group < n then group
  else
    let info := (xkb.keys key).group_info
    if info &&& 0xc0 = 0x40 then n - 1
    else if info &&& 0xc0 = 0x80 then
      let number := ((info &&& 0x30) >>> 4).toNat
      if number < n then number else 0
    else group % n

/-- The entry of the type of a key that the modifiers select, with its place. -/
def entry (key : KeyCode) (mods : UInt32) : Option (XkbKTMapEntry × Nat) :=
  let type := xkb.keyType key (xkb.effectiveGroup key mods)
  type.map.zipIdx.find? fun (e, _) => e.active && mods &&& type.mods.toUInt32 == e.mods.toUInt32

/-- `col`. -/
def column (key : KeyCode) (mods : UInt32) : Nat :=
  xkb.effectiveGroup key mods * (xkb.keys key).width + ((xkb.entry key mods).map (·.1.level)).getD 0

def inRange (key : KeyCode) : Bool := xkb.min_key_code ≤ key && key ≤ xkb.max_key_code

/-- `XkbTranslateKeyCode`: the modifiers it returns and the keysym. -/
def translateKeyCode (key : KeyCode) (mods : UInt32) : UInt32 × KeySym :=
  if !xkb.inRange key || xkb.numGroups key = 0 then (0, NoSymbol)
  else
    let type := xkb.keyType key (xkb.effectiveGroup key mods)
    let preserve : UInt8 :=
      match xkb.entry key mods, type.preserve with
      | some (_, i), some preserve => preserve.getD i 0
      | _, _ => 0
    ((type.mods &&& ~~~preserve).toUInt32, (xkb.keys key).syms.getD (xkb.column key mods) NoSymbol)

/-- `XkbKeyActionPtr`. -/
def keyAction (key : KeyCode) (mods : UInt32) : Option XkbAction :=
  match (xkb.keys key).acts with
  | none => none
  | some acts =>
    if !xkb.inRange key || xkb.numGroups key = 0 then none
    else some (acts.getD (xkb.column key mods) ⟨.other, false, 0⟩)

/-- The modifiers of an action of a key. -/
def actionMods (key : KeyCode) (act : XkbAction) : UInt32 :=
  if act.useModMapMods then (xkb.keys key).modmap.toUInt32 else act.mask.toUInt32

/-- The modifiers that a key sets while it is down. -/
def setMods (key : KeyCode) (state : UInt32) : UInt32 :=
  match xkb.keyAction key state with
  | none => 0
  | some act => if act.type = .SetMods then xkb.actionMods key act else 0

end XkbDesc

/-! ## Case -/

/-- The letters of `XkbConvertCase`: the first and the last upper-case keysym of a run, and the
first lower-case one. -/
def letters : List (KeySym × KeySym × KeySym) :=
  [(0x41, 0x5a, 0x61), (0xc0, 0xd6, 0xe0), (0xd8, 0xde, 0xf8),
    (0x1a1, 0x1a1, 0x1b1), (0x1a3, 0x1a6, 0x1b3), (0x1a9, 0x1ac, 0x1b9), (0x1ae, 0x1af, 0x1be),
      (0x1c0, 0x1de, 0x1e0),
    (0x2a1, 0x2a6, 0x2b1), (0x2ab, 0x2ac, 0x2bb), (0x2c5, 0x2de, 0x2e5),
    (0x3a3, 0x3ac, 0x3b3), (0x3bd, 0x3bd, 0x3bf), (0x3c0, 0x3de, 0x3e0),
    (0x6b1, 0x6bf, 0x6a1), (0x6e0, 0x6ff, 0x6c0),
    (0x7a1, 0x7ab, 0x7b1), (0x7c1, 0x7d9, 0x7e1)]

/-- The Greek letters that have no upper case. -/
def lowerOnly : List KeySym := [0x7b6, 0x7ba, 0x7f3]

/-- `XkbConvertCase`: the lower-case and the upper-case keysym. -/
def XkbConvertCase (sym : KeySym) : KeySym × KeySym :=
  match letters.find? fun (first, last, lower) =>
      first ≤ sym && sym ≤ last || lower ≤ sym && sym ≤ lower + (last - first) &&
        !lowerOnly.contains sym with
  | none => (sym, sym)
  | some (first, last, lower) =>
    if first ≤ sym && sym ≤ last then (sym - first + lower, sym) else (sym, sym - lower + first)

/-! ## The keyboard -/

inductive Reason
  | keycode
  | tempShift
  | tempLevelThreeShift
deriving DecidableEq, Repr

/-- A call of `QueueKeyboardEvents`. -/
structure Event where
  press : Bool
  key : KeyCode
  reason : Reason
deriving DecidableEq, Repr

structure Keyboard where
  xkb : XkbDesc
  /-- `lorieGetKeyboardState()`. -/
  state : UInt32
  /-- `key_is_down`. -/
  down : KeyCode → Bool
  pressedKeys : KeyCode → KeySym
  /-- The key that was used last first. -/
  addedKeysyms : List (KeyCode × KeySym)

def fakeKeys : List KeyCode := [92, 203, 204, 205, 206, 207]

def altKeysym : List (KeySym × KeySym) :=
  [(0xffe1, 0xffe2), (0xffe3, 0xffe4), (0xffe7, 0xffe8), (0xffe9, 0xffea), (0xffeb, 0xffec),
    (0xffed, 0xffee),
    (0xff80, 0x20), (0xff89, 0xff09), (0xff8d, 0xff0d), (0xff91, 0xffbe), (0xff92, 0xffbf),
      (0xff93, 0xffc0),
    (0xff94, 0xffc1), (0xff95, 0xff50), (0xff96, 0xff51), (0xff97, 0xff52), (0xff98, 0xff53),
      (0xff99, 0xff54),
    (0xff9a, 0xff55), (0xff9b, 0xff56), (0xff9c, 0xff57), (0xff9d, 0xff58), (0xff9e, 0xff63),
      (0xff9f, 0xffff),
    (0xffbd, 0x3d), (0xffaa, 0x2a), (0xffab, 0x2b), (0xffac, 0x2c), (0xffad, 0x2d), (0xffae, 0x2e),
      (0xffaf, 0x2f),
    (0xffb0, 0x30), (0xffb1, 0x31), (0xffb2, 0x32), (0xffb3, 0x33), (0xffb4, 0x34), (0xffb5, 0x35),
      (0xffb6, 0x36),
    (0xffb7, 0x37), (0xffb8, 0x38), (0xffb9, 0x39), (0xfe03, 0xff7e)]

/-- The keysyms of the loops over `altKeysym`. -/
def alternatives (keysym : KeySym) : List KeySym :=
  altKeysym.filterMap fun (a, b) =>
    if a = keysym then some b else if b = keysym then some a else none

/-- Whether a key gives a keysym. -/
def XkbDesc.gives (xkb : XkbDesc) (keysym : KeySym) (state : UInt32) (key : KeyCode) : Bool :=
  let (consumed, ks) := xkb.translateKeyCode key state
  if ks = NoSymbol then false
  else
    let ks := if state &&& ~~~consumed &&& LockMask ≠ 0 then (XkbConvertCase ks).2 else ks
    ks == keysym

/-- `lorieKeysymToKeycode` without a new state. -/
def XkbDesc.keysymToKeycode (xkb : XkbDesc) (keysym : KeySym) (state : UInt32) : Option KeyCode :=
  (xkb.keycodes.find? fun key => xkb.gives keysym state key && !fakeKeys.contains key) <|>
    xkb.keycodes.find? (xkb.gives keysym state)

namespace Keyboard

variable (kb : Keyboard)

def lorieGetLevelThreeMask : UInt32 :=
  let state := kb.state &&& ~~~(0xff : UInt32)
  match kb.xkb.keysymToKeycode XK_ISO_Level3_Shift state <|>
    kb.xkb.keysymToKeycode XK_Mode_switch state with
  | none => 0
  | some keycode => kb.xkb.setMods keycode state

/-- The other value of some bits of the state. -/
def toggle (state mask : UInt32) : UInt32 :=
  (state &&& ~~~mask) ||| (if state &&& mask ≠ 0 then 0 else mask)

/-- `lorieKeysymToKeycode`: the key, and the state in which it gives the keysym. -/
def lorieKeysymToKeycode (keysym : KeySym) (state : UInt32) : Option (KeyCode × UInt32) :=
  let find (state : UInt32) : Option (KeyCode × UInt32) :=
    (kb.xkb.keysymToKeycode keysym state).map (·, state)
  find state <|> find (toggle state ShiftMask) <|>
    let mask := kb.lorieGetLevelThreeMask
    if mask = 0 then none
    else
      find (toggle state mask) <|>
        find ((state &&& ~~~(ShiftMask ||| mask)) |||
          (if state &&& ShiftMask ≠ 0 then 0 else ShiftMask) |||
          (if state &&& mask ≠ 0 then 0 else mask))

def loriePressShift : Option KeyCode :=
  if kb.state &&& ShiftMask ≠ 0 then none
  else kb.xkb.keycodes.find? fun key => kb.xkb.setMods key kb.state &&& ShiftMask == ShiftMask

/-- The keys that are down and set modifiers, unless there are more than fit into an array of 8. -/
def releaseMods (mask : UInt32) : List KeyCode :=
  let keys := kb.xkb.keycodes.filter fun key => kb.down key &&
    kb.xkb.setMods key kb.state &&& mask != 0
  if keys.length ≤ 8 then keys else []

def lorieReleaseShift : List KeyCode :=
  if kb.state &&& ShiftMask = 0 then [] else kb.releaseMods ShiftMask

def loriePressLevelThree : Option KeyCode :=
  let mask := kb.lorieGetLevelThreeMask
  if mask = 0 ∨ kb.state &&& mask ≠ 0 then none
  else
    match kb.xkb.keysymToKeycode XK_ISO_Level3_Shift kb.state <|>
      kb.xkb.keysymToKeycode XK_Mode_switch kb.state with
    | none => none
    | some keycode =>
      match kb.xkb.keyAction keycode kb.state with
      | none => none
      | some act => if act.type = .SetMods then some keycode else none

def lorieReleaseLevelThree : List KeyCode :=
  let mask := kb.lorieGetLevelThreeMask
  if mask = 0 ∨ kb.state &&& mask = 0 then [] else kb.releaseMods mask

def lorieIsAffectedByNumLock (keycode : KeyCode) : Bool :=
  let state := kb.state &&& ~~~(0xff : UInt32)
  match kb.xkb.keysymToKeycode XK_Num_Lock state with
  | none => false
  | some numlock =>
    match kb.xkb.keyAction numlock state with
    | none => false
    | some act =>
      if act.type ≠ .LockMods then false
      else
        let group :=
          if !kb.xkb.inRange keycode ||
          kb.xkb.numGroups keycode = 0 then 0 else kb.xkb.effectiveGroup keycode state
        (kb.xkb.keyType keycode group).mods.toUInt32 &&& kb.xkb.actionMods keycode act != 0

/-! ### Added keysyms -/

/-- `vncOnKeyUsed`. -/
def vncOnKeyUsed (keycode : KeyCode) : Keyboard :=
  match kb.addedKeysyms.find? (·.1 = keycode) with
  | none => kb
  | some used => { kb with addedKeysyms := used :: kb.addedKeysyms.eraseP (·.1 = keycode) }

/-- Whether nobody else has changed an added key. -/
def reusable (added : KeyCode × KeySym) : Bool :=
  0 < kb.xkb.numGroups added.1 && (kb.xkb.keys added.1).syms.getD 0 NoSymbol == added.2 &&
    match kb.xkb.names with
    | none => true
    | some names => (names added.1).head? == some 'T'

/-- `getReusableKeycode`, on the list with the oldest key first. -/
def oldestReusable : List (KeyCode × KeySym) → Option KeyCode × List (KeyCode × KeySym)
  | [] => (none, [])
  | last :: rest => if kb.reusable last then (some last.1, rest) else oldestReusable rest

def getReusableKeycode : Option KeyCode × Keyboard :=
  let (keycode, rest) := kb.oldestReusable kb.addedKeysyms.reverse
  (keycode, { kb with addedKeysyms := rest.reverse })

/-- The name of an added key. -/
def addedName (key : KeyCode) : List Char :=
  'T' :: [key / 100, key / 10, key].map fun n => Char.ofNat (0x30 + n % 10)

end Keyboard

/-- `XkbChangeTypesOfKey` to one alphabetic group, and the two keysyms of it. -/
def XkbDesc.mapKey (xkb : XkbDesc) (key : KeyCode) (lower upper : KeySym) : XkbDesc :=
  let old := xkb.keys key
  let type := xkb.types.getD XkbAlphabeticIndex ⟨0, 0, [], none⟩
  let kept := min (xkb.keyType key 0).num_levels type.num_levels
  let resized := xkb.numGroups key ≠ 0 ∧ (type.num_levels ≠ old.width ∨ xkb.numGroups key ≠ 1)
  let new : XkbKey :=
    { group_info := (old.group_info &&& 0xf0) ||| 1
      width := type.num_levels
      kt_index := XkbAlphabeticIndex :: old.kt_index.drop 1
      syms := [lower, upper]
      acts := old.acts.map fun acts => if resized then acts.take kept else acts
      modmap := old.modmap }
  { xkb with
    keys := Function.update xkb.keys key new
    names := xkb.names.map fun names => Function.update names key (Keyboard.addedName key) }

namespace Keyboard

/-- The key that `lorieAddKeysym` takes: the last one that is not used, or else the oldest one it
added. -/
def freeKeycode (kb : Keyboard) : Option KeyCode × Keyboard :=
  match kb.xkb.keycodes.reverse.find? fun key => kb.xkb.numGroups key = 0 with
  | some key => (some key, kb)
  | none => kb.getReusableKeycode

def lorieAddKeysym (kb : Keyboard) (keysym : KeySym) : Option KeyCode × Keyboard :=
  match kb.freeKeycode with
  | (none, kb) => (none, kb)
  | (some key, kb) =>
    let (lower, upper) := XkbConvertCase keysym
    (some key, { kb with
      xkb := kb.xkb.mapKey key lower upper, addedKeysyms := (key, lower) :: kb.addedKeysyms })

/-! ### The key -/

/-- The key for a keysym or an equivalent one. -/
def findKey (kb : Keyboard) (keysym : KeySym) : Option (KeyCode × UInt32) :=
  kb.lorieKeysymToKeycode keysym kb.state <|>
    (alternatives keysym).findSome? fun altsym => kb.lorieKeysymToKeycode altsym kb.state

/-- The key for a keysym, added if there is none. -/
def findOrAddKey (kb : Keyboard) (keysym : KeySym) : Option (KeyCode × UInt32) × Keyboard :=
  match kb.findKey keysym with
  | some found => (some found, kb)
  | none =>
    match kb.lorieAddKeysym keysym with
    | (none, kb) => (none, kb)
    | (some _, kb) => (kb.lorieKeysymToKeycode keysym kb.state, kb)

/-- A key of the numeric pad that needs another Shift is given up for an equivalent one that does
not. -/
def avoidNumpad (kb : Keyboard) (keysym : KeySym) (found : KeyCode × UInt32) : KeyCode × UInt32 :=
  let shifts (found : KeyCode × UInt32) : Bool :=
    kb.state &&& ShiftMask != found.2 &&& ShiftMask && kb.lorieIsAffectedByNumLock found.1
  if shifts found then
    (((alternatives keysym).filterMap fun altsym => kb.lorieKeysymToKeycode altsym kb.state).find?
      (!shifts ·)).getD found
  else found

/-- Shift is kept for Tab. -/
def keepShift (kb : Keyboard) (keysym : KeySym) (found : KeyCode × UInt32) : KeyCode × UInt32 :=
  if keysym = XK_Tab ∧ kb.state &&& ShiftMask ≠ 0 then (found.1, found.2 ||| ShiftMask) else found

/-- The key to press and the state to press it in. -/
def chooseKey (kb : Keyboard) (keysym : KeySym) : Option (KeyCode × UInt32) × Keyboard :=
  match kb.findOrAddKey keysym with
  | (none, kb) => (none, kb)
  | (some found, kb) => (some (kb.keepShift keysym (kb.avoidNumpad keysym found)), kb)

end Keyboard

/-! ## Faked modifiers -/

/-- How a modifier is faked. -/
inductive Fake
  | none
  | press (key : KeyCode)
  | release (keys : List KeyCode)
deriving DecidableEq, Repr

def Fake.events (reason : Reason) : Fake → List Event
  | .none => []
  | .press key => [⟨true, key, reason⟩]
  | .release keys => keys.map fun key => ⟨false, key, reason⟩

def Fake.undo (reason : Reason) : Fake → List Event
  | .none => []
  | .press key => [⟨false, key, reason⟩]
  | .release keys => keys.map fun key => ⟨true, key, reason⟩

namespace Keyboard

variable (kb : Keyboard)

/-- The fake that takes the state to another in some bits, or nothing where there is no key for
it. -/
def fake (mask new_state : UInt32) (press : Option KeyCode) (release : List KeyCode) :
    Option Fake :=
  if kb.state &&& mask = 0 ∧ new_state &&& mask ≠ 0 then press.map .press
  else if kb.state &&& mask ≠ 0 ∧
    new_state &&& mask = 0 then if release = [] then none else some (.release release)
  else some .none

def fakeShift (new_state : UInt32) : Option Fake :=
  kb.fake ShiftMask new_state kb.loriePressShift kb.lorieReleaseShift

/-- `level_three_mask`. -/
def levelThreeMask (new_state : UInt32) : UInt32 :=
  if new_state &&& ~~~ShiftMask ≠ kb.state &&& ~~~ShiftMask then kb.lorieGetLevelThreeMask else 0

def fakeLevelThree (new_state : UInt32) : Option Fake :=
  kb.fake (kb.levelThreeMask new_state) new_state kb.loriePressLevelThree kb.lorieReleaseLevelThree

/-- The loop that takes a keysym from the other keys, and what is stored for its key. -/
def storePressed (keycode : KeyCode) (keysym : KeySym) : Keyboard :=
  { kb with pressedKeys := fun i =>
      if i = keycode then keysym else if kb.pressedKeys i = keysym then NoSymbol
        else kb.pressedKeys i }

/-- `QueueKeyboardEvents` of a key the device cannot have queues nothing. -/
def queue (events : List Event) : List Event := events.filter fun e => 8 ≤ e.key && e.key ≤ 255

/-- `lorieKeysymKeyboardEvent(keysym, TRUE)`. -/
def press (keysym : KeySym) : List Event × Keyboard :=
  match kb.chooseKey keysym with
  | (none, kb) => ([], kb)
  | (some (keycode, new_state), kb) =>
    match kb.fakeShift new_state with
    | none => ([], kb)
    | some shift =>
      match kb.fakeLevelThree new_state with
      | none => (queue (shift.events .tempShift), kb)
      | some levelThree =>
        (queue (shift.events .tempShift ++ levelThree.events .tempLevelThreeShift ++
          [⟨true, keycode, .keycode⟩] ++
            levelThree.undo .tempLevelThreeShift ++ shift.undo .tempShift),
          (kb.vncOnKeyUsed keycode).storePressed keycode keysym)

/-- `lorieKeysymKeyboardEvent(keysym, FALSE)`. -/
def release (keysym : KeySym) : List Event × Keyboard :=
  match (List.range 256).find? fun i => kb.pressedKeys i = keysym with
  | none => ([], kb)
  | some i =>
    (queue [⟨false, i, .keycode⟩],
      { kb with pressedKeys := Function.update kb.pressedKeys i NoSymbol })

def lorieKeysymKeyboardEvent (keysym : KeySym) (down : Bool) : List Event × Keyboard :=
  if down then kb.press keysym else kb.release keysym

end Keyboard

end WinEmulator.Lorie.InputXKB
