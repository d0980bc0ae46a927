import WinEmulator.App.ProotRootfs

/-!
# `SettingViewModel.kt`: the login user of each rootfs

`onChangeRootfsLoginUser` rebuilds the stored map from rootfs names to users: it takes the map
`generalState` shows, puts the new pair into it, and for every rootfs directory keeps the user it
finds there if the rootfs still has one of that name. What `generalState` shows is the empty map
before its first emission and some map that was stored earlier afterwards; nothing ties it to the
stored one.

A rename of a rootfs ends with such a call, for the user `getPreferredUser` finds under the new
name.
-/

set_option autoImplicit false

namespace WinEmulator.App

/-- A `Map<String, String>` from rootfs names to user names. -/
abbrev UserMap := Text → Option Text

/-- `Map.plus`. -/
def UserMap.plus (m : UserMap) (rootfs user : Text) : UserMap :=
  fun k => if k = rootfs then some user else m k

/-- The rootfs directories: the names `rootfsAllDir.list()` gives, and the lines of each one's
`/etc/passwd`. -/
structure RootfsDirs where
  names : List Text
  passwd : Text → Option (List Text)

/-- `getRootfsList`: all of them but the link `current`. -/
def RootfsDirs.getRootfsList (dirs : RootfsDirs) : List Text := dirs.names.erase "current".toList

/-- The stored map, the one `generalState.value` shows, and the users the screen offers. -/
structure LoginUsers where
  stored : UserMap
  generalState : UserMap
  rootfsUsersOptions : Text → Option (List UserInfo) := fun _ => none

/-- Whether `GeneralRootfsSelect` throws at a rootfs of its list. -/
def GeneralRootfsSelect.throws (rootfsToLoginUserMap : UserMap)
    (loginUsersOptions : Text → Option (List Text))
    (rootfsName : Text) : Bool :=
  match loginUsersOptions rootfsName, rootfsToLoginUserMap rootfsName with
  | some userNameOptions, some userName => !userNameOptions.contains userName
  | _, _ => false

variable (digit : Char → Option Nat)

/-- `getRootfsUsersOptions`. -/
def RootfsDirs.getRootfsUsersOptions (dirs : RootfsDirs) (rootfs : Text) : Option (List UserInfo) :=
  if rootfs ∈ dirs.getRootfsList then some (ProotRootfs.getUserInfos digit (dirs.passwd rootfs))
  else none

namespace LoginUsers

/-- `onChangeRootfsLoginUser(rootfsName, userName)`. -/
def onChangeRootfsLoginUser (s : LoginUsers) (dirs : RootfsDirs) (rootfsName userName : Text) :
    LoginUsers :=
  let rootfsUsersOptions := dirs.getRootfsUsersOptions digit
  let unfilteredMap := s.generalState.plus rootfsName userName
  { s with
    rootfsUsersOptions := rootfsUsersOptions
    stored := fun k =>
      (rootfsUsersOptions k).map fun v => (ProotRootfs.getPreferredUser (unfilteredMap k) v).name }

end LoginUsers

end WinEmulator.App
