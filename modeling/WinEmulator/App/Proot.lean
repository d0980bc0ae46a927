import WinEmulator.App.ProotRootfs
import WinEmulator.Lib.Lines
import WinEmulator.Lib.LinkedMap
import WinEmulator.Lib.Sh

/-!
# `Proot.kt`: the command line of proot

`attach` lists the words of the proot command and hands them to `sh -c` as one string, with a space
between each and the next and no quoting. The words come from the settings, from the chosen line of
`/etc/passwd` and from `/etc/environment`. What `attach` does to files on the way (the fake `/proc`
data, a link in place of a shared path) does not enter the words and is left out; what it does to
`locale.gen` comes at the end.
-/

set_option autoImplicit false

namespace WinEmulator.App

open WinEmulator.Lib

/-! ## Strings -/

/-- `Char.isWhitespace`. -/
def isWhitespace (c : Char) : Bool :=
  let n := c.toNat
  (0x09 ≤ n && n ≤ 0x0D) || (0x1C ≤ n && n ≤ 0x20) || n = 0xA0 || n = 0x1680
    || (0x2000 ≤ n && n ≤ 0x200A) || n = 0x2028 || n = 0x2029 || n = 0x202F || n = 0x205F ||
      n = 0x3000

/-- `String.trim` with a predicate. -/
def trimBy (p : Char → Bool) (s : Text) : Text := ((s.dropWhile p).reverse.dropWhile p).reverse

/-- `String.trim`. -/
def trim (s : Text) : Text := trimBy isWhitespace s

/-- An integer in a string template. -/
def decimal (n : Int) : Text :=
  if n < 0 then '-' :: Nat.toDigits 10 n.natAbs else Nat.toDigits 10 n.natAbs

/-! ## Environment variables -/

/-- `EnvMap`: a `LinkedHashMap` from names to values. -/
abbrev EnvMap := LinkedMap Text Text

namespace EnvMap

/-- The new value of a variable, from the one it has. -/
def newValue (v : Text) (override : Bool) : Option Text → Text
  | some old => if override then v else v ++ ':' :: old
  | none => v

/-- `put(k, v, override)`. -/
def put (m : EnvMap) (k v : Text) (override : Bool) : EnvMap :=
  m.update (trim k) (newValue (trim v) override)

/-- `toArray`. -/
def toArray (m : EnvMap) : List Text := m.entries.map fun e => e.1 ++ '=' :: e.2

end EnvMap

/-- The name and value of a line of `/etc/environment`; `none` for a line that is skipped. -/
def environmentEntry (l : Text) : Option (Text × Text) :=
  let line := trim l
  if line.head? ≠ some '#' ∧ '=' ∈ line then
    some (line.takeWhile (· ≠ '='), trimBy (· = Sh.quotation) ((line.dropWhile (· ≠ '=')).drop 1))
  else none

/-- `readEtcEnvironment`. `environment` is the lines of the file, `none` if it cannot be read. -/
def readEtcEnvironment (environment : Option (List Text)) (envMap : EnvMap) : EnvMap :=
  ((environment.getD []).filterMap environmentEntry).foldl
    (fun m e => EnvMap.put m e.1 e.2 false) envMap

/-! ## The command -/

/-- The directories Android gives the app. -/
structure AppDirs where
  filesDir : Text
  cacheDir : Text
  filesDir_absolute : filesDir.head? = some '/'
  filesDir_inert : Sh.AllInert filesDir
  cacheDir_inert : Sh.AllInert cacheDir

namespace AppDirs

/-- Those of the first user of a device. -/
def primary : AppDirs where
  filesDir := "/data/user/0/a.io.github.ewt45.winemulator/files".toList
  cacheDir := "/data/user/0/a.io.github.ewt45.winemulator/cache".toList
  filesDir_absolute := by decide
  filesDir_inert := by decide
  cacheDir_inert := by decide

variable (dirs : AppDirs)

def tmpDir : Text := dirs.cacheDir ++ "/tmp".toList
def rootfsAllDir : Text := dirs.filesDir ++ "/rootfs".toList
def rootfsCurrDir : Text := dirs.rootfsAllDir ++ "/current".toList
def prootBin : Text := dirs.filesDir ++ "/proot".toList

end AppDirs

/-- What `attach` reads. -/
structure AttachInput where
  dirs : AppDirs
  /-- `proot_bool_options`. -/
  options : List Text
  /-- `general_shared_ext_path`. -/
  sharedPaths : List Text
  /-- `general_rootfs_lang`. -/
  lang : Text
  /-- The saved login user of the current rootfs. -/
  lastSelectedUser : Option Text
  /-- The lines of `/etc/passwd` and `/etc/environment`, `none` if they cannot be read. -/
  passwd : Option (List Text)
  environment : Option (List Text)
  /-- Whether Android has the file. -/
  exists_ : Text → Bool
  /-- Whether Android has the file and lets the app read it. -/
  canRead : Text → Bool

namespace AttachInput

variable (digit : Char → Option Nat) (x : AttachInput)

def userInfo : UserInfo :=
  ProotRootfs.getPreferredUser x.lastSelectedUser (ProotRootfs.getUserInfos digit x.passwd)

/-- `--bind=path`. -/
def bind (path : Text) : Text := "--bind=".toList ++ path

/-- The three standard streams, bound when Android lacks them. -/
def streamBinds : List Text :=
  [("/dev/stderr", "/proc/self/fd/2:/dev/stderr"),
    ("/dev/stdout", "/proc/self/fd/1:/dev/stdout"),
    ("/dev/stdin", "/proc/self/fd/0:/dev/stdin")].filterMap fun b =>
      if x.exists_ b.1.toList then none else some (bind b.2.toList)

/-- `bindIfNotReadable(rootfs, bindFrom, bindTo)`. -/
def bindIfNotReadable (bindFrom bindTo : String) : Option Text :=
  if x.canRead bindTo.toList then none
  else some (bind (x.dirs.rootfsCurrDir ++ (bindFrom ++ ":" ++ bindTo).toList))

/-- The fake `/proc` files. -/
def fakeProcBinds : List Text :=
  [("/proc/.loadavg", "/proc/loadavg"),
    ("/proc/.stat", "/proc/stat"),
    ("/proc/.uptime", "/proc/uptime"),
    ("/proc/.version", "/proc/version"),
    ("/proc/.vmstat", "/proc/vmstat"),
    ("/proc/.sysctl_entry_cap_last_cap", "/proc/sys/kernel/cap_last_cap"),
    ("/proc/.sysctl_inotify_max_user_watches", "/proc/sys/fs/inotify/max_user_watches")].filterMap
      fun b => x.bindIfNotReadable b.1 b.2

/-- The variables `attach` sets itself, in this order. -/
def ownEnvs : List (Text × Text) :=
  [("LANG".toList, x.lang),
    ("HOME".toList, (x.userInfo digit).home),
    ("USER".toList, (x.userInfo digit).name),
    ("TMPDIR".toList, "/tmp".toList),
    ("DISPLAY".toList, ":13".toList),
    ("PULSE_SERVER".toList, "tcp:127.0.0.1:4713".toList)]

/-- `loginEnvs`. -/
def loginEnvs : EnvMap :=
  (x.ownEnvs digit).foldl (fun m e => EnvMap.put m e.1 e.2 true)
    (readEtcEnvironment x.environment .empty)

def prootCmdProotPart : List Text :=
  [x.dirs.prootBin]
    ++ x.options
    ++ ["--kernel-release=6.2.1-PRoot-Distro".toList,
      "--rootfs=".toList ++ x.dirs.rootfsCurrDir,
      "--change-id=".toList ++
        (decimal (x.userInfo digit).uid ++ ':' :: decimal (x.userInfo digit).gid),
      "--cwd=".toList ++ (x.userInfo digit).home,
      bind (x.dirs.tmpDir ++ ":/tmp".toList),
      bind (x.dirs.rootfsCurrDir ++ "/tmp:/dev/shm".toList),
      bind "/sys".toList,
      bind "/proc/self/fd:/dev/fd".toList,
      bind "/proc".toList,
      bind "/dev/urandom:/dev/random".toList,
      bind "/dev".toList]
    ++ x.streamBinds
    ++ [bind (x.dirs.rootfsCurrDir ++ "/sys/.empty:/sys/fs/selinux".toList)]
    ++ x.fakeProcBinds
    ++ x.sharedPaths.map bind
    ++ ["/usr/bin/env".toList, "-i".toList]
    ++ EnvMap.toArray (x.loginEnvs digit)
    ++ [(x.userInfo digit).shell, "-l".toList]

/-- The string after `sh -c`: `prootCmdProotPart.joinToString(" ")`. -/
def command : Text := Sh.join (x.prootCmdProotPart digit)

end AttachInput

end WinEmulator.App

/-! ## `/etc/locale.gen`

`editEtcLocaleGen` takes the comment mark off the lines of the language, so that `locale-gen` makes
it. The file is its characters; it is there, and can be read and written. -/

namespace WinEmulator.App.LocaleGen

open WinEmulator.Lib.Lines

/-- What `[^a-zA-Z0-9]` does not match. -/
def isCharNum (c : Char) : Bool :=
  ('a' ≤ c && c ≤ 'z') || ('A' ≤ c && c ≤ 'Z') || ('0' ≤ c && c ≤ '9')

/-- `comp1` and `comp2`: letters and digits only, in lower case. -/
def comp (locale : Text) : Text := (locale.filter isCharNum).map Char.toLower

def uncommentLine (line : Text) : Text := trim (line.dropWhile (· = '#'))

/-- What becomes of a line. -/
def editLine (targetLocale line : Text) : Text :=
  match (uncommentLine line).splitOn ' ' with
  | [locale, _] => if comp locale = comp targetLocale then uncommentLine line else line
  | _ => line

/-- `editEtcLocaleGen` on the content of the file. -/
def editEtcLocaleGen (targetLocale content : Text) : Text :=
  writeLines ((readLines content).map (editLine targetLocale))

end WinEmulator.App.LocaleGen
