import WinEmulator.Lib.Image
import WinEmulator.Lib.Socket
import WinEmulator.Lib.Machine
import WinEmulator.Lib.Sh
import WinEmulator.Lib.ShWords
import WinEmulator.Lib.FileSystem
import WinEmulator.Lib.FileTree
import WinEmulator.Lib.Resolve
import WinEmulator.Lib.FreshDir
import WinEmulator.Lib.LinkedDir
import WinEmulator.Lib.Subtree
import WinEmulator.Lib.MakeDirs
import WinEmulator.Lib.RingBuffer
import WinEmulator.Lib.Rings
import WinEmulator.Lib.Utf16
import WinEmulator.Lib.JavaString
import WinEmulator.Lib.LinkedMap
import WinEmulator.Lib.LinkedNodes
import WinEmulator.Lib.JavaFile
import WinEmulator.Lib.Superseding
import WinEmulator.Lib.Sessions
import WinEmulator.Lib.Json
import WinEmulator.Lib.Lines
import WinEmulator.Lib.Raster
import WinEmulator.Lib.LeadBytes
import WinEmulator.Lib.AtomicCalls
import WinEmulator.Lib.BinarySearch
import WinEmulator.Lib.BreadthFirst
import WinEmulator.Lib.DirtyFlag
import WinEmulator.Lib.RelativePath
import WinEmulator.Lib.Recency
import WinEmulator.Lorie.Event
import WinEmulator.Lorie.EventQueue
import WinEmulator.Lorie.RendererWindow
import WinEmulator.Lorie.Redraw
import WinEmulator.Lorie.CondVarProxy
import WinEmulator.Lorie.Fence
import WinEmulator.Lorie.Keysym2ucs
import WinEmulator.Lorie.Shmem
import WinEmulator.Lorie.Buffer
import WinEmulator.Lorie.ServerMessage
import WinEmulator.Lorie.Activity
import WinEmulator.Lorie.ActivityMessage
import WinEmulator.Lorie.CmdEntryPoint
import WinEmulator.Lorie.Renderer
import WinEmulator.Lorie.SharedBuffer
import WinEmulator.Lorie.SharedLock
import WinEmulator.Lorie.Registry
import WinEmulator.Lorie.Connections
import WinEmulator.Lorie.Present
import WinEmulator.Lorie.InitOutput
import WinEmulator.Lorie.StylusInput
import WinEmulator.Lorie.Clipboard
import WinEmulator.Lorie.ClipboardSync
import WinEmulator.Lorie.InputXKB
import WinEmulator.Lorie.TouchInput
import WinEmulator.Lorie.Cursor
import WinEmulator.Lorie.Pixmap
import WinEmulator.Lorie.ClipboardText
import WinEmulator.Lorie.BufferAllocate
import WinEmulator.Lorie.ConfigureNotify
import WinEmulator.Lorie.KeysymLookup
import WinEmulator.Lorie.PixmapBuffer
import WinEmulator.Lorie.WorkQueue
import WinEmulator.App.Preferences
import WinEmulator.App.LoginUsers
import WinEmulator.App.Proot
import WinEmulator.App.RootfsName
import WinEmulator.App.RenameRootfs
import WinEmulator.App.Archive
import WinEmulator.App.RootfsArchive
import WinEmulator.App.ProotRootfs
import WinEmulator.App.RootfsChoice
import WinEmulator.App.SettingsFile
import WinEmulator.App.DocumentsProvider
import WinEmulator.App.DocumentFiles
import WinEmulator.App.MainDialogs
import WinEmulator.App.StartEmu
import WinEmulator.App.ExportArchive
import WinEmulator.App.TerminalOutput
import WinEmulator.X11.InputConnection
import WinEmulator.X11.InputEventSender
import WinEmulator.X11.TouchSender
import WinEmulator.X11.TouchInputHandler
import WinEmulator.X11.LoriePreferences
import WinEmulator.X11.DisplaySettings
import WinEmulator.X11.PreferenceCli
import WinEmulator.X11.KeyInterceptor
import WinEmulator.X11.TapGestureDetector
import WinEmulator.X11.WindowChange
import WinEmulator.Laws.Lorie.ServerFraming
import WinEmulator.Laws.Lorie.ActivityFraming
import WinEmulator.Laws.Lorie.Reconnect
import WinEmulator.Laws.Lorie.Display
import WinEmulator.Laws.Lorie.EventQueue
import WinEmulator.Laws.Lorie.RendererWindow
import WinEmulator.Laws.Lorie.Redraw
import WinEmulator.Laws.Lorie.RedrawProgress
import WinEmulator.Laws.Lorie.CondVarProxy
import WinEmulator.Laws.Lorie.Fence
import WinEmulator.Laws.Lorie.Keysym2ucs
import WinEmulator.Laws.Lorie.Shmem
import WinEmulator.Laws.Lorie.ShmemKept
import WinEmulator.Laws.Lorie.ShmemCalls
import WinEmulator.Laws.Lorie.PresentMsc
import WinEmulator.Laws.Lorie.Vblanks
import WinEmulator.Laws.Lorie.BufferOwnership
import WinEmulator.Laws.Lorie.BufferHandles
import WinEmulator.Laws.Lorie.RootWindowLock
import WinEmulator.Laws.Lorie.StylusButtons
import WinEmulator.Laws.Lorie.ClipboardServer
import WinEmulator.Laws.Lorie.ClipboardRequests
import WinEmulator.Laws.Lorie.ClipboardCache
import WinEmulator.Laws.Lorie.TypedKeysym
import WinEmulator.Laws.Lorie.AddedKeysyms
import WinEmulator.Laws.Lorie.TouchWords
import WinEmulator.Laws.Lorie.ScreenSize
import WinEmulator.Laws.Lorie.SharedCursor
import WinEmulator.Laws.Lorie.BufferConversion
import WinEmulator.Laws.Lorie.BufferLock
import WinEmulator.Laws.Lorie.PresentFlip
import WinEmulator.Laws.Lorie.BufferStorage
import WinEmulator.Laws.Lorie.TouchDuplicates
import WinEmulator.Laws.Lorie.ClipboardLatin1
import WinEmulator.Laws.Lorie.ClipboardUtf8
import WinEmulator.Laws.Lorie.KeysymLookup
import WinEmulator.Laws.Lorie.ClipboardPasses
import WinEmulator.Laws.Lorie.WorkQueue
import WinEmulator.Laws.App.ConcurrentEdits
import WinEmulator.Laws.App.LoginUsers
import WinEmulator.Laws.App.ProotCommand
import WinEmulator.Laws.App.DeleteRootfs
import WinEmulator.Laws.App.RenameRootfs
import WinEmulator.Laws.App.ExtractInside
import WinEmulator.Laws.App.ExtractTree
import WinEmulator.Laws.App.ExtractL2s
import WinEmulator.Laws.App.ExtractLayout
import WinEmulator.Laws.App.ExtractModes
import WinEmulator.Laws.App.ExtractKinds
import WinEmulator.Laws.App.WalkRootfs
import WinEmulator.Laws.App.ExportRootfs
import WinEmulator.Laws.App.InstallRootfs
import WinEmulator.Laws.App.RootfsRoundTrip
import WinEmulator.Laws.App.RootfsChoice
import WinEmulator.Laws.App.ImportSettings
import WinEmulator.Laws.App.ExportSettings
import WinEmulator.Laws.App.DocumentDeletion
import WinEmulator.Laws.App.DocumentIds
import WinEmulator.Laws.App.HandedOutIds
import WinEmulator.Laws.App.MainDialogs
import WinEmulator.Laws.App.StartEmu
import WinEmulator.Laws.App.UnreadableFiles
import WinEmulator.Laws.App.TerminalOutput
import WinEmulator.Laws.App.PreferenceTypes
import WinEmulator.Laws.App.RootfsSearch
import WinEmulator.Laws.App.RootfsNumber
import WinEmulator.Laws.App.PasswdLines
import WinEmulator.Laws.App.LocaleGen
import WinEmulator.Laws.App.L2sFiles
import WinEmulator.Laws.X11.Composing
import WinEmulator.Laws.X11.StuckKeys
import WinEmulator.Laws.X11.StuckTouches
import WinEmulator.Laws.X11.HeldButtons
import WinEmulator.Laws.X11.ChangePreference
import WinEmulator.Laws.X11.DisplaySettings
import WinEmulator.Laws.X11.BooleanPreferences
import WinEmulator.Laws.X11.PreferenceLines
import WinEmulator.Laws.X11.PreferenceList
import WinEmulator.Laws.X11.AtomicRequest
import WinEmulator.Laws.X11.CustomResolution
import WinEmulator.Laws.X11.AspectRatio
import WinEmulator.Laws.X11.TapReports
import WinEmulator.Laws.X11.KeyInterception
