import WinEmulator.Lib.JavaString
import WinEmulator.Lib.Machine

/-!
# The output of the terminal

The coroutine of `startTerminal` in `TerminalViewModel.kt` that reads the characters of the process,
the job that shows a line before it is complete, and `runCommand`. What is done under `outputMutex`
is one step. The clock, the length of a delay, when the process ends and when a read fails are left
open.
-/

set_option autoImplicit false

namespace WinEmulator.App.TerminalOutput

open WinEmulator.Lib
open WinEmulator.Lib.JavaString
open WinEmulator.Lib.Utf16 (Unit16)

/-- Who added something to the output. -/
inductive Author
  | reader
  | updateInlineOutputJob
  | other
deriving DecidableEq

/-- The loop over the characters. -/
inductive Reader
  | reading
  /-- `read` gave `-1`. -/
  | endOfStream
  /-- `read` threw an exception. -/
  | failed
deriving DecidableEq

/-- Where `updateInlineOutputJob` goes on. -/
inductive Job
  | isAlive
  | delay
  | withLock
  | ended
deriving DecidableEq

structure State where
  /-- What the process writes and is not read. -/
  stream : JString
  reader : Reader
  job : Job
  cancelled : Bool
  isAlive : Bool
  builder : JString
  lastReadCharTime : Int64
  lastReadCharTimeCopy : Int64
  output : List JString
  /-- All that was ever added to the output. -/
  log : List (Author × JString)

def newline : Unit16 := 0x0A

namespace State

variable (s : State)

/-- Add a line. -/
def add (author : Author) (line : JString) : State :=
  { s with output := s.output ++ [line], log := s.log ++ [(author, line)] }

/-- `output.takeIf { it.size > 800 }?.removeRange(0, 400)`. -/
def removeOldest : State :=
  if 800 < s.output.length then { s with output := s.output.drop 400 } else s

/-- The section for a character. -/
def append (charRead : Unit16) (now : Int64) : State :=
  let s := { s with lastReadCharTime := now, builder := s.builder ++ [charRead] }
  if charRead = newline then { s.removeOldest.add .reader s.builder with builder := [] } else s

/-- Whether the next line is a new one. -/
def shouldNewLine : Bool :=
  match s.output.getLast? with
  | none => true
  | some lastLine => lastLine.getLast? = some newline

/-- What is buffered goes to the end of the output, on its last line if that is not complete. -/
def addInline : State :=
  if s.shouldNewLine then s.add .updateInlineOutputJob s.builder
  else
    { s with
      output := s.output.modifyLast fun lastLine => lastLine ++ s.builder
      log := s.log ++ [(.updateInlineOutputJob, s.builder)] }

/-- The section of the job. -/
def updateInlineOutput : State :=
  let s' :=
    if s.lastReadCharTime = s.lastReadCharTimeCopy ∧ s.lastReadCharTimeCopy ≠ 0 ∧
      s.builder ≠ [] then
      { s.addInline with builder := [] }
    else s
  { s' with lastReadCharTimeCopy := s.lastReadCharTime }

/-- The section of `runCommand`. -/
def echo (command : JString) : State :=
  s.add .other ((if s.shouldNewLine then text "$ " else []) ++ command ++ [newline])

/-- What the reader and the job added. -/
def shown : JString := (s.log.filter fun entry => entry.1 ≠ .other).flatMap Prod.snd

/-- The loop has come to the end of the stream, and the coroutine and its job have finished. -/
def Finished : Prop := s.reader = .endOfStream ∧ s.job = .ended

end State

inductive Action
  /-- Read a character, at a time. -/
  | read (now : Int64)
  | endOfStream
  | fail
  /-- The process ends, or its resources are closed. -/
  | exit
  /-- The check of the job's loop. -/
  | whileAlive
  /-- The delay is over. -/
  | wake
  | updateInlineOutput
  /-- The job is cancelled. -/
  | stop
  | echo (command : JString)
  /-- A message of `startTerminal` or `runCommand`, which is added without the lock. -/
  | message (line : JString)

def step (s : State) : Action → Option State
  | .read now =>
    match s.reader, s.stream with
    | .reading, charRead :: stream => some ({ s with stream := stream }.append charRead now)
    | _, _ => none
  | .endOfStream =>
    if s.reader = .reading ∧ s.stream = [] then
      some { s with reader := .endOfStream, cancelled := true }
    else none
  | .fail => if s.reader = .reading then some { s with reader := .failed } else none
  | .exit => some { s with isAlive := false }
  | .whileAlive =>
    if s.job = .isAlive then some { s with job := if s.isAlive then .delay else .ended } else none
  | .wake => if s.job = .delay then some { s with job := .withLock } else none
  | .updateInlineOutput =>
    if s.job = .withLock then some { s.updateInlineOutput with job := .isAlive } else none
  | .stop => if s.cancelled then some { s with job := .ended } else none
  | .echo command => some (s.echo command)
  | .message line => some (s.add .other line)

/-- The reader is started on the stream of a process, with lines of the output before. -/
def start (output : List JString) (stream : JString) : State :=
  { stream := stream
    reader := .reading
    job := .isAlive
    cancelled := false
    isAlive := true
    builder := []
    lastReadCharTime := 0
    lastReadCharTimeCopy := 0
    output := output
    log := [(.other, output.flatten)] }

end WinEmulator.App.TerminalOutput
