import Glider.Lib.StringStream
import Mathlib.Algebra.Order.Ring.Nat

namespace Glider.Compiler

open Lib

inductive Strings
  | commandIs
  | runTime
  | ibashOutputTruncated
  | replyToACode
  | failedToWriteFile

abbrev PerLocaleMap := Strings → Bytes

def BASH_MAX_BUF : ℕ := 2 ^ 10 * 3

inductive StatusCode
  | internalError
  | invalidArgument
  | writeError

-- What a process left, as `popen_watchdog_destroy` returns it.
structure Exit where
  exitcode : UInt8
  signal : Bool

inductive Callback
  | executionStarted (command : Bytes)
  | executionFinished (command : Bytes) (exit : Exit)
  | errorStatus (code : StatusCode) (message : Bytes)
  | resultReady (text : Bytes)
  | wdtTimeout

-- What the watchdog makes of one command: it may fail before there is a process, else it hands
-- out the process's output read by read.
inductive Execution
  | initFails
  | startFails
  | runs (reads : List Bytes) (activated : Bool) (exit : Exit)

def Execution.output : Execution → Bytes
  | .runs reads _ _ => reads.flatten
  | _ => []

section RunCommand

structure Reading where
  res : StringStream
  bufLen : ℕ
  hasmore : Bool

def Reading.read (r : Reading) (chunk : Bytes) : Reading :=
  let available := if r.bufLen < BASH_MAX_BUF then BASH_MAX_BUF - r.bufLen else 0
  let copySize := min available chunk.length
  let hasmore := r.hasmore || copySize ≠ chunk.length
  if copySize ≠ 0 then ⟨r.res.write (chunk.take copySize), r.bufLen + copySize, hasmore⟩
  else ⟨r.res, r.bufLen, hasmore⟩

def marker (locale : PerLocaleMap) : Bytes := Bytes.ascii "\n" ++ locale .ibashOutputTruncated

def truncate (locale : PerLocaleMap) (output : Bytes) : Bytes :=
  if (marker locale).length < BASH_MAX_BUF then
    resize output (min output.length (BASH_MAX_BUF - (marker locale).length)) ++ marker locale
  else resize output BASH_MAX_BUF

def runCommand (locale : PerLocaleMap) (cmd : Bytes) (res : StringStream) (useWdt : Bool)
    (execution : Execution) : StringStream × List Callback :=
  match execution with
  | .initFails =>
    (res, [.executionStarted cmd,
      .errorStatus .internalError (Bytes.ascii "popen_watchdog_init failed")])
  | .startFails =>
    (res, [.executionStarted cmd,
      .errorStatus .internalError (Bytes.ascii "popen_watchdog_start failed")])
  | .runs reads activated exit =>
    let reading := reads.foldl Reading.read ⟨res, res.content.length, false⟩
    let timeout := if useWdt && activated then [.wdtTimeout] else []
    (if reading.hasmore then .replaceText (truncate locale reading.res.content) else reading.res,
      .executionStarted cmd :: timeout ++ [.executionFinished cmd exit])

end RunCommand

section CCpp

structure Params where
  exe : Bytes
  outfile : Bytes

-- The texts of the command's own message, after the command, and of the one it replies to.
structure Message where
  extraText : Option Bytes
  reply : Option Bytes

-- What the host does during one run: whether the source file opens, what becomes of the two
-- commands, and what the checks and the removals after them meet.
structure Host where
  opens : Bool
  compile : Execution
  stopRequested : Bool
  programExists : Bool
  program : Execution
  removesProgram : Bool
  removesSource : Bool

def verifyParseWrite (locale : PerLocaleMap) (message : Message) (host : Host) :
    Except Callback Bytes :=
  match message.reply with
  | none => .error (.errorStatus .invalidArgument (locale .replyToACode))
  | some _ =>
    if host.opens then .ok (message.extraText.getD [])
    else .error (.errorStatus .writeError (locale .failedToWriteFile))

-- The file name with its extension, if it has one, replaced.
def replaceExtension (path extension : Bytes) : Bytes :=
  let filename := (path.reverse.takeWhile (· ≠ 47)).reverse
  let stem := (filename.reverse.dropWhile (· ≠ 46)).reverse.dropLast
  if stem = [] ∨ filename = [46, 46] then path ++ extension
  else path.take (path.length - filename.length) ++ stem ++ extension

def aoutname (params : Params) : Bytes := replaceExtension params.outfile (Bytes.ascii ".out")

def command (params : Params) (extraargs : Bytes) : Bytes :=
  params.exe ++ Bytes.ascii " " ++ extraargs ++ Bytes.ascii " " ++ params.outfile ++
    Bytes.ascii " -o " ++ aoutname params

def commandLine (locale : PerLocaleMap) (cmd : Bytes) : Bytes :=
  locale .commandIs ++ Bytes.ascii ": " ++ cmd ++ Bytes.ascii "\n"

-- The callbacks of a run, and whether removing a file threw.
structure Ran where
  callbacks : List Callback
  threw : Bool

def run (params : Params) (locale : PerLocaleMap) (message : Message) (host : Host) : Ran :=
  match verifyParseWrite locale message host with
  | .error refusal => ⟨[refusal], false⟩
  | .ok extraargs =>
    let cmd := command params extraargs
    let resultbuf := StringStream.empty.write (commandLine locale cmd)
    let (resultbuf, compiled) := runCommand locale cmd resultbuf true host.compile
    let resultbuf := resultbuf.write (Bytes.ascii "\n")
    let finish (resultbuf : StringStream) (calls : List Callback) : Ran :=
      if host.removesSource then ⟨calls ++ [.resultReady resultbuf.content], false⟩
      else ⟨calls, true⟩
    if !host.stopRequested && host.programExists then
      let resultbuf := (resultbuf.write (locale .runTime)).write (Bytes.ascii ":\n")
      let (resultbuf, executed) :=
        runCommand locale (aoutname params) resultbuf true host.program
      if host.removesProgram then finish resultbuf (compiled ++ executed)
      else ⟨compiled ++ executed, true⟩
    else finish resultbuf compiled

end CCpp

end Glider.Compiler
