import ScriptMachine.Config.Json
import ScriptMachine.Console.Arguments
import ScriptMachine.Machine.Host
import ScriptMachine.Machine.Summary

/-!
# Console sessions

What the console writes in answer to a request. Files are read by a function that the console
is given. A run is divided into its beginning, the cycles of the machine, and its end, so
that output can be shown while it goes on.
-/

namespace ScriptMachine.Console

/-- A piece of output. -/
inductive Chunk where
  | out (text : String)
  | err (text : String)
deriving DecidableEq, Repr

/-- What the console writes, and the status it ends with. -/
structure Report where
  chunks : List Chunk := []
  status : UInt8 := 0
deriving DecidableEq, Repr

/-- What reading a file gives. -/
abbrev Files := String → Except FileError (List UInt8)

/-! ## The host functions of the console -/

/-- The functions that the console offers to scripts. -/
inductive HostFunction where
  | printString | printInt | printNewline
deriving DecidableEq, Repr

namespace HostFunction

def all : List HostFunction := [printString, printInt, printNewline]

def name : HostFunction → String
  | printString => "PrintString"
  | printInt => "PrintInt"
  | printNewline => "PrintNewline"

/-- A text a number of times. -/
def repeated (text : String) (n : Nat) : String :=
  if text.isEmpty then "" else String.join (List.replicate n text)

/-- What the functions do: print their parameters, and drop them. -/
def callbacks : Callbacks HostFunction Unit := fun f id =>
  match f with
  | printString => do
    let text ← HostProgram.look fun m => (m.param id 0).toText
    let count ← HostProgram.look fun m => (m.param id 1).toInt
    HostProgram.op (.print (repeated text count.toInt.toNat))
    HostProgram.op (.hostReturn id 2 none)
  | printInt => do
    let n ← HostProgram.look fun m => (m.param id 0).toInt
    HostProgram.op (.print (toString n.toInt))
    HostProgram.op (.hostReturn id 1 none)
  | printNewline => do
    HostProgram.op (.print "\n")
    HostProgram.op (.hostReturn id 0 none)

end HostFunction

/-- A machine of the console. -/
abbrev ConsoleMachine := Machine HostFunction Unit

/-- A machine with the console's host functions. -/
def machine (config : Config) (clock : Clock) : ConsoleMachine :=
  let m : ConsoleMachine := Machine.create config clock ()
  { m with registry := HostFunction.all.foldl (fun r f => r.register .global f.name f) m.registry }

/-! ## Output -/

/-- The word for a level before a line of the log. -/
def levelWord : Level → String
  | .warn => "warning"
  | .debug => "debug"
  | .trace => "trace"

/-- An emission of the machine as the console shows it: what is printed goes to the output,
the log to the errors. Only a verbose console shows more than warnings. -/
def chunk? (verbose : Bool) : Emission → Option Chunk
  | .output text => some (.out text)
  | .log e =>
    let shown := if verbose then Level.debug else Level.warn
    if e.level.rank ≤ shown.rank then some (.err s!"{levelWord e.level}: {e.message}\n") else none

/-- Take the journal off a machine. -/
def drain (verbose : Bool) (m : ConsoleMachine) : List Chunk × ConsoleMachine :=
  (m.journal.toList.filterMap (chunk? verbose), { m with journal := #[] })

/-- A complaint about a file that was not loaded. -/
def cannotLoad (path : String) (e : LoadError) : Chunk :=
  .err s!"Error: cannot load {path}: {e.message} ({e.code.name})\n"

/-! ## Runs -/

/-- A run that has begun. -/
structure Session where
  machine : ConsoleMachine
  thread : ThreadId
  budget : Budget
  verbose : Bool

/-- Begin a run: configure, load and start. What was written so far comes with it. -/
def beginRun (files : Files) (clock : Clock) (path : String) (config : Option String)
    (trace : Bool) (budget : Budget) (verbose : Bool) : List Chunk × Option Session :=
  let read : Except Chunk Config := match config with
    | none => .ok {}
    | some file => (Config.ofFile (files file)).mapError fun e =>
      .err s!"Error: cannot read config {file}: {e.message}\n"
  match read with
  | .error complaint => ([complaint], none)
  | .ok config =>
    let m := machine { config with trace := config.trace || trace } clock
    match m.loadFile (files path) none with
    | .error e => ([cannotLoad path e], none)
    | .ok (thread, m) =>
      let (_, m) := m.start thread
      let (chunks, machine) := drain verbose m
      (chunks, some { machine, thread, budget, verbose })

/-- End a run: say how it went, and shut the machine down. -/
def endRun (s : Session) (outcome : RunOutcome) : List Chunk :=
  let (before, m) := drain s.verbose s.machine
  let t := m.thread? s.thread
  let fault := match t.bind (·.fault) with
    | some f => [.err s!"Error: thread #{s.thread} faulted: {f.message}\n"]
    | none => []
  let result := match outcome with
    | .budget => [.out "stopped after timeslice\n"]
    | _ =>
      .out s!"_RetVal: {(m.returnValue s.thread).written}\n" ::
        match t.bind (·.exitCode) with
        | some code => [.out s!"exit code: {code.toInt}\n"]
        | none => []
  let (after, _) := drain s.verbose m.shutdown
  before ++ fault ++ result ++ after

/-- A whole run, of `fuel` cycles at most. -/
def run (fuel : Nat) (files : Files) (clock : Clock) (path : String) (config : Option String)
    (trace : Bool) (budget : Budget) (verbose : Bool) : Option Report :=
  match beginRun files clock path config trace budget verbose with
  | (chunks, none) => some { chunks }
  | (chunks, some s) =>
    match s.machine.run (Machine.invoke HostFunction.callbacks fuel) fuel s.budget with
    | none => none
    | some (outcome, machine) => some { chunks := chunks ++ endRun { s with machine } outcome }

/-! ## The other commands -/

/-- The lines about a loaded thread. -/
def summaryText (path : String) (s : Summary) : String :=
  let digest := s.digest.getD "-"
  let main := s.main.getD "none"
  s!"Image: {path}\n  sha256: {digest}\n  instructions: {s.instructions}\n" ++
    s!"  stack size: {s.stackSize}\n  globals: {s.globals.toNat}\n" ++
    s!"  priority: {s.priority.written} ({s.timeslice.toNat}ms)\n  main: {main}\n" ++
    s!"  functions: " ++ ", ".intercalate s.functions ++
    "\n  host calls: " ++ ", ".intercalate s.hostCalls ++ "\n"

/-- Load a file and tell about it. -/
def inspect (files : Files) (path : String) (json verbose : Bool) : Report :=
  let m : ConsoleMachine := Machine.create {} (.ticking 0) ()
  match m.loadFile (files path) none with
  | .error e => { chunks := [cannotLoad path e] }
  | .ok (id, m) =>
    let (chunks, m) := drain verbose m
    match m.summary? id with
    | none => { chunks }
    | some s =>
      let text := if json then s.toJson.pretty 0 ++ "\n" else summaryText path s
      { chunks := chunks ++ [.out text] }

/-- List a file. -/
def disasm (files : Files) (path : String) : Report :=
  match files path with
  | .error e => { chunks := [.err s!"Error: cannot read {path}: {e.message}\n"] }
  | .ok bytes =>
    match Executable.decode bytes with
    | .ok image => { chunks := [.out image.listing] }
    | .error e => { chunks := [.err s!"Error: {path}: {e.message}\n"] }

/-- A text filled up with spaces to seven characters. -/
def column (s : String) : String :=
  s ++ String.ofList (List.replicate (7 - s.length) ' ')

/-- Check one file: its line, and whether it is good. -/
def checkFile (files : Files) (path : String) : String × Bool :=
  let image : Except LoadError Image := match files path with
    | .error e => .error (.file e)
    | .ok bytes => Executable.decode bytes
  match image with
  | .ok image => (column "ok" ++ s!" {path} ({image.instructions.size} instructions)\n", true)
  | .error e => (column e.code.name ++ s!" {path}: {e.message}\n", false)

/-- Check files; the status says whether all are good. -/
def check (files : Files) (paths : List String) : Report :=
  let results := paths.map (checkFile files)
  let failed := results.countP fun (_, good) => !good
  let lines := results.map fun (line, _) => Chunk.out line
  if failed = 0 then { chunks := lines }
  else
    { chunks := lines ++ [.err s!"{failed} of {paths.length} images failed\n"], status := 1 }

/-- What the console writes in answer to a request. -/
def answer (fuel : Nat) (files : Files) (clock : Clock) : Request → Option Report
  | .help => some { chunks := [.out helpText] }
  | .complain line help =>
    some { chunks := .err (line ++ "\n") :: if help then [.out helpText] else [] }
  | .run path config trace budget verbose =>
    run fuel files clock path config trace budget verbose
  | .inspect path json verbose => some (inspect files path json verbose)
  | .disasm path => some (disasm files path)
  | .check paths => some (check files paths)

end ScriptMachine.Console
