import ScriptMachine.Console.Session

/-!
# The console program

Reads files, takes the time from the system's clock, and writes what the session says.
-/

namespace ScriptMachine.Console

/-- Read a file. -/
def readFile (path : String) : IO (Except FileError (List UInt8)) := do
  try
    return .ok (← IO.FS.readBinFile path).toList
  catch e =>
    match e with
    | .noFileOrDirectory .. => return .error .notFound
    | .permissionDenied .. => return .error .permissionDenied
    | .inappropriateType .. => return .error .isDirectory
    | e => return .error (.other (toString e))

/-- Read some files beforehand. -/
def readFiles (paths : List String) : IO Files := do
  let mut contents := []
  for path in paths do
    contents := (path, ← readFile path) :: contents
  let known := contents
  return fun path =>
    ((known.find? fun entry => entry.1 = path).map Prod.snd).getD (.error .notFound)

/-- Write a piece of output. -/
def write : Chunk → IO Unit
  | .out text => do
    let stdout ← IO.getStdout
    stdout.putStr text
    stdout.flush
  | .err text => do
    let stderr ← IO.getStderr
    stderr.putStr text

/-- How deep callbacks may nest; those of the console do not. -/
def callbackDepth : Nat := 1

/-- Cycle by cycle, with the time that has passed since `origin`. -/
partial def runCycles (origin : Nat) (start : UInt64) (s : Session) : IO Unit := do
  let now := UInt64.ofNat ((← IO.monoMsNow) - origin)
  let m := { s.machine with clock := .manual now 0 }
  match m.cycle (Machine.invoke HostFunction.callbacks callbackDepth) start s.budget with
  | none => return ()
  | some (outcome, m) =>
    let (chunks, machine) := drain s.verbose m
    chunks.forM write
    let s := { s with machine }
    match outcome with
    | none => runCycles origin start s
    | some outcome => (endRun s outcome).forM write

/-- Answer a request. -/
def serve (request : Request) : IO UInt8 := do
  match request with
  | .run path config trace budget verbose =>
    let files ← readFiles (path :: config.toList)
    let origin ← IO.monoMsNow
    let (chunks, session) := beginRun files (.ticking 0) path config trace budget verbose
    chunks.forM write
    match session with
    | none => return 0
    | some s =>
      runCycles origin (UInt64.ofNat ((← IO.monoMsNow) - origin)) s
      return 0
  | request =>
    let paths := match request with
      | .inspect path .. => [path]
      | .disasm path => [path]
      | .check paths => paths
      | _ => []
    match answer 0 (← readFiles paths) (.ticking 0) request with
    | none => return 0
    | some report =>
      report.chunks.forM write
      return report.status

end ScriptMachine.Console

def main (args : List String) : IO UInt32 := do
  return (← ScriptMachine.Console.serve (.ofArguments args)).toUInt32
