import ScriptMachine.Image.Valid
import ScriptMachine.Stack

/-!
# Threads

A thread is a loaded image with a stack of its own and the state of its run.
-/

namespace ScriptMachine

/-- What a thread has done. -/
structure Stats where
  /-- The turns that the scheduler gave it. -/
  turns : Nat := 0
  instructions : Nat := 0
deriving DecidableEq, Repr, Inhabited

/-- A loaded image and the state of its run. -/
structure Thread where
  program : Image
  stack : Stack
  priority : Priority
  /-- The length of a turn in milliseconds. -/
  timeslice : UInt64
  /-- The index of the next instruction. -/
  ip : Nat := 0
  returnValue : Value := .null
  running : Bool := false
  paused : Bool := false
  /-- When a pause ends. -/
  wakeAt : UInt64 := 0
  exitCode : Option Int32 := none
  /-- The fault that stopped the thread last. -/
  fault : Option Fault := none
  stats : Stats := {}
  /-- The digest of the bytes it was loaded from, if it was loaded from bytes. -/
  digest : Option (List UInt8) := none
deriving DecidableEq, Repr, Inhabited

namespace Thread

/-- The instruction a run starts at. -/
def entry (program : Image) : Nat :=
  (program.mainFunction?.map (·.entry)).getD 0

/-- Open the frame of the globals and, above it, the frame of main: its locals and an empty
marker, a return through which ends the thread. -/
def openFrames (program : Image) (s : Stack) : Except Fault Stack := do
  let s ← s.pushFrame program.globals.toNat
  match program.mainFunction? with
  | some main => s.pushFrame (main.locals.toNat + 1)
  | none => return s

/-- The thread as it was when it was loaded, except that it keeps running if it was running,
and keeps its statistics. -/
def reset (t : Thread) : Except Fault Thread := do
  let stack ← openFrames t.program t.stack.clear
  return { t with
    stack
    ip := entry t.program
    returnValue := .null
    paused := false
    wakeAt := 0
    exitCode := none
    fault := none }

/-- A new thread for an image, not yet running. -/
def create (program : Image) (stack : Stack) (priority : Priority) (timeslice : UInt64) :
    Except Fault Thread :=
  reset { program, stack, priority, timeslice }

/-- The instruction at an index. -/
def instruction? (t : Thread) (ip : Nat) : Option Instruction := t.program.instructions[ip]?

end Thread
end ScriptMachine
