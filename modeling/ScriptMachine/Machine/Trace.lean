import ScriptMachine.Image.Listing
import ScriptMachine.Machine.Basic

/-!
# Traces

The lines that a trace shows before an instruction: the instruction, what was pushed on top
of the current frame, up to eight slots below the frame's base, and the end of a pause.
-/

namespace ScriptMachine

/-- How many slots below the base a trace shows. -/
def tracedSlots : Nat := 8

namespace Thread

/-- Values in brackets. -/
def bracketed (vs : List Value) : String :=
  "[" ++ ", ".intercalate (vs.map Value.written) ++ "]"

/-- The trace of a thread before an instruction. -/
def trace (t : Thread) (id : ThreadId) (i : Instruction) : List String :=
  let live := t.stack.live
  let base := min t.stack.base live.length
  let first := base - tracedSlots
  [s!"T{id} IP={Image.writtenPointer t.ip} {t.program.writtenInstruction i}",
    s!"  stack: {bracketed (live.drop base)}"] ++
  (if first < base then
    [s!"  frame[{first}..{base}]: {bracketed ((live.take base).drop first)}"] else []) ++
  if t.paused then [s!"  paused until {t.wakeAt.toNat}ms"] else []

end Thread

/-- Print the trace of an instruction, if the machine is tracing. -/
def Machine.printTrace {κ μ : Type} (m : Machine κ μ) (id : ThreadId) (t : Thread)
    (i : Instruction) : Machine κ μ :=
  if m.tracing then m.print (unlines (t.trace id i)) else m

end ScriptMachine
