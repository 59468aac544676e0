import ScriptMachine.Error
import ScriptMachine.Image.Listing

/-!
# Events

What a machine reports while it works: the log of what happens to its threads, and the text
it prints.
-/

namespace ScriptMachine

/-- The levels of the log, the most important one first. -/
inductive Level where
  | warn | debug | trace
deriving DecidableEq, Repr

/-- The rank of a level: a log that shows a level shows those of lower rank too. -/
def Level.rank : Level → Nat
  | warn => 0
  | debug => 1
  | trace => 2

/-- What happens to a thread. -/
inductive Event where
  | loaded (id : ThreadId) (instructions functions stackSize : Nat) (priority : Priority)
    (timeslice : UInt64)
  | unloaded (id : ThreadId)
  | reset (id : ThreadId)
  | started (id : ThreadId)
  | stopped (id : ThreadId)
  | exited (id : ThreadId) (code : Int32)
  /-- It returned from the frame that its run started in. -/
  | returned (id : ThreadId)
  | faulted (id : ThreadId) (ip : Nat) (fault : Fault)
  | turn (id : ThreadId) (now : UInt64)
  | shutDown
deriving DecidableEq, Repr

namespace Event

def level : Event → Level
  | faulted .. => .warn
  | turn .. => .trace
  | _ => .debug

/-- The line of the log. -/
def message : Event → String
  | loaded id instructions functions stackSize priority timeslice =>
    s!"loaded thread #{id}: {instructions} instructions, {functions} functions, " ++
      s!"stack {stackSize}, priority {priority.written} ({timeslice.toNat}ms)"
  | unloaded id => s!"unloaded thread #{id}"
  | reset id => s!"reset thread #{id}"
  | started id => s!"started thread #{id}"
  | stopped id => s!"stopped thread #{id}"
  | exited id code => s!"thread #{id} exited with code {code.toInt}"
  | returned id => s!"thread #{id} returned from its entry frame"
  | faulted id ip fault =>
    s!"thread #{id} faulted at IP={Image.writtenPointer ip}: {fault.message}"
  | turn id now => s!"scheduler: thread #{id} takes a turn at {now.toNat}ms"
  | shutDown => "vm shut down"

end Event

/-- What a machine emits. -/
inductive Emission where
  /-- Text for the standard output. -/
  | output (text : String)
  | log (event : Event)
deriving DecidableEq, Repr

end ScriptMachine
