import ScriptMachine.Machine.Call
import ScriptMachine.Machine.Control
import ScriptMachine.Machine.Load

/-!
# The host

Everything a host can do to a machine is a `HostOp`. A `HostProgram` is what a host does in a
row, each operation depending on the answers to those before, on what it sees of the machine,
and on what it remembers. A callback is such a program too, so it can do to the machine
whatever its host can, while the thread that called it waits.

`perform` carries out an operation. Its fuel bounds the cycles of each run and how deep
callbacks and the runs inside them nest; without enough of it there is no answer.
-/

namespace ScriptMachine

/-- An operation of the host on a machine. -/
inductive HostOp (κ : Type) where
  | load (image : Image) (priority : Option Priority)
  | loadFile (contents : Except FileError (List UInt8)) (priority : Option Priority)
  | unload (id : ThreadId)
  | reset (id : ThreadId)
  | start (id : ThreadId)
  | stop (id : ThreadId)
  | pause (id : ThreadId) (ms : UInt64)
  | unpause (id : ThreadId)
  | run (budget : Budget)
  /-- Call a function and wait until it returns. -/
  | call (id : ThreadId) (name : String)
  /-- Set up the call of a function. -/
  | invoke (id : ThreadId) (name : String)
  /-- Push an argument. -/
  | pass (id : ThreadId) (v : HostValue)
  /-- Drop the parameters of a host call and set the return value, if there is one. -/
  | hostReturn (id : ThreadId) (params : Nat) (v : Option HostValue)
  | register (scope : Scope) (name : String) (callback : κ)
  /-- Replace the registry. What it held is dropped, and what the new one holds has been registered
  there beforehand. -/
  | setRegistry (registry : Registry κ)
  | setTrace (on : Bool)
  | readClock
  | advanceClock (ms : UInt64)
  | setClock (ms : UInt64)
  | print (text : String)
  | shutdown

/-- The type of the answer to an operation. -/
@[reducible] def HostOp.Answer {κ : Type} : HostOp κ → Type
  | load .. | loadFile .. => Except LoadError ThreadId
  | reset _ | start _ | stop _ | pause .. | unpause _ | call .. | invoke .. | pass .. =>
    Except CallError Unit
  | run _ => RunOutcome
  | readClock => UInt64
  | unload _ | hostReturn .. | register .. | setRegistry _ | setTrace _ | advanceClock _
  | setClock _ | print _ | shutdown => Unit

/-- What a host does. -/
inductive HostProgram (κ μ : Type) (α : Type) where
  | pure (a : α)
  | perform (op : HostOp κ) (next : op.Answer → HostProgram κ μ α)
  /-- Look at the machine. -/
  | inspect (next : Machine κ μ → HostProgram κ μ α)
  /-- Change what the host remembers. -/
  | remember (f : μ → μ) (next : HostProgram κ μ α)

namespace HostProgram

variable {κ μ α β : Type}

/-- One program after the other. -/
def bind : HostProgram κ μ α → (α → HostProgram κ μ β) → HostProgram κ μ β
  | pure a, f => f a
  | perform op next, f => perform op fun a => (next a).bind f
  | inspect next, f => inspect fun m => (next m).bind f
  | remember g next, f => remember g (next.bind f)

instance : Monad (HostProgram κ μ) where
  pure := pure
  bind := bind

/-- The program of one operation. -/
def op (op : HostOp κ) : HostProgram κ μ op.Answer := perform op pure

/-- The program that looks something up. -/
def look (f : Machine κ μ → α) : HostProgram κ μ α := inspect fun m => pure (f m)

/-- Carry out a program, given how operations are carried out. -/
def run (carryOut : (op : HostOp κ) → Machine κ μ → Option (op.Answer × Machine κ μ)) :
    HostProgram κ μ α → Machine κ μ → Option (α × Machine κ μ)
  | pure a, m => some (a, m)
  | perform op next, m =>
    match carryOut op m with
    | none => none
    | some (a, m) => (next a).run carryOut m
  | inspect next, m => (next m).run carryOut m
  | remember f next, m => next.run carryOut { m with memory := f m.memory }

@[simp] theorem run_pure (carryOut) (a : α) (m : Machine κ μ) :
    (pure a : HostProgram κ μ α).run carryOut m = some (a, m) := rfl

/-- A sequence of programs is carried out in order. -/
theorem run_bind (carryOut) (p : HostProgram κ μ α) (f : α → HostProgram κ μ β)
    (m : Machine κ μ) :
    (p.bind f).run carryOut m = (p.run carryOut m).bind fun (a, m) => (f a).run carryOut m := by
  induction p generalizing m with
  | pure a => rfl
  | perform op next ih =>
    simp only [bind, run]
    cases carryOut op m with
    | none => rfl
    | some r => exact ih r.1 r.2
  | inspect next ih => exact ih m m
  | remember g next ih => exact ih _

end HostProgram

/-- What each callback of a host does when a thread calls it. -/
abbrev Callbacks (κ μ : Type) := κ → ThreadId → HostProgram κ μ Unit

namespace Machine

variable {κ μ : Type}

/-- The answer of a load, and the machine after it: the same machine if it failed. -/
def answerLoad (m : Machine κ μ) :
    Except LoadError (ThreadId × Machine κ μ) → Except LoadError ThreadId × Machine κ μ
  | .ok (id, m) => (.ok id, m)
  | .error e => (.error e, m)

/-- Carry out an operation. -/
def perform (callbacks : Callbacks κ μ) :
    Nat → (op : HostOp κ) → Machine κ μ → Option (op.Answer × Machine κ μ)
  | 0, _, _ => none
  | fuel + 1, op, m =>
    let invoke : Invoke κ μ := fun callback id m =>
      ((callbacks callback id).run (perform callbacks fuel) m).map Prod.snd
    match op with
    | .load image priority => some (m.answerLoad (m.load image priority))
    | .loadFile contents priority => some (m.answerLoad (m.loadFile contents priority))
    | .unload id => some ((), m.unload id)
    | .reset id => some (m.reset id)
    | .start id => some (m.start id)
    | .stop id => some (m.stop id)
    | .pause id ms => some (m.pause id ms)
    | .unpause id => some (m.unpause id)
    | .run budget => m.run invoke fuel budget
    | .call id name => m.callFunction invoke fuel id name
    | .invoke id name => some (m.invokeFunction id name)
    | .pass id v => some (m.pass id v)
    | .hostReturn id params v => some ((), m.hostReturn id params v)
    | .register scope name callback =>
      some ((), { m with registry := m.registry.register scope name callback })
    | .setRegistry registry => some ((), { m with registry })
    | .setTrace on => some ((), { m with tracing := on })
    | .readClock => some m.now
    | .advanceClock ms => some ((), { m with clock := m.clock.advance ms })
    | .setClock ms => some ((), { m with clock := m.clock.setTime ms })
    | .print text => some ((), m.print text)
    | .shutdown => some ((), m.shutdown)

/-- How callbacks are carried out during a run. -/
def invoke (callbacks : Callbacks κ μ) (fuel : Nat) : Invoke κ μ := fun callback id m =>
  ((callbacks callback id).run (perform callbacks fuel) m).map Prod.snd

end Machine
end ScriptMachine
