import ScriptMachine.Proofs.Reachable

/-!
# Moments

An operation on a machine takes its course: cycles follow one another, callbacks begin and operate
on the machine in turn, and their operations take their course within it. `Machine.Passes` are the
moments of such a course, also of one that never ends.
-/

namespace ScriptMachine

/-- What is going on in a machine. -/
inductive Activity (κ μ : Type) where
  /-- An operation of the host or of a callback. -/
  | operation (op : HostOp κ)
  /-- A callback of a thread, or the rest of one. -/
  | program (id : ThreadId) (p : HostProgram κ μ Unit)
  /-- The cycles of a run that began at `start`. -/
  | cycles (start : UInt64) (budget : Budget)

/-- What there is to see in the course of an activity, each with the machine as it is then. -/
inductive Moment (κ μ : Type) where
  | state (m : Machine κ μ)
  /-- The callback of a thread is about to operate on the machine. -/
  | performing (id : ThreadId) (op : HostOp κ) (m : Machine κ μ)
  /-- A thread is about to execute its next instruction. -/
  | executing (id : ThreadId) (now : UInt64) (m : Machine κ μ)

/-- The machine at a moment. -/
def Moment.machine {κ μ : Type} : Moment κ μ → Machine κ μ
  | state m | performing _ _ m | executing _ _ m => m

namespace Machine

variable {κ μ : Type}

/-- The moments that an activity passes through, from the machine on that it begins with. -/
inductive Passes (callbacks : Callbacks κ μ) :
    Activity κ μ → Machine κ μ → Moment κ μ → Prop
  | here {a : Activity κ μ} {m : Machine κ μ} : Passes callbacks a m (.state m)
  /-- After the operation. -/
  | performed {op : HostOp κ} {answer : op.Answer} {fuel : Nat} {m m' : Machine κ μ} :
      m.perform callbacks fuel op = some (answer, m') →
      Passes callbacks (.operation op) m (.state m')
  | run {budget : Budget} {m : Machine κ μ} {p : Moment κ μ} :
      Passes callbacks (.cycles m.now.1 budget) m.now.2 p →
      Passes callbacks (.operation (.run budget)) m p
  /-- The frame of a synchronous call is set up. -/
  | begun {id : ThreadId} {name : String} {m m₁ : Machine κ μ} :
      m.beginCall id name true = (.ok (), m₁) →
      Passes callbacks (.operation (.call id name)) m (.state m₁)
  | call {id : ThreadId} {name : String} {m m₁ : Machine κ μ} {p : Moment κ μ} :
      m.beginCall id name true = (.ok (), m₁) →
      Passes callbacks (.cycles (m₁.pin id).now.1 .unlimited) (m₁.pin id).now.2 p →
      Passes callbacks (.operation (.call id name)) m p
  /-- Before an operation of a callback. -/
  | performing {id : ThreadId} {op : HostOp κ} {next : op.Answer → HostProgram κ μ Unit}
      {m : Machine κ μ} :
      Passes callbacks (.program id (.perform op next)) m (.performing id op m)
  /-- In the course of an operation of a callback. -/
  | within {id : ThreadId} {op : HostOp κ} {next : op.Answer → HostProgram κ μ Unit}
      {m : Machine κ μ} {p : Moment κ μ} :
      Passes callbacks (.operation op) m p →
      Passes callbacks (.program id (.perform op next)) m p
  /-- After an operation of a callback. -/
  | after {id : ThreadId} {op : HostOp κ} {next : op.Answer → HostProgram κ μ Unit}
      {answer : op.Answer} {fuel : Nat} {m m₁ : Machine κ μ} {p : Moment κ μ} :
      m.perform callbacks fuel op = some (answer, m₁) →
      Passes callbacks (.program id (next answer)) m₁ p →
      Passes callbacks (.program id (.perform op next)) m p
  | inspect {id : ThreadId} {next : Machine κ μ → HostProgram κ μ Unit} {m : Machine κ μ}
      {p : Moment κ μ} :
      Passes callbacks (.program id (next m)) m p →
      Passes callbacks (.program id (.inspect next)) m p
  | remember {id : ThreadId} {f : μ → μ} {next : HostProgram κ μ Unit} {m : Machine κ μ}
      {p : Moment κ μ} :
      Passes callbacks (.program id next) { m with memory := f m.memory } p →
      Passes callbacks (.program id (.remember f next)) m p
  /-- The thread of the next cycle is ready. -/
  | executing {start : UInt64} {budget : Budget} {runnable id : ThreadId}
      {m m₁ m₂ : Machine κ μ} :
      m.runnable? = some runnable → m.now.2.schedule runnable m.now.1 = (id, m₁) →
      m₁.ready id m.now.1 = (true, m₂) →
      Passes callbacks (.cycles start budget) m (.executing id m.now.1 m₂)
  /-- In the course of a callback that the next cycle calls. -/
  | callback {start : UInt64} {budget : Budget} {f : κ} {id : ThreadId} {m m₁ : Machine κ μ}
      {p : Moment κ μ} :
      m.Enters f id m₁ → Passes callbacks (.program id (callbacks f id)) m₁ p →
      Passes callbacks (.cycles start budget) m p
  /-- After a cycle that the run goes on after. -/
  | cycle {start : UInt64} {budget : Budget} {fuel : Nat} {m m₁ : Machine κ μ} {p : Moment κ μ} :
      m.cycle (invoke callbacks fuel) start budget = some (none, m₁) →
      Passes callbacks (.cycles start budget) m₁ p →
      Passes callbacks (.cycles start budget) m p
  /-- After the last cycle. -/
  | ended {start : UInt64} {budget : Budget} {fuel : Nat} {outcome : RunOutcome}
      {m m₁ : Machine κ μ} :
      m.cycle (invoke callbacks fuel) start budget = some (some outcome, m₁) →
      Passes callbacks (.cycles start budget) m (.state m₁)

end Machine
end ScriptMachine
