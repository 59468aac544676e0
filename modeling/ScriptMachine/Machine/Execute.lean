import ScriptMachine.Machine.Trace

/-!
# Executing instructions

The machine's part in an instruction: it fetches it, shows it in the trace, lets the thread
execute it or carries out a call of the host, and moves the instruction pointer.

A callback of the host can operate on the machine as it likes, so the functions here take the
way a callback is carried out as an argument, `invoke`. It gives nothing if the callback
never comes back.
-/

namespace ScriptMachine.Machine

variable {κ μ : Type}

/-- How a callback is carried out for a thread. -/
abbrev Invoke (κ μ : Type) := κ → ThreadId → Machine κ μ → Option (Machine κ μ)

/-- What the log says about an executed instruction. -/
def outcomeEvent? (id : ThreadId) (op : Opcode) (flow : Except Fault Flow) (t : Thread) :
    Option Event :=
  match op, flow with
  | .exit, .ok _ => some (.exited id (t.exitCode.getD 0))
  | .ret, .ok .stay => some (.returned id)
  | _, _ => none

/-- Call a host function. The instruction pointer moves past the call first, so that a
callback that calls into its own thread returns behind it. -/
def callHost (invoke : Invoke κ μ) (id : ThreadId) (ip call : Nat) (m : Machine κ μ) :
    Option (Except Fault Flow × Machine κ μ) :=
  let name := ((m.thread? id).bind fun t => t.program.hostCalls[call]?).getD ""
  match m.registry.resolve? name id with
  | none => some (.error (.unresolvedHostCall name), m)
  | some callback =>
    match invoke callback id (m.modifyThread id fun t => { t with ip := ip + 1 }) with
    | none => none
    | some m => some (.ok .stay, m)

/-- Let a thread execute an instruction of its own. -/
def executeOwn (id : ThreadId) (i : Instruction) (now : UInt64) (m : Machine κ μ) :
    Except Fault Flow × Machine κ μ :=
  match m.takeThread id with
  | (none, m) => (.ok .stay, m)
  | (some t, m) =>
    let (flow, t) := t.execute i now (m.scheduler.mode ≠ .roundRobin)
    let event := outcomeEvent? id i.op flow t
    let m := m.setThread id (some t)
    (flow, match event with
      | some e => m.log e
      | none => m)

/-- Execute an instruction of a thread, which stands at `ip`. -/
def dispatch (invoke : Invoke κ μ) (id : ThreadId) (ip : Nat) (i : Instruction) (now : UInt64)
    (m : Machine κ μ) : Option (Except Fault Flow × Machine κ μ) :=
  match i.op with
  | .callHost =>
    match i.hostCallTarget 0 with
    | .error fault => some (.error fault, m)
    | .ok call => callHost invoke id ip call m
  | _ => some (executeOwn id i now m)

/-- Execute the next instruction of a thread. -/
def step (invoke : Invoke κ μ) (id : ThreadId) (now : UInt64) (m : Machine κ μ) :
    Option (Except Fault Flow × Machine κ μ) :=
  match m.thread? id with
  | none => some (.ok .stay, m)
  | some t =>
    let ip := t.ip
    match t.instruction? ip with
    | none => some (.error (.instructionPointer ip t.program.instructions.size), m)
    | some i =>
      match dispatch invoke id ip i now (m.printTrace id t i) with
      | none => none
      | some (.error fault, m) => some (.error fault, m)
      | some (.ok flow, m) => some (.ok flow, m.modifyThread id (·.settle ip flow))

end ScriptMachine.Machine
