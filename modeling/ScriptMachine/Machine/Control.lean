import ScriptMachine.Machine.Basic

/-!
# Control of threads

Resetting, starting, stopping and pausing, and what the host passes to a thread and gives
back to it.
-/

namespace ScriptMachine.Machine

variable {κ μ : Type}

/-- Log an event if an operation succeeded. -/
def logged (event : Event) :
    Except CallError Unit × Machine κ μ → Except CallError Unit × Machine κ μ
  | (.ok (), m) => (.ok (), m.log event)
  | failed => failed

/-- Bring a thread back to where it was when it was loaded. -/
def reset (m : Machine κ μ) (id : ThreadId) : Except CallError Unit × Machine κ μ :=
  logged (.reset id) <| m.onThread id fun t => t.reset.mapError .fault

/-- Let a thread run. Unless another thread is pinned, it gets the next turn. -/
def start (m : Machine κ μ) (id : ThreadId) : Except CallError Unit × Machine κ μ :=
  match m.onThread id fun t => .ok { t with running := true } with
  | (.error e, m) => (.error e, m)
  | (.ok (), m) =>
    let m := if m.scheduler.mode = .roundRobin
      then { m with scheduler := m.scheduler.select id } else m
    (.ok (), m.log (.started id))

/-- Stop a thread. -/
def stop (m : Machine κ μ) (id : ThreadId) : Except CallError Unit × Machine κ μ :=
  logged (.stopped id) <| m.onThread id fun t => .ok { t with running := false }

/-- Pause a thread for a time, counted from now. The clock is read in any case. -/
def pause (m : Machine κ μ) (id : ThreadId) (ms : UInt64) :
    Except CallError Unit × Machine κ μ :=
  let (time, m) := m.now
  m.onThread id fun t => .ok { t with paused := true, wakeAt := time + ms }

/-- End a thread's pause. -/
def unpause (m : Machine κ μ) (id : ThreadId) : Except CallError Unit × Machine κ μ :=
  m.onThread id fun t => .ok { t with paused := false }

/-- Push an argument for the next call into a thread. -/
def pass (m : Machine κ μ) (id : ThreadId) (v : HostValue) :
    Except CallError Unit × Machine κ μ :=
  m.onThread id fun t =>
    match t.stack.push v.toValue with
    | .ok stack => .ok { t with stack }
    | .error fault => .error (.fault fault)

/-- End a host call: set the return value, if there is one, and drop the parameters. Dropping
more than the stack holds faults the thread. -/
def hostReturn (m : Machine κ μ) (id : ThreadId) (params : Nat) (v : Option HostValue) :
    Machine κ μ :=
  match m.thread? id with
  | none => m
  | some t =>
    let t := { t with returnValue := (v.map HostValue.toValue).getD t.returnValue }
    match t.stack.popFrame params with
    | .ok stack => m.setThread id (some { t with stack })
    | .error fault => (m.setThread id (some t)).faultThread id fault

/-! ## What the host can read -/

/-- The return value of a thread, null if it is not loaded. -/
def returnValue (m : Machine κ μ) (id : ThreadId) : Value :=
  ((m.thread? id).map (·.returnValue)).getD .null

/-- A parameter of a host call, counted from the top of the caller's stack. -/
def param? (m : Machine κ μ) (id : ThreadId) (n : Nat) : Option Value :=
  (m.thread? id).bind fun t => (t.stack.peek n).toOption

/-- A parameter, null if there is none. -/
def param (m : Machine κ μ) (id : ThreadId) (n : Nat) : Value :=
  (m.param? id n).getD .null

/-- A stack slot of a thread, by its index. -/
def stackValue? (m : Machine κ μ) (id : ThreadId) (index : Int32) : Option Value :=
  (m.thread? id).bind fun t => (t.stack.get index).toOption

end ScriptMachine.Machine
