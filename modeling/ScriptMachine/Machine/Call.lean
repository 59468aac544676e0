import ScriptMachine.Machine.Run

/-!
# Calls into scripts

The host can call a function of a script in two ways: it sets up the call and leaves it to
the thread's turns, or it waits until the function returns. While it waits, the thread is
pinned and no other thread gets a turn; afterwards the scheduler is as it was.
-/

namespace ScriptMachine.Machine

variable {κ μ : Type}

/-- Set up the call of a function by its name. If its frame does not fit, the thread is
stopped with the fault. -/
def beginCall (m : Machine κ μ) (id : ThreadId) (name : String) (sync : Bool) :
    Except CallError Unit × Machine κ μ :=
  match m.thread? id with
  | none => (.error (.invalidThread id), m)
  | some t =>
    match t.program.findFunction? name with
    | none => (.error (.unknownFunction name), m)
    | some f =>
      match t.call f t.ip sync with
      | (.ok entry, t) => (.ok (), m.setThread id (some { t with ip := entry }))
      | (.error fault, t) =>
        (.error (.fault fault), (m.setThread id (some t)).faultThread id fault)

/-- Set up a call that the thread carries out in its turns. -/
def invokeFunction (m : Machine κ μ) (id : ThreadId) (name : String) :
    Except CallError Unit × Machine κ μ :=
  m.beginCall id name false

/-- Let one thread run and no other. -/
def pin (m : Machine κ μ) (id : ThreadId) : Machine κ μ :=
  { m.modifyThread id (fun t => { t with running := true }) with
    scheduler := { m.scheduler with mode := .pinned id } }

/-- Give the scheduler back after a run of a pinned thread. If the thread returned from its
call, it runs on only if it was running before. -/
def unpin (m : Machine κ μ) (id : ThreadId) (saved : Scheduler) (wasRunning : Bool)
    (outcome : RunOutcome) : Except CallError Unit × Machine κ μ :=
  let m := { m with scheduler := saved }
  if outcome = .syncReturned then
    (.ok (), m.modifyThread id fun t => { t with running := wasRunning })
  else (.error .aborted, m)

/-- Call a function and wait until it returns. If the thread stops before, the call is
aborted. -/
def callFunction (invoke : Invoke κ μ) (fuel : Nat) (id : ThreadId) (name : String)
    (m : Machine κ μ) : Option (Except CallError Unit × Machine κ μ) :=
  match m.thread? id with
  | none => some (.error (.invalidThread id), m)
  | some t =>
    match m.beginCall id name true with
    | (.error e, m) => some (.error e, m)
    | (.ok (), m) =>
      match (m.pin id).run invoke fuel .unlimited with
      | none => none
      | some (outcome, ended) => some (ended.unpin id m.scheduler t.running outcome)

end ScriptMachine.Machine
