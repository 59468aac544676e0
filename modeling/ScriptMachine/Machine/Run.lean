import ScriptMachine.Machine.Execute

/-!
# Running threads

Running goes in cycles. Each reads the clock, gives the turn to a thread, and lets it execute
one instruction unless it is paused; a turn ends when its time is up or its thread stops, and
the next running thread follows in a circle. A run ends when no thread is left running, when
its time is up, or, with a pinned thread, when that thread returns from its synchronous call.
-/

namespace ScriptMachine

/-- How long a run may last. -/
inductive Budget where
  | unlimited
  | millis (ms : UInt64)
deriving DecidableEq, Repr

/-- Whether the time of a run is up. -/
def Budget.isUp (b : Budget) (start now : UInt64) : Bool :=
  match b with
  | unlimited => false
  | millis ms => start + ms < now

theorem Budget.isUp_millis_iff {ms start now : UInt64} :
    (millis ms).isUp start now = true ↔ start + ms < now := decide_eq_true_iff

/-- Why a run ended. -/
inductive RunOutcome where
  /-- No thread is running. -/
  | idle
  /-- The time is up. -/
  | budget
  /-- The pinned thread returned from its synchronous call. -/
  | syncReturned
  /-- The pinned thread stopped before that. -/
  | pinnedStopped
deriving DecidableEq, Repr

namespace Machine

variable {κ μ : Type}

/-- A thread that can run: the pinned one, or the first that is running. -/
def runnable? (m : Machine κ μ) : Option ThreadId :=
  match m.scheduler.mode with
  | .pinned id => if m.isRunning id then some id else none
  | .roundRobin => m.threads.findIdx? fun t => t.any (·.running)

/-- Whether the current turn is over. -/
def turnOver (m : Machine κ μ) (started now : UInt64) : Bool :=
  match m.thread? m.scheduler.current with
  | some t => !t.running || started + t.timeslice < now
  | none => true

/-- The first running thread from a slot on, in a circle. -/
def nextRunning? (m : Machine κ μ) (first : ThreadId) : Option ThreadId :=
  let n := m.threads.size
  ((List.range n).map fun step => (first + step) % n).find? m.isRunning

/-- Begin the turn of the first running thread from a slot on. -/
def beginTurn (m : Machine κ μ) (first fallback : ThreadId) (now : UInt64) : Machine κ μ :=
  let id := (m.nextRunning? first).getD fallback
  let m := { m with
    scheduler := { m.scheduler with current := id, turnStarted := some now } }
  let m := m.modifyThread id fun t =>
    { t with stats := { t.stats with turns := t.stats.turns + 1 } }
  m.log (.turn id now)

/-- Give the turn to the next thread if the current turn is over. -/
def rotate (m : Machine κ μ) (fallback : ThreadId) (now : UInt64) : Machine κ μ :=
  match m.scheduler.turnStarted with
  | none => m.beginTurn m.scheduler.current fallback now
  | some started =>
    if m.turnOver started now then m.beginTurn (m.scheduler.current + 1) fallback now else m

/-- Wake a thread whose pause is over; whether the thread can execute an instruction. A
pinned thread does not wait. -/
def ready (m : Machine κ μ) (id : ThreadId) (now : UInt64) : Bool × Machine κ μ :=
  match m.thread? id with
  | none => (false, m)
  | some t =>
    if !t.paused || m.scheduler.mode ≠ .roundRobin then (true, m)
    else if t.wakeAt ≤ now then (true, m.modifyThread id fun t => { t with paused := false })
    else (false, m)

/-- The thread of a cycle. -/
def schedule (m : Machine κ μ) (runnable : ThreadId) (now : UInt64) : ThreadId × Machine κ μ :=
  match m.scheduler.mode with
  | .roundRobin =>
    let m := m.rotate runnable now
    (m.scheduler.current, m)
  | .pinned id => (id, m)

/-- Let a thread execute an instruction if it is ready; how it went, if it went well. A fault
stops the thread. -/
def attempt (invoke : Invoke κ μ) (id : ThreadId) (now : UInt64) (m : Machine κ μ) :
    Option (Option Flow × Machine κ μ) :=
  match m.ready id now with
  | (false, m) => some (none, m)
  | (true, m) =>
    match m.step invoke id now with
    | none => none
    | some (.ok flow, m) => some (some flow, m)
    | some (.error fault, m) => some (none, m.faultThread id fault)

/-- Whether a thread has just returned from the synchronous call it is pinned for. -/
def syncDone (m : Machine κ μ) (id : ThreadId) (flow : Option Flow) : Bool :=
  match flow with
  | some (.syncReturn _) => m.scheduler.mode = .pinned id
  | _ => false

/-- One cycle of a run that began at `start`: its outcome, if it ends the run. -/
def cycle (invoke : Invoke κ μ) (start : UInt64) (budget : Budget) (m : Machine κ μ) :
    Option (Option RunOutcome × Machine κ μ) :=
  match m.runnable? with
  | none =>
    some (some (if m.scheduler.mode = .roundRobin then .idle else .pinnedStopped), m)
  | some runnable =>
    let (now, m) := m.now
    let (id, m) := m.schedule runnable now
    match m.attempt invoke id now with
    | none => none
    | some (flow, m) =>
      if budget.isUp start now then some (some .budget, m)
      else if m.syncDone id flow then some (some .syncReturned, m)
      else some (none, m)

/-- The cycles of a run, as many as `fuel` at most. -/
def cycles (invoke : Invoke κ μ) (start : UInt64) (budget : Budget) :
    Nat → Machine κ μ → Option (RunOutcome × Machine κ μ)
  | 0, _ => none
  | fuel + 1, m =>
    match m.cycle invoke start budget with
    | none => none
    | some (some outcome, m) => some (outcome, m)
    | some (none, m) => cycles invoke start budget fuel m

/-- Run the threads. -/
def run (invoke : Invoke κ μ) (fuel : Nat) (budget : Budget) (m : Machine κ μ) :
    Option (RunOutcome × Machine κ μ) :=
  let (start, m) := m.now
  cycles invoke start budget fuel m

end Machine
end ScriptMachine
