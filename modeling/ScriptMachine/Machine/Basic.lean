import ScriptMachine.Clock
import ScriptMachine.Config.Basic
import ScriptMachine.Machine.Event
import ScriptMachine.Registry.Basic
import ScriptMachine.Thread.Step

/-!
# Machines

A machine holds threads in numbered slots, the host functions they can call, and a scheduler
that shares the time among them. It is the whole state of the library, and its operations are
functions on it.

`κ` is the type that names the host's callbacks, and `μ` is what the host remembers between
them; the machine knows neither. What it prints and logs is added to its journal.
-/

namespace ScriptMachine

/-- Which threads get turns. -/
inductive Mode where
  /-- Running threads take turns, each for its own timeslice. -/
  | roundRobin
  /-- One thread runs until its synchronous call returns. -/
  | pinned (id : ThreadId)
deriving DecidableEq, Repr, Inhabited

/-- Whose turn it is. -/
structure Scheduler where
  mode : Mode := .roundRobin
  current : ThreadId := 0
  /-- When the turn began; without a beginning the next turn goes to the current thread. -/
  turnStarted : Option UInt64 := none
deriving DecidableEq, Repr, Inhabited

/-- Give the next turn to a thread. -/
def Scheduler.select (s : Scheduler) (id : ThreadId) : Scheduler :=
  { s with current := id, turnStarted := none }

/-- The state of a machine. -/
structure Machine (κ μ : Type) where
  threads : Array (Option Thread) := #[]
  registry : Registry κ := .empty .linear
  scheduler : Scheduler := {}
  clock : Clock
  config : Config
  tracing : Bool
  journal : Array Emission := #[]
  /-- What the host remembers. -/
  memory : μ

namespace Machine

variable {κ μ : Type}

/-- A machine without threads. -/
def create (config : Config) (clock : Clock) (memory : μ) : Machine κ μ :=
  { clock, config, tracing := config.trace, memory }

/-! ## Threads -/

/-- The thread in a slot. -/
def thread? (m : Machine κ μ) (id : ThreadId) : Option Thread := (m.threads[id]?).join

/-- Change a thread, if it is loaded. -/
def modifyThread (m : Machine κ μ) (id : ThreadId) (f : Thread → Thread) : Machine κ μ :=
  { m with threads := m.threads.modify id (Option.map f) }

/-- Put a thread into its slot. -/
def setThread (m : Machine κ μ) (id : ThreadId) (t : Option Thread) : Machine κ μ :=
  { m with threads := m.threads.setIfInBounds id t }

/-- Take a thread out of its slot. It is then held nowhere else and changes in place. -/
@[noinline] def takeThread (m : Machine κ μ) (id : ThreadId) : Option Thread × Machine κ μ :=
  (m.thread? id, m.setThread id none)

theorem thread?_setThread (m : Machine κ μ) (id other : ThreadId) (t : Option Thread) :
    (m.setThread id t).thread? other =
      if id = other ∧ id < m.threads.size then t else m.thread? other := by
  simp only [thread?, setThread, Array.getElem?_setIfInBounds]
  grind

@[simp] theorem thread?_setThread_ne {m : Machine κ μ} {id other : ThreadId} {t : Option Thread}
    (h : id ≠ other) : (m.setThread id t).thread? other = m.thread? other := by
  simp [thread?_setThread, h]

theorem thread?_modifyThread (m : Machine κ μ) (id other : ThreadId) (f : Thread → Thread) :
    (m.modifyThread id f).thread? other =
      if id = other then (m.thread? other).map f else m.thread? other := by
  simp only [thread?, modifyThread, Array.getElem?_modify]
  split <;> cases m.threads[other]? <;> simp_all

/-- Whether a thread is loaded and running. -/
def isRunning (m : Machine κ μ) (id : ThreadId) : Bool :=
  (m.thread? id).any (·.running)

/-- The loaded threads, in order. -/
def loadedThreads (m : Machine κ μ) : List ThreadId :=
  (List.range m.threads.size).filter fun id => (m.thread? id).isSome

/-- A change of a thread that may fail. -/
def onThread (m : Machine κ μ) (id : ThreadId) (f : Thread → Except CallError Thread) :
    Except CallError Unit × Machine κ μ :=
  match m.thread? id with
  | none => (.error (.invalidThread id), m)
  | some t =>
    match f t with
    | .ok t => (.ok (), m.setThread id (some t))
    | .error e => (.error e, m)

/-! ## The journal and the clock -/

/-- Add to the journal. -/
def emit (m : Machine κ μ) (e : Emission) : Machine κ μ :=
  { m with journal := m.journal.push e }

def log (m : Machine κ μ) (e : Event) : Machine κ μ := m.emit (.log e)

def print (m : Machine κ μ) (text : String) : Machine κ μ := m.emit (.output text)

/-- Read the clock. -/
def now (m : Machine κ μ) : UInt64 × Machine κ μ :=
  let (time, clock) := m.clock.read
  (time, { m with clock })

/-! ## Faults -/

/-- Stop a thread with a fault. Other threads are not concerned. -/
def faultThread (m : Machine κ μ) (id : ThreadId) (fault : Fault) : Machine κ μ :=
  match m.thread? id with
  | none => m
  | some t => (m.log (.faulted id t.ip fault)).modifyThread id (·.stopWith fault)

end Machine
end ScriptMachine
