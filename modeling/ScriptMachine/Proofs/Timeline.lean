import Mathlib.Data.List.Basic
import ScriptMachine.Proofs.Threads

/-!
# Timelines

What comes about while a host does what it does, in order: the machine before and after each of its
operations, and within a run or a synchronous call the machine between any two cycles, after the
turn of each cycle is given, and at every point of the callbacks, whose operations have a timeline
of their own within it. `HostProgram.run` tells where a program ends; its timeline tells what it
comes past, also if it never ends. Then it is as long as the fuel lasts.
-/

namespace ScriptMachine

/-- A point of a timeline: the machine, and the operation that is about to begin. -/
structure Instant (κ μ : Type) where
  machine : Machine κ μ
  begins : Option (HostOp κ) := none

variable {κ μ α : Type}

/-- The instants behind the one that a program begins at, given those of its operations. -/
def HostProgram.instants
    (carryOut : (op : HostOp κ) → Machine κ μ → Option (op.Answer × Machine κ μ))
    (within : HostOp κ → Machine κ μ → List (Instant κ μ)) :
    HostProgram κ μ α → Machine κ μ → List (Instant κ μ)
  | pure _, _ => []
  | perform op next, m =>
    { machine := m, begins := op } :: within op m ++
      match carryOut op m with
      | none => []
      | some (a, m) => { machine := m } :: (next a).instants carryOut within m
  | inspect next, m => (next m).instants carryOut within m
  | remember f next, m =>
    let m := { m with memory := f m.memory }
    { machine := m } :: next.instants carryOut within m

namespace Machine

/-- The callback that the next instruction of a thread calls, if it calls one, and the machine in
which it begins. -/
def callback? (m : Machine κ μ) (id : ThreadId) : Option (κ × Machine κ μ) :=
  (m.thread? id).bind fun t => (t.instruction? t.ip).bind fun i =>
    match i.op, i.hostCallTarget 0 with
    | .callHost, .ok call =>
      (m.registry.resolve? (t.hostCallName call) id).map fun f => (f, m.entering id t i)
    | _, _ => none

/-- The instants of the next instruction of a thread: those of the callback that it calls. -/
def stepInstants (inside : κ → ThreadId → Machine κ μ → List (Instant κ μ)) (id : ThreadId)
    (m : Machine κ μ) : List (Instant κ μ) :=
  match m.callback? id with
  | none => []
  | some (callback, m) => { machine := m } :: inside callback id m

/-- The instants within a cycle: the turn is given, the thread may wake, and may call a callback. -/
def cycleInstants (inside : κ → ThreadId → Machine κ μ → List (Instant κ μ))
    (m : Machine κ μ) : List (Instant κ μ) :=
  match m.runnable? with
  | none => []
  | some runnable =>
    let (now, m) := m.now
    let (id, m) := m.schedule runnable now
    { machine := m } ::
      match m.ready id now with
      | (false, _) => []
      | (true, m) => { machine := m } :: m.stepInstants inside id

/-- The instants of the cycles of a run, and of the ends of the cycles. -/
def cyclesInstants (invoke : Invoke κ μ)
    (inside : κ → ThreadId → Machine κ μ → List (Instant κ μ)) (start : UInt64)
    (budget : Budget) : Nat → Machine κ μ → List (Instant κ μ)
  | 0, _ => []
  | fuel + 1, m =>
    m.cycleInstants inside ++
      match m.cycle invoke start budget with
      | none => []
      | some (some _, m) => [{ machine := m }]
      | some (none, m) =>
        { machine := m } :: cyclesInstants invoke inside start budget fuel m

/-- The instants within an operation. Only those operations that run threads have any. -/
def instants (callbacks : Callbacks κ μ) : Nat → HostOp κ → Machine κ μ → List (Instant κ μ)
  | 0, _, _ => []
  | fuel + 1, op, m =>
    let inside (callback : κ) (id : ThreadId) :=
      (callbacks callback id).instants (perform callbacks fuel) (instants callbacks fuel)
    let running (m : Machine κ μ) (budget : Budget) :=
      { machine := m.now.2 } ::
        m.now.2.cyclesInstants (invoke callbacks fuel) inside m.now.1 budget fuel
    match op with
    | .run budget => running m budget
    | .call id name =>
      match m.beginCall id name true with
      | (.error _, _) => []
      | (.ok (), m) => running (m.pin id) .unlimited
    | _ => []

end Machine

/-- Everything that comes about while a host carries out a program. -/
def HostProgram.timeline (callbacks : Callbacks κ μ) (fuel : Nat) (p : HostProgram κ μ α)
    (m : Machine κ μ) : List (Instant κ μ) :=
  { machine := m } ::
    p.instants (Machine.perform callbacks fuel) (Machine.instants callbacks fuel) m

/-- A timeline ends with the machine that the program leaves. -/
theorem HostProgram.getLast?_timeline {callbacks : Callbacks κ μ} {fuel : Nat}
    {p : HostProgram κ μ α} {a : α} {m m' : Machine κ μ}
    (h : p.run (Machine.perform callbacks fuel) m = some (a, m')) :
    (p.timeline callbacks fuel m).getLast?.map Instant.machine = some m' := by
  induction p generalizing m with
  | pure b =>
    cases h
    rfl
  | perform op next ih =>
    simp only [run] at h
    cases hop : m.perform callbacks fuel op with
    | none =>
      rw [hop] at h
      cases h
    | some r =>
      rw [hop] at h
      have hrest := ih r.1 h
      rw [timeline] at hrest ⊢
      simp only [instants, hop, List.cons_append, List.getLast?_cons_cons]
      rwa [← List.cons_append, List.getLast?_append_of_ne_nil _ (List.cons_ne_nil _ _)]
  | inspect next ih => exact ih m h
  | remember f next ih =>
    rw [timeline, instants, List.getLast?_cons_cons]
    exact ih h

end ScriptMachine
