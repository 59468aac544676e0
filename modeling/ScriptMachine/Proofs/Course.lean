import Mathlib.Data.List.Basic
import ScriptMachine.Proofs.Timeline

/-!
# Courses

A timeline shows the machines that come about. A course shows besides what each of them is about to
do: a cycle that has given the turn to a thread is told from one whose thread is ready, and both
name the thread and what the clock showed. Without that a course is a timeline
(`HostProgram.map_instant_course`).

A cycle gives the turn and lets the thread go on at once: a course does not break off between the
two (`HostProgram.unbroken_course`).
-/

namespace ScriptMachine

-- no procedure compares hash maps; everything around them is compared by evaluation
noncomputable instance {κ : Type} : DecidableEq (Registry.Hashed κ) :=
  Classical.typeDecidableEq _

deriving noncomputable instance DecidableEq for Registry, HostOp

/-- What a machine is about to do. -/
inductive Act (κ : Type) where
  | rests
  | begins (op : HostOp κ)
  /-- A cycle has given the turn to a thread, which may have to wait. -/
  | selects (id : ThreadId) (now : UInt64)
  /-- A thread executes its next instruction. -/
  | executes (id : ThreadId) (now : UInt64)
deriving noncomputable instance DecidableEq for Act

/-- A point of a course: the machine, and what it is about to do. -/
structure Point (κ μ : Type) where
  machine : Machine κ μ
  act : Act κ := .rests

variable {κ μ α : Type}

/-- The operation that is about to begin. -/
def Act.op? : Act κ → Option (HostOp κ)
  | begins op => some op
  | rests | selects .. | executes .. => none

/-- A point as an instant of a timeline. -/
def Point.instant (p : Point κ μ) : Instant κ μ := { machine := p.machine, begins := p.act.op? }

/-- The points behind the one that a program begins at, given those of its operations. -/
def HostProgram.points
    (carryOut : (op : HostOp κ) → Machine κ μ → Option (op.Answer × Machine κ μ))
    (within : HostOp κ → Machine κ μ → List (Point κ μ)) :
    HostProgram κ μ α → Machine κ μ → List (Point κ μ)
  | pure _, _ => []
  | perform op next, m =>
    { machine := m, act := .begins op } :: within op m ++
      match carryOut op m with
      | none => []
      | some (a, m) => { machine := m } :: (next a).points carryOut within m
  | inspect next, m => (next m).points carryOut within m
  | remember f next, m =>
    let m := { m with memory := f m.memory }
    { machine := m } :: next.points carryOut within m

namespace Machine

/-- The points of the next instruction of a thread: those of the callback that it calls. -/
def stepPoints (inside : κ → ThreadId → Machine κ μ → List (Point κ μ)) (id : ThreadId)
    (m : Machine κ μ) : List (Point κ μ) :=
  match m.callback? id with
  | none => []
  | some (callback, m) => { machine := m } :: inside callback id m

/-- The points of a cycle from the moment on when the turn is given. -/
def attemptPoints (inside : κ → ThreadId → Machine κ μ → List (Point κ μ)) (id : ThreadId)
    (now : UInt64) (m : Machine κ μ) : List (Point κ μ) :=
  { machine := m, act := .selects id now } ::
    match m.ready id now with
    | (false, _) => []
    | (true, m) => { machine := m, act := .executes id now } :: m.stepPoints inside id

/-- The points within a cycle. -/
def cyclePoints (inside : κ → ThreadId → Machine κ μ → List (Point κ μ))
    (m : Machine κ μ) : List (Point κ μ) :=
  match m.runnable? with
  | none => []
  | some runnable =>
    let (now, m) := m.now
    let (id, m) := m.schedule runnable now
    m.attemptPoints inside id now

/-- The points of the cycles of a run, and of the ends of the cycles. -/
def cyclesPoints (invoke : Invoke κ μ)
    (inside : κ → ThreadId → Machine κ μ → List (Point κ μ)) (start : UInt64)
    (budget : Budget) : Nat → Machine κ μ → List (Point κ μ)
  | 0, _ => []
  | fuel + 1, m =>
    m.cyclePoints inside ++
      match m.cycle invoke start budget with
      | none => []
      | some (some _, m) => [{ machine := m }]
      | some (none, m) => { machine := m } :: cyclesPoints invoke inside start budget fuel m

/-- The points within an operation. -/
def points (callbacks : Callbacks κ μ) : Nat → HostOp κ → Machine κ μ → List (Point κ μ)
  | 0, _, _ => []
  | fuel + 1, op, m =>
    let inside (callback : κ) (id : ThreadId) :=
      (callbacks callback id).points (perform callbacks fuel) (points callbacks fuel)
    let running (m : Machine κ μ) (budget : Budget) :=
      { machine := m.now.2 } ::
        m.now.2.cyclesPoints (invoke callbacks fuel) inside m.now.1 budget fuel
    match op with
    | .run budget => running m budget
    | .call id name =>
      match m.beginCall id name true with
      | (.error _, _) => []
      | (.ok (), m) => running (m.pin id) .unlimited
    | _ => []

end Machine

/-- Everything that comes about while a host carries out a program, and what is done each time. -/
def HostProgram.course (callbacks : Callbacks κ μ) (fuel : Nat) (p : HostProgram κ μ α)
    (m : Machine κ μ) : List (Point κ μ) :=
  { machine := m } :: p.points (Machine.perform callbacks fuel) (Machine.points callbacks fuel) m

/-! ## Courses as timelines -/

open Machine

variable {callbacks : Callbacks κ μ} {fuel : Nat}
  {inside : κ → ThreadId → Machine κ μ → List (Point κ μ)}
  {inside' : κ → ThreadId → Machine κ μ → List (Instant κ μ)}

theorem HostProgram.map_instant_points
    {carryOut : (op : HostOp κ) → Machine κ μ → Option (op.Answer × Machine κ μ)}
    {within : HostOp κ → Machine κ μ → List (Point κ μ)}
    {within' : HostOp κ → Machine κ μ → List (Instant κ μ)}
    (hwithin : ∀ op m, (within op m).map Point.instant = within' op m) (p : HostProgram κ μ α)
    (m : Machine κ μ) :
    (p.points carryOut within m).map Point.instant = p.instants carryOut within' m := by
  induction p generalizing m with
  | pure a => rfl
  | perform op next ih =>
    simp only [points, instants, List.map_append, List.map_cons, hwithin]
    cases carryOut op m with
    | none => rfl
    | some r =>
      rw [List.map_cons, ih]
      rfl
  | inspect next ih => exact ih m m
  | remember f next ih =>
    simp only [points, instants, List.map_cons, ih]
    rfl

section

variable (hinside : ∀ callback id m, (inside callback id m).map Point.instant =
  inside' callback id m)
include hinside

theorem Machine.map_instant_stepPoints (id : ThreadId) (m : Machine κ μ) :
    (m.stepPoints inside id).map Point.instant = m.stepInstants inside' id := by
  simp only [stepPoints, stepInstants]
  cases m.callback? id with
  | none => rfl
  | some r =>
    rw [List.map_cons, hinside]
    rfl

theorem Machine.map_instant_cyclePoints (m : Machine κ μ) :
    (m.cyclePoints inside).map Point.instant = m.cycleInstants inside' := by
  simp only [cyclePoints, cycleInstants]
  cases m.runnable? with
  | none => rfl
  | some runnable =>
    simp only [attemptPoints, List.map_cons]
    generalize m.now.2.schedule runnable m.now.1 = scheduled
    cases scheduled.2.ready scheduled.1 m.now.1 with
    | mk woken m₁ =>
    cases woken with
    | false => rfl
    | true =>
      rw [List.map_cons, map_instant_stepPoints hinside]
      rfl

theorem Machine.map_instant_cyclesPoints (invoke : Invoke κ μ) (start : UInt64) (budget : Budget)
    (n : Nat) (m : Machine κ μ) :
    (m.cyclesPoints invoke inside start budget n).map Point.instant =
      m.cyclesInstants invoke inside' start budget n := by
  induction n generalizing m with
  | zero => rfl
  | succ n ih =>
    simp only [cyclesPoints, cyclesInstants, List.map_append, map_instant_cyclePoints hinside]
    cases m.cycle invoke start budget with
    | none => rfl
    | some r =>
      obtain ⟨outcome, m₁⟩ := r
      cases outcome with
      | none =>
        rw [List.map_cons, ih]
        rfl
      | some outcome => rfl

end

theorem Machine.map_instant_points (callbacks : Callbacks κ μ) (fuel : Nat) (op : HostOp κ)
    (m : Machine κ μ) :
    (points callbacks fuel op m).map Point.instant = instants callbacks fuel op m := by
  induction fuel generalizing op m with
  | zero => rfl
  | succ fuel ih =>
    have hinside (callback : κ) (id : ThreadId) (m : Machine κ μ) :
        ((callbacks callback id).points (perform callbacks fuel) (points callbacks fuel) m).map
          Point.instant =
        (callbacks callback id).instants (perform callbacks fuel) (instants callbacks fuel) m :=
      HostProgram.map_instant_points ih _ m
    cases op with
    | run budget =>
      simp only [points, instants, List.map_cons, map_instant_cyclesPoints hinside]
      rfl
    | call id name =>
      simp only [points, instants]
      cases m.beginCall id name true with
      | mk r m₁ =>
      cases r with
      | error e => rfl
      | ok u =>
        simp only [List.map_cons, map_instant_cyclesPoints hinside]
        rfl
    | _ => rfl

/-- Without what is about to happen, a course is a timeline. -/
theorem HostProgram.map_instant_course (callbacks : Callbacks κ μ) (fuel : Nat)
    (p : HostProgram κ μ α) (m : Machine κ μ) :
    (p.course callbacks fuel m).map Point.instant = p.timeline callbacks fuel m := by
  rw [course, List.map_cons, map_instant_points (Machine.map_instant_points callbacks fuel)]
  rfl

/-! ## Cycles do not break off -/

/-- A thread has the turn and is ready for its next instruction. -/
def Point.Due (p : Point κ μ) : Prop :=
  ∃ id now, p.act = .selects id now ∧ (p.machine.ready id now).1 = true

/-- No thread is left that is ready for its next instruction. -/
def Unbroken (points : List (Point κ μ)) : Prop := ∀ p ∈ points.getLast?, ¬ p.Due

theorem not_due_rests (m : Machine κ μ) : ¬ Point.Due { machine := m } := by
  rintro ⟨id, now, ⟨⟩, -⟩

namespace Unbroken

variable {p : Point κ μ} {l l' : List (Point κ μ)}

theorem nil : Unbroken ([] : List (Point κ μ)) := fun _ hp => nomatch hp

theorem append (h : Unbroken l) (h' : Unbroken l') : Unbroken (l ++ l') := by
  intro p hp
  rw [List.getLast?_append] at hp
  cases hlast : l'.getLast? with
  | none =>
    rw [hlast] at hp
    exact h p hp
  | some q =>
    rw [hlast] at hp
    exact h' p (hlast.trans hp)

theorem cons (hp : ¬ p.Due) (h : Unbroken l) : Unbroken (p :: l) := by
  have hsingle : Unbroken [p] := fun q hq => by
    cases hq
    exact hp
  exact hsingle.append h

theorem cons_cons {q : Point κ μ} (h : Unbroken (q :: l)) : Unbroken (p :: q :: l) := by
  rwa [Unbroken, List.getLast?_cons_cons]

theorem program {carryOut : (op : HostOp κ) → Machine κ μ → Option (op.Answer × Machine κ μ)}
    {within : HostOp κ → Machine κ μ → List (Point κ μ)}
    (hwithin : ∀ op m, Unbroken (within op m)) (p : HostProgram κ μ α) (m : Machine κ μ) :
    Unbroken (p.points carryOut within m) := by
  induction p generalizing m with
  | pure a => exact nil
  | perform op next ih =>
    have hbegins : ¬ Point.Due { machine := m, act := .begins op } := by
      rintro ⟨id, now, ⟨⟩, -⟩
    simp only [HostProgram.points]
    refine .append (.cons hbegins (hwithin op m)) ?_
    split
    · exact nil
    · exact .cons (not_due_rests _) (ih _ _)
  | inspect next ih => exact ih m m
  | remember f next ih => exact .cons (not_due_rests _) (ih _)

theorem attempt (hinside : ∀ callback id m, Unbroken (inside callback id m)) (id : ThreadId)
    (now : UInt64) (m : Machine κ μ) : Unbroken (m.attemptPoints inside id now) := by
  simp only [attemptPoints]
  split
  · rename_i hready
    refine .cons ?_ .nil
    rintro ⟨x, time, hact, hdue⟩
    cases hact
    rw [hready] at hdue
    cases hdue
  · rename_i m₁ _
    have hexecutes : ¬ Point.Due { machine := m₁, act := .executes id now } := by
      rintro ⟨x, time, ⟨⟩, -⟩
    refine .cons_cons (.cons hexecutes ?_)
    simp only [stepPoints]
    split
    · exact nil
    · exact .cons (not_due_rests _) (hinside _ _ _)

theorem cycles (hinside : ∀ callback id m, Unbroken (inside callback id m)) (invoke : Invoke κ μ)
    (start : UInt64) (budget : Budget) (n : Nat) (m : Machine κ μ) :
    Unbroken (m.cyclesPoints invoke inside start budget n) := by
  induction n generalizing m with
  | zero => exact nil
  | succ n ih =>
    have hcycle : Unbroken (m.cyclePoints inside) := by
      simp only [cyclePoints]
      split
      · exact nil
      · exact attempt hinside _ _ _
    simp only [cyclesPoints]
    refine hcycle.append ?_
    split
    · exact nil
    · exact .cons (not_due_rests _) .nil
    · exact .cons (not_due_rests _) (ih _)

theorem operation (callbacks : Callbacks κ μ) (fuel : Nat) (op : HostOp κ) (m : Machine κ μ) :
    Unbroken (points callbacks fuel op m) := by
  induction fuel generalizing op m with
  | zero => exact nil
  | succ fuel ih =>
    have hinside (callback : κ) (id : ThreadId) (m : Machine κ μ) :
        Unbroken ((callbacks callback id).points (perform callbacks fuel)
          (points callbacks fuel) m) := program ih _ m
    have hcycles := cycles hinside (invoke callbacks fuel)
    cases op with
    | run budget => exact .cons (not_due_rests _) (hcycles _ _ _ _)
    | call id name =>
      simp only [points]
      split
      · exact nil
      · exact .cons (not_due_rests _) (hcycles _ _ _ _)
    | _ => exact nil

end Unbroken

/-- A course does not end with a thread that is ready for its next instruction. -/
theorem HostProgram.unbroken_course (callbacks : Callbacks κ μ) (fuel : Nat)
    (p : HostProgram κ μ α) (m : Machine κ μ) : Unbroken (p.course callbacks fuel m) :=
  .cons (not_due_rests m) (.program (.operation callbacks fuel) p m)

end ScriptMachine
