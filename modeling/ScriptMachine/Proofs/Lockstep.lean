import Mathlib.Data.List.Forall2
import ScriptMachine.Proofs.Course
import ScriptMachine.Proofs.Likeness

/-!
# In lockstep

Two machines that are alike run in lockstep: the same threads get the same turns at the same times,
execute the same instructions, and call the same callbacks. So the courses of a program on both are
alike from point to point, and if it comes to an end on one of them, it does on the other one with
the same result (`Machine.Alike.lockstep`).
-/

namespace ScriptMachine

variable {κ μ α : Type} {L : Leeway}

open Machine

/-- A program that does the same on machines that are alike, whatever it sees of them. -/
def HostProgram.Blind (L : Leeway) : HostProgram κ μ α → Prop
  | pure _ => True
  | perform _ next => ∀ a, (next a).Blind L
  | inspect next => ∀ m, (next m).Blind L ∧ ∀ m', Alike L m m' → next m' = next m
  | remember _ next => next.Blind L

/-- A program may look at what is the same on machines that are alike. -/
theorem HostProgram.blind_look {f : Machine κ μ → α} (hf : ∀ m m', Alike L m m' → f m' = f m) :
    (look f).Blind L :=
  fun m => ⟨trivial, fun m' h => congrArg pure (hf m m' h)⟩

/-- Two points of courses that are about to do the same, on machines that are alike. -/
structure Point.Alike (L : Leeway) (p q : Point κ μ) : Prop where
  act : q.act = p.act
  machine : Machine.Alike L p.machine q.machine

/-- Whatever is done to one of two machines goes on the other one in the same way, point by point
and with the same result, if neither the host nor its callbacks tell the machines apart. -/
def Machine.Lockstep (L : Leeway) (callbacks : Callbacks κ μ) (m m' : Machine κ μ) : Prop :=
  (∀ f id, (callbacks f id).Blind L) →
  ∀ {α : Type} (p : HostProgram κ μ α), p.Blind L → ∀ fuel,
    List.Forall₂ (Point.Alike L) (p.course callbacks fuel m) (p.course callbacks fuel m') ∧
    Option.Rel (Matches L) (p.run (perform callbacks fuel) m) (p.run (perform callbacks fuel) m')

namespace Machine.Alike

variable {m m' : Machine κ μ} {id : ThreadId}

/-! ## Turns -/

theorem runnable? (h : Alike L m m') : m'.runnable? = m.runnable? := by
  simp only [Machine.runnable?, h.scheduler, h.isRunning]
  cases m.scheduler.mode with
  | pinned id => rfl
  | roundRobin =>
    refine h.findIdx? fun {id u u'} hslot => ?_
    cases hslot with
    | none => rfl
    | some hadmits => exact hadmits.running

theorem nextRunning? (h : Alike L m m') (first : ThreadId) :
    m'.nextRunning? first = m.nextRunning? first := by
  simp only [Machine.nextRunning?, h.size, funext h.isRunning]

theorem turnOver (h : Alike L m m') (started now : UInt64) :
    m'.turnOver started now = m.turnOver started now := by
  simp only [Machine.turnOver, h.scheduler]
  obtain ⟨ht, ht'⟩ | ⟨t, t', ht, ht', stats, digest, -, -, rfl⟩ :=
    rel_cases (h.thread m.scheduler.current)
  · rw [ht, ht']
  · rw [ht, ht']
    rfl

theorem beginTurn (h : Alike L m m') (first fallback : ThreadId) (now : UInt64) :
    Alike L (m.beginTurn first fallback now) (m'.beginTurn first fallback now) := by
  have hgiven (scheduler : Scheduler) :
      Alike L { m with scheduler } { m' with scheduler } := by
    obtain ⟨_, _, _, rfl⟩ := h.exists_eq
    exact h.equip m.registry scheduler m.clock m.memory
  simp only [Machine.beginTurn, h.nextRunning?, h.scheduler]
  exact ((hgiven _).modifyThread fun _ _ hadmits => hadmits.turn).log _

theorem schedule (h : Alike L m m') (runnable : ThreadId) (now : UInt64) :
    Matches L (m.schedule runnable now) (m'.schedule runnable now) := by
  have hrotate : Alike L (m.rotate runnable now) (m'.rotate runnable now) := by
    simp only [Machine.rotate, h.scheduler, h.turnOver]
    split
    · exact h.beginTurn _ _ _
    · split
      · exact h.beginTurn _ _ _
      · exact h
  simp only [Machine.schedule, h.scheduler]
  split
  · exact ⟨congrArg Scheduler.current hrotate.scheduler, hrotate⟩
  · exact ⟨rfl, h⟩

theorem ready (h : Alike L m m') (id : ThreadId) (now : UInt64) :
    Matches L (m.ready id now) (m'.ready id now) := by
  simp only [Machine.ready]
  obtain ⟨ht, ht'⟩ | ⟨t, t', ht, ht', hadmits⟩ := rel_cases (h.thread id)
  · rw [ht, ht']
    exact ⟨rfl, h⟩
  · have hpause : t'.paused = t.paused ∧ t'.wakeAt = t.wakeAt := by
      obtain ⟨_, _, -, -, rfl⟩ := hadmits
      exact ⟨rfl, rfl⟩
    simp only [ht, ht', hpause, h.scheduler]
    split
    · exact ⟨rfl, h⟩
    · split
      · exact ⟨rfl, h.control fun _ _ _ => rfl⟩
      · exact ⟨rfl, h⟩

/-! ## Instructions -/

theorem executeOwn (h : Alike L m m') (id : ThreadId) (i : Instruction) (now : UInt64) :
    Matches L (m.executeOwn id i now) (m'.executeOwn id i now) := by
  have htaken : Alike L (m.setThread id none) (m'.setThread id none) := h.setThread .none
  simp only [Machine.executeOwn, takeThread]
  obtain ⟨ht, ht'⟩ | ⟨t, t', ht, ht', hadmits⟩ := rel_cases (h.thread id)
  · simp only [ht, ht']
    exact ⟨rfl, htaken⟩
  · obtain ⟨flow, u, u', hu, hu', hadmits'⟩ :=
      hadmits.answers (f := fun t => t.execute i now (m.scheduler.mode ≠ .roundRobin))
        fun t stats digest => Thread.execute_recorded stats digest t i now _
    have hevent : outcomeEvent? id i.op flow u' = outcomeEvent? id i.op flow u := by
      obtain ⟨_, _, -, -, rfl⟩ := hadmits'
      rfl
    simp only [ht, ht', htaken.scheduler,
      show (m.setThread id none).scheduler = m.scheduler from rfl]
    simp only [hu, hu', hevent]
    refine ⟨rfl, ?_⟩
    split
    · exact (htaken.set hadmits').log _
    · exact htaken.set hadmits'

/-- The machines in which the callback of a host call begins. -/
theorem entering (h : Alike L m m') {t t' : Thread} (ht : L.Admits id t t') (i : Instruction) :
    Alike L (m.entering id t i) (m'.entering id t' i) := by
  have htraced := h.printTrace ht i
  obtain ⟨_, _, -, -, rfl⟩ := ht
  exact htraced.control fun _ _ _ => rfl

theorem callback? (h : Alike L m m') (id : ThreadId) :
    Option.Rel (Matches L) (m.callback? id) (m'.callback? id) := by
  simp only [Machine.callback?, h.registry]
  obtain ⟨ht, ht'⟩ | ⟨t, t', ht, ht', hadmits⟩ := rel_cases (h.thread id)
  · rw [ht, ht']
    exact .none
  · have hentering := fun i => h.entering hadmits i
    obtain ⟨stats, digest, -, -, rfl⟩ := hadmits
    rw [ht, ht', Option.bind_some, Option.bind_some,
      show (t.recorded stats digest).instruction? (t.recorded stats digest).ip =
        t.instruction? t.ip from rfl]
    cases t.instruction? t.ip with
    | none => exact .none
    | some i =>
      simp only [Option.bind_some]
      split
      · rename_i call _ _
        rw [show (t.recorded stats digest).hostCallName call = t.hostCallName call from rfl]
        cases m.registry.resolve? (t.hostCallName call) id with
        | none => exact .none
        | some f => exact .some ⟨rfl, hentering i⟩
      · exact .none

section

variable {invoke : Invoke κ μ}
  (hinvoke : ∀ (callback : κ) (id : ThreadId) {m m' : Machine κ μ}, Alike L m m' →
    Option.Rel (Alike L) (invoke callback id m) (invoke callback id m'))
include hinvoke

theorem callHost (h : Alike L m m') (id : ThreadId) (ip call : Nat) :
    Option.Rel (Matches L) (m.callHost invoke id ip call) (m'.callHost invoke id ip call) := by
  have hname : ((m'.thread? id).bind fun t => t.program.hostCalls[call]?) =
      (m.thread? id).bind fun t => t.program.hostCalls[call]? :=
    h.read (f := fun u => u.bind fun t => t.program.hostCalls[call]?) (fun _ _ _ => rfl) id
  simp only [Machine.callHost, hname, h.registry]
  cases m.registry.resolve? _ id with
  | none => exact .some ⟨rfl, h⟩
  | some callback =>
    have hentered : Alike L (m.modifyThread id fun t => { t with ip := ip + 1 })
        (m'.modifyThread id fun t => { t with ip := ip + 1 }) := h.control fun _ _ _ => rfl
    obtain ⟨hr, hr'⟩ | ⟨r, r', hr, hr', halike⟩ := rel_cases (hinvoke callback id hentered)
    · simp only [hr, hr']
      exact .none
    · simp only [hr, hr']
      exact .some ⟨rfl, halike⟩

theorem dispatch (h : Alike L m m') (id : ThreadId) (ip : Nat) (i : Instruction) (now : UInt64) :
    Option.Rel (Matches L) (m.dispatch invoke id ip i now) (m'.dispatch invoke id ip i now) := by
  by_cases hop : i.op = .callHost
  · simp only [Machine.dispatch, hop]
    cases i.hostCallTarget 0 with
    | error fault => exact .some ⟨rfl, h⟩
    | ok call => exact h.callHost hinvoke id ip call
  · rw [dispatch_own hop, dispatch_own hop]
    exact .some (h.executeOwn id i now)

theorem step (h : Alike L m m') (id : ThreadId) (now : UInt64) :
    Option.Rel (Matches L) (m.step invoke id now) (m'.step invoke id now) := by
  simp only [Machine.step]
  obtain ⟨ht, ht'⟩ | ⟨t, t', ht, ht', hadmits⟩ := rel_cases (h.thread id)
  · rw [ht, ht']
    exact .some ⟨rfl, h⟩
  · have htraced := fun i => h.printTrace hadmits i
    obtain ⟨stats, digest, -, -, rfl⟩ := hadmits
    simp only [ht, ht', show (t.recorded stats digest).instruction? (t.recorded stats digest).ip =
      t.instruction? t.ip from rfl]
    cases t.instruction? t.ip with
    | none => exact .some ⟨rfl, h⟩
    | some i =>
      simp only [show (t.recorded stats digest).ip = t.ip from rfl]
      obtain ⟨hr, hr'⟩ | ⟨flow, n, n', hr, hr', hn⟩ :=
        matches_cases ((htraced i).dispatch hinvoke id t.ip i now)
      · simp only [hr, hr']
        exact .none
      · simp only [hr, hr']
        cases flow with
        | error fault => exact .some ⟨rfl, hn⟩
        | ok flow =>
          exact .some ⟨rfl, hn.modifyThread fun _ _ hadmits => hadmits.settle t.ip flow⟩

theorem attempt (h : Alike L m m') (id : ThreadId) (now : UInt64) :
    Option.Rel (Matches L) (m.attempt invoke id now) (m'.attempt invoke id now) := by
  simp only [Machine.attempt]
  obtain ⟨goes, n, n', hready, hready', hn⟩ := (h.ready id now).exists_eq
  simp only [hready, hready']
  cases goes with
  | false => exact .some ⟨rfl, hn⟩
  | true =>
    obtain ⟨hr, hr'⟩ | ⟨flow, k, k', hr, hr', hk⟩ := matches_cases (hn.step hinvoke id now)
    · simp only [hr, hr']
      exact .none
    · simp only [hr, hr']
      cases flow with
      | error fault => exact .some ⟨rfl, hk.faultThread id fault⟩
      | ok flow => exact .some ⟨rfl, hk⟩

/-! ## Runs -/

theorem cycle (h : Alike L m m') (start : UInt64) (budget : Budget) :
    Option.Rel (Matches L) (m.cycle invoke start budget) (m'.cycle invoke start budget) := by
  simp only [Machine.cycle, h.runnable?, h.scheduler]
  cases m.runnable? with
  | none => exact .some ⟨rfl, h⟩
  | some runnable =>
    have hscheduled := h.now.machine.schedule runnable m.now.1
    simp only [h.now.answer, hscheduled.answer]
    obtain ⟨hr, hr'⟩ | ⟨flow, n, n', hr, hr', hn⟩ := matches_cases
      (hscheduled.machine.attempt hinvoke (m.now.2.schedule runnable m.now.1).1 m.now.1)
    · simp only [hr, hr']
      exact .none
    · simp only [hr, hr', show n'.syncDone = n.syncDone by unfold syncDone; rw [hn.scheduler]]
      split
      · exact .some ⟨rfl, hn⟩
      · split
        · exact .some ⟨rfl, hn⟩
        · exact .some ⟨rfl, hn⟩

theorem cycles (h : Alike L m m') (start : UInt64) (budget : Budget) (fuel : Nat) :
    Option.Rel (Matches L) (m.cycles invoke start budget fuel)
      (m'.cycles invoke start budget fuel) := by
  induction fuel generalizing m m' with
  | zero => exact .none
  | succ fuel ih =>
    simp only [Machine.cycles]
    obtain ⟨hr, hr'⟩ | ⟨outcome, n, n', hr, hr', hn⟩ :=
      matches_cases (h.cycle hinvoke start budget)
    · simp only [hr, hr']
      exact .none
    · simp only [hr, hr']
      cases outcome with
      | none => exact ih hn
      | some outcome => exact .some ⟨rfl, hn⟩

theorem run (h : Alike L m m') (fuel : Nat) (budget : Budget) :
    Option.Rel (Matches L) (m.run invoke fuel budget) (m'.run invoke fuel budget) := by
  simp only [Machine.run, h.now.answer]
  exact h.now.machine.cycles hinvoke m.now.1 budget fuel

theorem callFunction (h : Alike L m m') (fuel : Nat) (id : ThreadId) (name : String) :
    Option.Rel (Matches L) (m.callFunction invoke fuel id name)
      (m'.callFunction invoke fuel id name) := by
  simp only [Machine.callFunction]
  obtain ⟨ht, ht'⟩ | ⟨t, t', ht, ht', hadmits⟩ := rel_cases (h.thread id)
  · rw [ht, ht']
    exact .some ⟨rfl, h⟩
  · obtain ⟨answer, n, n', hbegun, hbegun', hn⟩ := (h.beginCall id name true).exists_eq
    simp only [ht, ht', hadmits.running, hbegun, hbegun']
    cases answer with
    | error e => exact .some ⟨rfl, hn⟩
    | ok u =>
      obtain ⟨hr, hr'⟩ | ⟨outcome, k, k', hr, hr', hk⟩ :=
        matches_cases ((hn.pin id).run hinvoke fuel .unlimited)
      · simp only [hr, hr']
        exact .none
      · simp only [hr, hr', hn.scheduler]
        exact .some (hk.unpin id n.scheduler t.running outcome)

end

/-! ## Operations -/

/-- What the host remembers may change in the same way. -/
theorem remember (h : Alike L m m') (f : μ → μ) :
    Alike L { m with memory := f m.memory } { m' with memory := f m'.memory } := by
  obtain ⟨_, _, _, rfl⟩ := h.exists_eq
  exact h.equip m.registry m.scheduler m.clock (f m.memory)

/-- A program, if the operations that it consists of do the same on machines that are alike. -/
theorem program {carryOut : (op : HostOp κ) → Machine κ μ → Option (op.Answer × Machine κ μ)}
    (hop : ∀ (op : HostOp κ) {m m' : Machine κ μ}, Alike L m m' →
      Option.Rel (Matches L) (carryOut op m) (carryOut op m'))
    {p : HostProgram κ μ α} (hp : p.Blind L) (h : Alike L m m') :
    Option.Rel (Matches L) (p.run carryOut m) (p.run carryOut m') := by
  induction p generalizing m m' with
  | pure a => exact .some ⟨rfl, h⟩
  | perform op next ih =>
    simp only [HostProgram.run]
    obtain ⟨hr, hr'⟩ | ⟨a, n, n', hr, hr', hn⟩ := matches_cases (hop op h)
    · simp only [hr, hr']
      exact .none
    · simp only [hr, hr']
      exact ih a (hp a) hn
  | inspect next ih =>
    simp only [HostProgram.run, (hp m).2 m' h]
    exact ih m (hp m).1 h
  | remember f next ih => exact ih hp (h.remember f)

theorem invoke {callbacks : Callbacks κ μ} {fuel : Nat}
    (hcallbacks : ∀ f id, (callbacks f id).Blind L)
    (hop : ∀ (op : HostOp κ) {m m' : Machine κ μ}, Alike L m m' →
      Option.Rel (Matches L) (m.perform callbacks fuel op) (m'.perform callbacks fuel op))
    (f : κ) (id : ThreadId) (h : Alike L m m') :
    Option.Rel (Alike L) (Machine.invoke callbacks fuel f id m)
      (Machine.invoke callbacks fuel f id m') := by
  simp only [Machine.invoke]
  obtain ⟨hr, hr'⟩ | ⟨r, r', hr, hr', hmatches⟩ := rel_cases (h.program hop (hcallbacks f id))
  · rw [hr, hr']
    exact .none
  · rw [hr, hr']
    exact .some hmatches.machine

/-- **Operations do the same on machines that are alike**, if the callbacks cannot tell the machines
apart. -/
theorem perform {callbacks : Callbacks κ μ} (hcallbacks : ∀ f id, (callbacks f id).Blind L)
    (fuel : Nat) (op : HostOp κ) (h : Alike L m m') :
    Option.Rel (Matches L) (m.perform callbacks fuel op) (m'.perform callbacks fuel op) := by
  induction fuel generalizing op m m' with
  | zero => exact .none
  | succ fuel ih =>
    have hinvoke (f : κ) (id : ThreadId) {m m' : Machine κ μ} (h : Alike L m m') :
        Option.Rel (Alike L) (Machine.invoke callbacks fuel f id m)
          (Machine.invoke callbacks fuel f id m') :=
      h.invoke hcallbacks (fun op _ _ h => ih op h) f id
    have hequip := h.equip
    cases op with
    | load image priority => exact .some (h.load image priority)
    | loadFile contents priority => exact .some (h.loadFile contents priority)
    | unload id => exact .some ⟨rfl, h.unload id⟩
    | reset id => exact .some (h.reset id)
    | start id => exact .some (h.start id)
    | stop id => exact .some (h.stop id)
    | pause id ms => exact .some (h.pause id ms)
    | unpause id => exact .some (h.unpause id)
    | run budget => exact h.run hinvoke fuel budget
    | call id name => exact h.callFunction hinvoke fuel id name
    | invoke id name => exact .some (h.beginCall id name false)
    | pass id v => exact .some (h.pass id v)
    | hostReturn id params v => exact .some ⟨rfl, h.hostReturn id params v⟩
    | setTrace on =>
      exact .some ⟨rfl, h.size, h.thread, L.tracing_refl on, h.journal, by rw [h.rest]⟩
    | readClock => exact .some h.now
    | print text => exact .some ⟨rfl, h.emit (.output text)⟩
    | shutdown => exact .some ⟨rfl, h.shutdown⟩
    | register | setRegistry | advanceClock | setClock =>
      obtain ⟨_, _, _, rfl⟩ := h.exists_eq
      exact .some ⟨rfl, hequip _ _ _ m.memory⟩

end Machine.Alike

/-! ## Courses -/

section

variable {m m' : Machine κ μ} {id : ThreadId} {now : UInt64}

theorem Point.Alike.rests (h : Machine.Alike L m m') :
    Point.Alike L { machine := m } { machine := m' } := ⟨rfl, h⟩

/-- The points of a program, given those of its operations. -/
theorem HostProgram.alike_points
    {carryOut : (op : HostOp κ) → Machine κ μ → Option (op.Answer × Machine κ μ)}
    {within : HostOp κ → Machine κ μ → List (Point κ μ)}
    (hop : ∀ (op : HostOp κ) {m m' : Machine κ μ}, Machine.Alike L m m' →
      Option.Rel (Matches L) (carryOut op m) (carryOut op m'))
    (hwithin : ∀ (op : HostOp κ) {m m' : Machine κ μ}, Machine.Alike L m m' →
      List.Forall₂ (Point.Alike L) (within op m) (within op m'))
    {p : HostProgram κ μ α} (hp : p.Blind L) (h : Machine.Alike L m m') :
    List.Forall₂ (Point.Alike L) (p.points carryOut within m) (p.points carryOut within m') := by
  induction p generalizing m m' with
  | pure a => exact .nil
  | perform op next ih =>
    have hbegins : Point.Alike L { machine := m, act := .begins op }
        { machine := m', act := .begins op } := ⟨rfl, h⟩
    simp only [HostProgram.points]
    refine List.rel_append (.cons hbegins (hwithin op h)) ?_
    obtain ⟨hr, hr'⟩ | ⟨a, n, n', hr, hr', hn⟩ := matches_cases (hop op h)
    · simp only [hr, hr']
      exact .nil
    · simp only [hr, hr']
      exact .cons (.rests hn) (ih a (hp a) hn)
  | inspect next ih =>
    simp only [HostProgram.points, (hp m).2 m' h]
    exact ih m (hp m).1 h
  | remember f next ih => exact .cons (.rests (h.remember f)) (ih hp (h.remember f))

namespace Machine.Alike

variable {inside : κ → ThreadId → Machine κ μ → List (Point κ μ)}
  (hinside : ∀ (f : κ) (id : ThreadId) {m m' : Machine κ μ}, Alike L m m' →
    List.Forall₂ (Point.Alike L) (inside f id m) (inside f id m'))
include hinside

theorem stepPoints (h : Alike L m m') (id : ThreadId) :
    List.Forall₂ (Point.Alike L) (m.stepPoints inside id) (m'.stepPoints inside id) := by
  simp only [Machine.stepPoints]
  obtain ⟨hr, hr'⟩ | ⟨f, n, n', hr, hr', hn⟩ := matches_cases (h.callback? id)
  · rw [hr, hr']
    exact .nil
  · rw [hr, hr']
    exact .cons (.rests hn) (hinside f id hn)

theorem cyclePoints (h : Alike L m m') :
    List.Forall₂ (Point.Alike L) (m.cyclePoints inside) (m'.cyclePoints inside) := by
  simp only [Machine.cyclePoints, h.runnable?]
  cases m.runnable? with
  | none => exact .nil
  | some runnable =>
    have hscheduled := h.now.machine.schedule runnable m.now.1
    simp only [h.now.answer, hscheduled.answer, attemptPoints]
    refine .cons ⟨rfl, hscheduled.machine⟩ ?_
    obtain ⟨goes, n, n', hready, hready', hn⟩ :=
      (hscheduled.machine.ready (m.now.2.schedule runnable m.now.1).1 m.now.1).exists_eq
    simp only [hready, hready']
    cases goes with
    | false => exact .nil
    | true => exact .cons ⟨rfl, hn⟩ (hn.stepPoints hinside _)

theorem cyclesPoints {invoke : Invoke κ μ}
    (hinvoke : ∀ (f : κ) (id : ThreadId) {m m' : Machine κ μ}, Alike L m m' →
      Option.Rel (Alike L) (invoke f id m) (invoke f id m'))
    (h : Alike L m m') (start : UInt64) (budget : Budget) (fuel : Nat) :
    List.Forall₂ (Point.Alike L) (m.cyclesPoints invoke inside start budget fuel)
      (m'.cyclesPoints invoke inside start budget fuel) := by
  induction fuel generalizing m m' with
  | zero => exact .nil
  | succ fuel ih =>
    refine List.rel_append (h.cyclePoints hinside) ?_
    obtain ⟨hr, hr'⟩ | ⟨outcome, n, n', hr, hr', hn⟩ :=
      matches_cases (h.cycle hinvoke start budget)
    · simp only [hr, hr']
      exact .nil
    · simp only [hr, hr']
      cases outcome with
      | none => exact .cons (.rests hn) (ih hn)
      | some outcome => exact .cons (.rests hn) .nil

end Machine.Alike
end

/-- The points within an operation on machines that are alike. -/
theorem Machine.Alike.points {callbacks : Callbacks κ μ}
    (hcallbacks : ∀ f id, (callbacks f id).Blind L) {m m' : Machine κ μ} (fuel : Nat)
    (op : HostOp κ) (h : Alike L m m') :
    List.Forall₂ (Point.Alike L) (points callbacks fuel op m) (points callbacks fuel op m') := by
  induction fuel generalizing op m m' with
  | zero => exact .nil
  | succ fuel ih =>
    have hop (op : HostOp κ) {m m' : Machine κ μ} (h : Alike L m m') :=
      h.perform hcallbacks fuel op
    have hinside (f : κ) (id : ThreadId) {m m' : Machine κ μ} (h : Alike L m m') :=
      HostProgram.alike_points hop (fun op _ _ h => ih op h) (hcallbacks f id) h
    have hrunning (budget : Budget) {m m' : Machine κ μ} (h : Alike L m m') :=
      h.now.machine.cyclesPoints hinside (fun f id _ _ h => h.invoke hcallbacks hop f id) m.now.1
        budget fuel
    cases op with
    | run budget =>
      simp only [Machine.points, h.now.answer]
      exact .cons (.rests h.now.machine) (hrunning budget h)
    | call id name =>
      obtain ⟨answer, n, n', hbegun, hbegun', hn⟩ := (h.beginCall id name true).exists_eq
      simp only [Machine.points, hbegun, hbegun']
      cases answer with
      | error e => exact .nil
      | ok u =>
        have hpinned := hn.pin id
        simp only [hpinned.now.answer]
        exact .cons (.rests hpinned.now.machine) (hrunning .unlimited hpinned)
    | _ => exact .nil

/-- **In lockstep.** Carried out on two machines that are alike, a program that cannot tell them
apart goes through points that are alike, one by one, and comes to an end on both or on neither; the
results are the same, and the machines are alike again. -/
theorem Machine.Alike.lockstep {m m' : Machine κ μ} (h : Alike L m m') (callbacks : Callbacks κ μ) :
    Lockstep L callbacks m m' := by
  intro hcallbacks α p hp fuel
  have hop (op : HostOp κ) {m m' : Machine κ μ} (h : Alike L m m') :=
    h.perform hcallbacks fuel op
  refine ⟨.cons (.rests h) ?_, h.program hop hp⟩
  exact HostProgram.alike_points hop (fun op _ _ h => h.points hcallbacks fuel op) hp h

end ScriptMachine
