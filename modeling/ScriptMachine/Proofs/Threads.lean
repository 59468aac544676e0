import ScriptMachine.Machine.Host
import ScriptMachine.Proofs.Instruction

/-!
# The threads of a machine

What the operations of a machine do to its threads. Most of them change one thread and nothing
else but the journal: that is `Machine.Alters`. `Machine.Advances` lists what the execution of an
instruction can do to the machine, as `Thread.Does` and `Thread.Fails` do for its thread.
-/

namespace ScriptMachine

/-- The name that a thread calls a host function by. -/
def Thread.hostCallName (t : Thread) (call : Nat) : String :=
  t.program.hostCalls[call]?.getD ""

namespace Machine

variable {κ μ : Type} {m m' m'' : Machine κ μ} {id other : ThreadId} {t t' : Thread}
  {now : UInt64} {invoke : Invoke κ μ}

/-! ## Slots -/

@[simp] theorem thread?_emit (m : Machine κ μ) (e : Emission) (id : ThreadId) :
    (m.emit e).thread? id = m.thread? id := rfl

@[simp] theorem thread?_log (m : Machine κ μ) (e : Event) (id : ThreadId) :
    (m.log e).thread? id = m.thread? id := rfl

@[simp] theorem thread?_now (m : Machine κ μ) (id : ThreadId) :
    m.now.2.thread? id = m.thread? id := rfl

theorem lt_size_of_thread? (h : m.thread? id = some t) : id < m.threads.size := by
  by_cases hid : id < m.threads.size
  · exact hid
  · rw [thread?, Array.getElem?_eq_none (Nat.not_lt.1 hid)] at h
    cases h

theorem thread?_create (config : Config) (clock : Clock) (memory : μ) (id : ThreadId) :
    (create config clock memory : Machine κ μ).thread? id = none := by
  simp [thread?, create]

/-! ## Changes of one thread -/

/-- The machine changed one thread, which is now `t`, and perhaps its journal. -/
structure Alters (id : ThreadId) (t : Thread) (m m' : Machine κ μ) : Prop where
  thread : m'.thread? id = some t
  other : ∀ {j : ThreadId}, j ≠ id → m'.thread? j = m.thread? j
  rest : m' = { m with threads := m'.threads, journal := m'.journal }

namespace Alters

theorem refl (h : m.thread? id = some t) : Alters id t m m := ⟨h, fun _ => rfl, rfl⟩

theorem scheduler (h : Alters id t m m') : m'.scheduler = m.scheduler := by rw [h.rest]

theorem registry (h : Alters id t m m') : m'.registry = m.registry := by rw [h.rest]

theorem trans (h : Alters id t m m') (h' : Alters id t' m' m'') : Alters id t' m m'' where
  thread := h'.thread
  other hj := (h'.other hj).trans (h.other hj)
  rest := by rw [h'.rest, h.rest]

/-- Changing a thread again replaces the first change. -/
theorem emit (h : Alters id t m m') (e : Emission) : Alters id t m (m'.emit e) :=
  ⟨h.thread, h.other, by rw [Machine.emit, h.rest]⟩

theorem setThread (h : id < m.threads.size) (t : Thread) :
    Alters id t m (m.setThread id (some t)) where
  thread := by rw [thread?_setThread, if_pos ⟨rfl, h⟩]
  other hj := by rw [thread?_setThread, if_neg fun hid => hj hid.1.symm]
  rest := rfl

theorem modifyThread (h : m.thread? id = some t) (f : Thread → Thread) :
    Alters id (f t) m (m.modifyThread id f) where
  thread := by rw [thread?_modifyThread, if_pos rfl, h, Option.map_some]
  other hj := by rw [thread?_modifyThread, if_neg fun hid => hj hid.symm]
  rest := rfl

theorem faultThread (h : m.thread? id = some t) (fault : Fault) :
    Alters id (t.stopWith fault) m (m.faultThread id fault) := by
  have hlog : Alters id t m (m.log (.faulted id t.ip fault)) := (refl h).emit _
  simp only [Machine.faultThread, h]
  exact hlog.trans (modifyThread hlog.thread (·.stopWith fault))

theorem printTrace (h : m.thread? id = some t) (i : Instruction) :
    Alters id t m (m.printTrace id t i) := by
  simp only [Machine.printTrace]
  by_cases ht : m.tracing
  · rw [if_pos ht]
    exact (refl h).emit _
  · rw [if_neg ht]
    exact refl h

/-- Taking a thread out and putting another one in is changing it. -/
theorem takeThread (h : m.thread? id = some t) (t' : Thread) :
    Alters id t' m ((m.takeThread id).2.setThread id (some t')) where
  thread := by
    have hid : id < (m.takeThread id).2.threads.size := by
      simpa [Machine.takeThread, Machine.setThread] using lt_size_of_thread? h
    rw [thread?_setThread, if_pos ⟨rfl, hid⟩]
  other hj := by
    rw [thread?_setThread, if_neg fun hid => hj hid.1.symm]
    exact thread?_setThread_ne (Ne.symm hj)
  rest := rfl

end Alters

/-! ## Instructions -/

/-- A thread that executes an instruction of its own changes as `Thread.execute` says. -/
theorem executeOwn_alters (now : UInt64) (h : m.thread? id = some t) (i : Instruction) :
    (m.executeOwn id i now).1 = (t.execute i now (m.scheduler.mode ≠ .roundRobin)).1 ∧
      Alters id (t.execute i now (m.scheduler.mode ≠ .roundRobin)).2 m
        (m.executeOwn id i now).2 := by
  have htaken : m.takeThread id = (some t, (m.takeThread id).2) := by
    rw [takeThread, h]
  rw [executeOwn, htaken]
  refine ⟨rfl, ?_⟩
  have halters := Alters.takeThread h (t.execute i now (m.scheduler.mode ≠ .roundRobin)).2
  simp only
  split
  · exact halters.emit _
  · exact halters

/-- The machine in which the callback of a host call begins. -/
def entering (m : Machine κ μ) (id : ThreadId) (t : Thread) (i : Instruction) : Machine κ μ :=
  (m.printTrace id t i).modifyThread id fun u => { u with ip := t.ip + 1 }

theorem entering_alters (h : m.thread? id = some t) (i : Instruction) :
    Alters id { t with ip := t.ip + 1 } m (m.entering id t i) :=
  (Alters.printTrace h i).trans
    (Alters.modifyThread (Alters.printTrace h i).thread fun u => { u with ip := t.ip + 1 })

theorem dispatch_own {i : Instruction} {ip : Nat} (hop : i.op ≠ .callHost) :
    dispatch invoke id ip i now m = some (executeOwn id i now m) := by
  unfold dispatch
  split
  · contradiction
  · rfl

/-- A thread carries out an instruction of its own, whatever callbacks there are. -/
theorem step_own {i : Instruction} {flow : Flow} (ht : m.thread? id = some t)
    (hi : t.instruction? t.ip = some i) (hop : i.op ≠ .callHost)
    (hr : t.execute i now (m.scheduler.mode ≠ .roundRobin) = (.ok flow, t')) :
    ∃ m', (∀ invoke, m.step invoke id now = some (.ok flow, m')) ∧
      Alters id (t'.settle t.ip flow) m m' := by
  have htrace := Alters.printTrace ht i
  obtain ⟨hflow, halters⟩ := executeOwn_alters now htrace.thread i
  rw [htrace.scheduler, hr] at hflow halters
  have hall := htrace.trans halters
  have hown : executeOwn id i now (m.printTrace id t i) =
      (.ok flow, (executeOwn id i now (m.printTrace id t i)).2) := Prod.ext hflow rfl
  refine ⟨_, fun invoke => ?_, hall.trans (Alters.modifyThread hall.thread (·.settle t.ip flow))⟩
  simp only [step, ht, hi, dispatch_own hop]
  rw [hown]

/-- A thread meets a fault in an instruction of its own. -/
theorem step_own_error {i : Instruction} {fault : Fault} (ht : m.thread? id = some t)
    (hi : t.instruction? t.ip = some i) (hop : i.op ≠ .callHost)
    (hr : t.execute i now (m.scheduler.mode ≠ .roundRobin) = (.error fault, t')) :
    ∃ m', (∀ invoke, m.step invoke id now = some (.error fault, m')) ∧ Alters id t' m m' := by
  have htrace := Alters.printTrace ht i
  obtain ⟨hflow, halters⟩ := executeOwn_alters now htrace.thread i
  rw [htrace.scheduler, hr] at hflow halters
  have hown : executeOwn id i now (m.printTrace id t i) =
      (.error fault, (executeOwn id i now (m.printTrace id t i)).2) := Prod.ext hflow rfl
  refine ⟨_, fun invoke => ?_, htrace.trans halters⟩
  simp only [step, ht, hi, dispatch_own hop]
  rw [hown]

/-- The call of a host function is its callback, if it has one. -/
theorem step_host (invoke : Invoke κ μ) (now : UInt64) {i : Instruction} {call : Nat}
    (ht : m.thread? id = some t) (hi : t.instruction? t.ip = some i) (hop : i.op = .callHost)
    (hcall : i.hostCallTarget 0 = .ok call) :
    m.step invoke id now =
      match m.registry.resolve? (t.hostCallName call) id with
      | none => some (.error (.unresolvedHostCall (t.hostCallName call)), m.printTrace id t i)
      | some callback => (invoke callback id (m.entering id t i)).map fun m' =>
          (.ok .stay, m'.modifyThread id (·.settle t.ip .stay)) := by
  have htrace := Alters.printTrace ht i
  have hname : (((m.printTrace id t i).thread? id).bind
      fun t => t.program.hostCalls[call]?).getD "" = t.hostCallName call := by
    rw [htrace.thread]
    rfl
  simp only [step, ht, hi, dispatch, hop, hcall, callHost, hname, htrace.registry]
  cases m.registry.resolve? (t.hostCallName call) id with
  | none => rfl
  | some callback =>
    simp only [entering]
    cases invoke callback id ((m.printTrace id t i).modifyThread id fun u =>
      { u with ip := t.ip + 1 }) <;> rfl

/-- What the execution of the next instruction of a thread can do to the machine. -/
inductive Advances (invoke : Invoke κ μ) (id : ThreadId) (now : UInt64) (m : Machine κ μ) :
    Except Fault Flow → Machine κ μ → Prop
  | unloaded : m.thread? id = none → Advances invoke id now m (.ok .stay) m
  /-- There is no next instruction. -/
  | off {t : Thread} : m.thread? id = some t → t.instruction? t.ip = none →
      Advances invoke id now m (.error (.instructionPointer t.ip t.program.instructions.size)) m
  /-- The thread executes an instruction of its own. -/
  | own {t t' : Thread} {i : Instruction} {flow : Flow} {m' : Machine κ μ} :
      m.thread? id = some t → t.instruction? t.ip = some i → i.op ≠ .callHost →
      t.execute i now (m.scheduler.mode ≠ .roundRobin) = (.ok flow, t') →
      Alters id (t'.settle t.ip flow) m m' → Advances invoke id now m (.ok flow) m'
  | fault {t t' : Thread} {i : Instruction} {fault : Fault} {m' : Machine κ μ} :
      m.thread? id = some t → t.instruction? t.ip = some i → i.op ≠ .callHost →
      t.execute i now (m.scheduler.mode ≠ .roundRobin) = (.error fault, t') →
      Alters id t' m m' → Advances invoke id now m (.error fault) m'
  /-- The call of a host function names none. -/
  | unnamed {t : Thread} {i : Instruction} {fault : Fault} {m' : Machine κ μ} :
      m.thread? id = some t → t.instruction? t.ip = some i → i.op = .callHost →
      i.hostCallTarget 0 = .error fault → Alters id t m m' →
      Advances invoke id now m (.error fault) m'
  | unresolved {t : Thread} {i : Instruction} {call : Nat} {m' : Machine κ μ} :
      m.thread? id = some t → t.instruction? t.ip = some i → i.op = .callHost →
      i.hostCallTarget 0 = .ok call → m.registry.resolve? (t.hostCallName call) id = none →
      Alters id t m m' →
      Advances invoke id now m (.error (.unresolvedHostCall (t.hostCallName call))) m'
  | host {t : Thread} {i : Instruction} {call : Nat} {callback : κ} {m' : Machine κ μ} :
      m.thread? id = some t → t.instruction? t.ip = some i → i.op = .callHost →
      i.hostCallTarget 0 = .ok call →
      m.registry.resolve? (t.hostCallName call) id = some callback →
      invoke callback id (m.entering id t i) = some m' →
      Advances invoke id now m (.ok .stay) (m'.modifyThread id (·.settle t.ip .stay))

/-- The execution of an instruction does one of the listed things. -/
theorem advances_of_step {r : Except Fault Flow} (h : m.step invoke id now = some (r, m')) :
    Advances invoke id now m r m' := by
  cases ht : m.thread? id with
  | none =>
    simp only [step, ht] at h
    cases h
    exact .unloaded ht
  | some t =>
    cases hi : t.instruction? t.ip with
    | none =>
      simp only [step, ht, hi] at h
      cases h
      exact .off ht hi
    | some i =>
      by_cases hop : i.op = .callHost
      · cases hcall : i.hostCallTarget 0 with
        | error fault =>
          simp only [step, ht, hi, dispatch, hop, hcall] at h
          cases h
          exact .unnamed ht hi hop hcall (Alters.printTrace ht i)
        | ok call =>
          rw [step_host invoke now ht hi hop hcall] at h
          split at h
          · rename_i hresolve
            cases h
            exact .unresolved ht hi hop hcall hresolve (Alters.printTrace ht i)
          · rename_i callback hresolve
            obtain ⟨m₁, hinvoke, hm⟩ := Option.map_eq_some_iff.1 h
            cases hm
            exact .host ht hi hop hcall hresolve hinvoke
      · cases hr : t.execute i now (m.scheduler.mode ≠ .roundRobin) with
        | mk r' t' =>
          cases r' with
          | error fault =>
            obtain ⟨m₁, hstep, halters⟩ := step_own_error ht hi hop hr
            rw [hstep] at h
            cases h
            exact .fault ht hi hop hr halters
          | ok flow =>
            obtain ⟨m₁, hstep, halters⟩ := step_own ht hi hop hr
            rw [hstep] at h
            cases h
            exact .own ht hi hop hr halters

/-- What holds of the machine that an operation leaves holds after its answer. -/
theorem of_answer {α : Type} {Q : Machine κ μ → Prop} {r : α × Machine κ μ} {a : α}
    (hr : some r = some (a, m')) (h : Q r.2) : Q m' := by
  cases hr
  exact h

/-! ## Cycles -/

/-- What an attempt at the next instruction does: the thread is not ready yet, executes the
instruction, or is stopped by its fault. -/
theorem attempt_cases {flow : Option Flow} (h : m.attempt invoke id now = some (flow, m')) :
    flow = none ∧ m.ready id now = (false, m') ∨
      ∃ m₁, m.ready id now = (true, m₁) ∧
        ((∃ f, flow = some f ∧ m₁.step invoke id now = some (.ok f, m')) ∨
          ∃ fault m₂, flow = none ∧ m₁.step invoke id now = some (.error fault, m₂) ∧
            m' = m₂.faultThread id fault) := by
  simp only [attempt] at h
  split at h
  · rename_i hready
    cases h
    exact .inl ⟨rfl, hready⟩
  · rename_i m₁ hready
    refine .inr ⟨m₁, hready, ?_⟩
    split at h
    · cases h
    · rename_i hstep
      cases h
      exact .inl ⟨_, rfl, hstep⟩
    · rename_i hstep
      cases h
      exact .inr ⟨_, _, rfl, hstep, rfl⟩

/-- What a cycle does: there is nothing to run, or the thread whose turn it is attempts an
instruction. -/
theorem cycle_cases {start : UInt64} {budget : Budget} {outcome : Option RunOutcome}
    (h : m.cycle invoke start budget = some (outcome, m')) :
    m.runnable? = none ∧ m' = m ∧
        outcome = some (if m.scheduler.mode = .roundRobin then .idle else .pinnedStopped) ∨
      ∃ runnable id m₁ flow, m.runnable? = some runnable ∧
        m.now.2.schedule runnable m.now.1 = (id, m₁) ∧
        m₁.attempt invoke id m.now.1 = some (flow, m') ∧
        outcome = if budget.isUp start m.now.1 then some .budget
          else if m'.syncDone id flow then some .syncReturned else none := by
  unfold cycle at h
  split at h
  · rename_i hnone
    cases h
    exact .inl ⟨hnone, rfl, rfl⟩
  · rename_i runnable hrunnable
    simp only at h
    split at h
    · cases h
    · rename_i flow m₂ hattempt
      refine .inr ⟨runnable, _, _, flow, hrunnable, rfl, ?_⟩
      split at h
      · rename_i hup
        cases h
        exact ⟨hattempt, (if_pos hup).symm⟩
      · rename_i hup
        rw [if_neg hup]
        split at h
        · rename_i hdone
          cases h
          exact ⟨hattempt, (if_pos hdone).symm⟩
        · rename_i hdone
          cases h
          exact ⟨hattempt, (if_neg hdone).symm⟩

/-- What every cycle keeps, a run keeps. -/
theorem cycles_keep {Q : Machine κ μ → Prop} {start : UInt64} {budget : Budget} {fuel : Nat}
    {outcome : RunOutcome}
    (hcycle : ∀ {m m' : Machine κ μ} {outcome : Option RunOutcome}, Q m →
      m.cycle invoke start budget = some (outcome, m') → Q m')
    (h : Q m) (hcycles : m.cycles invoke start budget fuel = some (outcome, m')) : Q m' := by
  induction fuel generalizing m with
  | zero => cases hcycles
  | succ fuel ih =>
    simp only [cycles] at hcycles
    split at hcycles
    · cases hcycles
    · rename_i hlast
      cases hcycles
      exact hcycle h hlast
    · rename_i hnext
      exact ih (hcycle h hnext) hcycles

/-! ## Turns -/

/-- Waking a thread is all that may happen before its instruction. -/
theorem ready_snd (m : Machine κ μ) (id : ThreadId) (now : UInt64) :
    (m.ready id now).2 = m ∨
      (m.ready id now).2 = m.modifyThread id fun t => { t with paused := false } := by
  simp only [ready]
  split
  · exact .inl rfl
  · split
    · exact .inl rfl
    · split
      · exact .inr rfl
      · exact .inl rfl

/-- The turn goes on, or the next one begins. -/
theorem schedule_snd (m : Machine κ μ) (runnable : ThreadId) (now : UInt64) :
    (m.schedule runnable now).2 = m ∨
      ∃ first, (m.schedule runnable now).2 = m.beginTurn first runnable now := by
  simp only [schedule]
  split
  · simp only [rotate]
    split
    · exact .inr ⟨_, rfl⟩
    · split
      · exact .inr ⟨_, rfl⟩
      · exact .inl rfl
  · exact .inl rfl

theorem isRunning_modifyThread {f : Thread → Thread} (hf : ∀ t, (f t).running = t.running) :
    (m.modifyThread other f).isRunning id = m.isRunning id := by
  simp only [isRunning, thread?_modifyThread]
  split
  · rw [Option.any_map]
    exact congrArg (Option.any · (m.thread? id)) (funext hf)
  · rfl

theorem isRunning_ready : (m.ready other now).2.isRunning id = m.isRunning id := by
  rcases ready_snd m other now with h | h
  · rw [h]
  · rw [h]
    exact isRunning_modifyThread fun _ => rfl

/-- A turn goes to a running thread, if only the fallback is running. -/
theorem isRunning_beginTurn {first fallback : ThreadId} (h : m.isRunning fallback = true) :
    (m.beginTurn first fallback now).isRunning
      (m.beginTurn first fallback now).scheduler.current = true := by
  have hchosen : m.isRunning ((m.nextRunning? first).getD fallback) = true := by
    cases hnext : m.nextRunning? first with
    | none => exact h
    | some j => exact List.find?_some hnext
  have hsame : (m.beginTurn first fallback now).isRunning ((m.nextRunning? first).getD fallback) =
      m.isRunning ((m.nextRunning? first).getD fallback) :=
    isRunning_modifyThread fun _ => rfl
  exact hsame.trans hchosen

theorem isRunning_of_runnable? (h : m.runnable? = some id) : m.isRunning id = true := by
  unfold runnable? at h
  split at h
  · split at h
    · cases h
      assumption
    · cases h
  · obtain ⟨hlt, hrunning, -⟩ := Array.findIdx?_eq_some_iff_getElem.1 h
    rw [isRunning, thread?, Array.getElem?_eq_getElem hlt]
    exact hrunning

/-- No thread is running, if there is none that can run. -/
theorem isRunning_of_runnable?_eq_none (hmode : m.scheduler.mode = .roundRobin)
    (h : m.runnable? = none) (id : ThreadId) : m.isRunning id = false := by
  simp only [runnable?, hmode, Array.findIdx?_eq_none_iff] at h
  rw [isRunning, thread?]
  cases hid : m.threads[id]? with
  | none => rfl
  | some t => exact h t (Array.mem_of_getElem? hid)

/-- The thread of a cycle is running. -/
theorem isRunning_schedule {runnable : ThreadId} (h : m.runnable? = some runnable)
    (now : UInt64) : (m.schedule runnable now).2.isRunning (m.schedule runnable now).1 = true := by
  have hrunnable := isRunning_of_runnable? h
  simp only [schedule]
  split
  · simp only [rotate]
    split
    · exact isRunning_beginTurn hrunnable
    · split
      · exact isRunning_beginTurn hrunnable
      · rename_i hover
        simp only [turnOver] at hover
        split at hover
        · rename_i t ht
          rw [Bool.or_eq_true, not_or] at hover
          simpa [isRunning, ht] using hover.1
        · exact absurd rfl hover
  · rename_i id hmode
    simp only [runnable?, hmode] at h
    split at h
    · assumption
    · cases h

/-- The scheduler gives every cycle to the pinned thread. -/
theorem schedule_of_pinned (hmode : m.scheduler.mode = .pinned id) (runnable : ThreadId)
    (now : UInt64) : m.schedule runnable now = (id, m) := by
  simp only [schedule, hmode]

/-- A pinned thread that is loaded is ready, paused or not. -/
theorem ready_of_pinned (hmode : m.scheduler.mode = .pinned id) (other : ThreadId) (now : UInt64) :
    m.ready other now = ((m.thread? other).isSome, m) := by
  simp only [ready]
  split
  · rename_i hother
    rw [hother]
    rfl
  · rename_i t hother
    rw [hother, if_pos (by simp [hmode])]
    rfl

/-! ## Calls -/

/-- Setting up a call succeeds if the function exists and its frame fits. -/
theorem beginCall_eq_ok {name : String} {sync : Bool} :
    m.beginCall id name sync = (.ok (), m') ↔
      ∃ t f entry t', m.thread? id = some t ∧ t.program.findFunction? name = some f ∧
        t.call f t.ip sync = (.ok entry, t') ∧
        m' = m.setThread id (some { t' with ip := entry }) := by
  simp only [beginCall]
  cases ht : m.thread? id with
  | none => simp
  | some t =>
    cases hf : t.program.findFunction? name with
    | none => simp [hf]
    | some f =>
      cases hcall : t.call f t.ip sync with
      | mk r t' =>
        cases r with
        | error fault => simp [hf, hcall]
        | ok entry =>
          constructor
          · intro h
            simp only [hf, hcall, Prod.mk.injEq, true_and] at h
            exact ⟨t, f, entry, t', rfl, hf, hcall, h.symm⟩
          · rintro ⟨u, g, e, u', hu, hg, hc, rfl⟩
            cases hu
            rw [hf] at hg
            cases hg
            rw [hcall] at hc
            cases hc
            simp only [hf, hcall]

/-- A synchronous call whose frame cannot be set up is over. One whose frame is set up runs its
thread, pinned, until that run is over. -/
theorem callFunction_eq_some {fuel : Nat} {name : String} {answer : Except CallError Unit}
    (h : m.callFunction invoke fuel id name = some (answer, m')) :
    (∃ e, answer = .error e ∧ m.beginCall id name true = (.error e, m')) ∨
      ∃ t m₁ outcome ended, m.thread? id = some t ∧ m.beginCall id name true = (.ok (), m₁) ∧
        (m₁.pin id).run invoke fuel .unlimited = some (outcome, ended) ∧
        (answer, m') = ended.unpin id m₁.scheduler t.running outcome := by
  simp only [callFunction] at h
  split at h
  · rename_i ht
    cases h
    exact .inl ⟨_, rfl, by simp only [beginCall, ht]⟩
  · rename_i t ht
    split at h
    · rename_i hbegin
      cases h
      exact .inl ⟨_, rfl, hbegin⟩
    · rename_i m₁ hbegin
      split at h
      · cases h
      · rename_i outcome ended hrun
        exact .inr ⟨t, m₁, outcome, ended, ht, hbegin, hrun, (Option.some.inj h).symm⟩

end Machine
end ScriptMachine
