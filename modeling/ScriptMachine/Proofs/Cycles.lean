import ScriptMachine.Proofs.Turns

/-!
# Cycles

A run as the list of its cycles (`Machine.betweenCycles`). The scheduler gives each cycle to a
thread, and if the thread calls no callback, all that is left to the cycle is an instruction of its
own: nobody is loaded or started by it, no timeslice changes, nobody gets a turn, and no time passes
(`Machine.Works`).
-/

namespace ScriptMachine.Machine

variable {κ μ : Type} {m m' m'' : Machine κ μ} {id : ThreadId} {t t' : Thread} {now start : UInt64}
  {budget : Budget} {invoke : Invoke κ μ}

/-- The timeslice of a thread, if it is loaded. -/
def timeslice? (m : Machine κ μ) (id : ThreadId) : Option UInt64 :=
  (m.thread? id).map (·.timeslice)

/-- The thread of the next cycle, and the machine once the cycle has given the turn. -/
def scheduled? (m : Machine κ μ) : Option (ThreadId × Machine κ μ) :=
  m.runnable?.map fun runnable => m.now.2.schedule runnable m.now.1

/-- The thread of the next cycle, and whether its turn begins with the cycle. -/
def nextCycle? (m : Machine κ μ) : Option (ThreadId × Bool) :=
  m.scheduled?.map fun (id, scheduled) => (id, scheduled.granted ≠ m.granted)

/-! ## Whether a cycle comes to an end -/

/-- Only a callback keeps an instruction from coming to an end. -/
theorem step_eq_none (h : m.step invoke id now = none) :
    ∃ f m₁, m.callback? id = some (f, m₁) ∧ invoke f id m₁ = none := by
  cases ht : m.thread? id with
  | none =>
    simp only [step, ht] at h
    cases h
  | some t =>
    cases hi : t.instruction? t.ip with
    | none =>
      simp only [step, ht, hi] at h
      cases h
    | some i =>
      by_cases hop : i.op = .callHost
      · cases hcall : i.hostCallTarget 0 with
        | error fault =>
          simp only [step, ht, hi, dispatch, hop, hcall] at h
          cases h
        | ok call =>
          rw [step_host invoke now ht hi hop hcall] at h
          cases hresolve : m.registry.resolve? (t.hostCallName call) id with
          | none =>
            rw [hresolve] at h
            cases h
          | some f =>
            rw [hresolve] at h
            exact ⟨f, m.entering id t i,
              callback?_eq_some.2 ⟨t, i, call, ht, hi, hop, hcall, hresolve, rfl⟩,
              Option.map_eq_none_iff.1 h⟩
      · simp only [step, ht, hi, dispatch_own hop] at h
        split at h
        · rename_i hown
          cases hown
        · cases h
        · cases h

theorem attempt_eq_none (h : m.attempt invoke id now = none) :
    ∃ woken, m.ready id now = (true, woken) ∧ woken.step invoke id now = none := by
  simp only [attempt] at h
  split at h
  · cases h
  · rename_i woken hready
    refine ⟨woken, hready, ?_⟩
    split at h
    · assumption
    · cases h
    · cases h

/-- If the thread of the next cycle is ready and calls a callback, so does the cycle. -/
theorem enters_of_callback? {runnable : ThreadId} {scheduled woken : Machine κ μ} {f : κ}
    (hrunnable : m.runnable? = some runnable)
    (hschedule : m.now.2.schedule runnable m.now.1 = (id, scheduled))
    (hready : scheduled.ready id m.now.1 = (true, woken))
    (hcallback : woken.callback? id = some (f, m')) : m.Enters f id m' := by
  obtain ⟨t, i, call, ht, hi, hop, hcall, hresolve, hentering⟩ := callback?_eq_some.1 hcallback
  exact .host hrunnable (by rw [hschedule]) (by rw [hschedule, hready]) ht hi hop hcall hresolve
    hentering

/-- A cycle comes to no end only if the callback that it calls comes to none. -/
theorem cycle_eq_none_iff : m.cycle invoke start budget = none ↔
    ∃ f x m₁, m.Enters f x m₁ ∧ invoke f x m₁ = none := by
  constructor
  · intro h
    unfold cycle at h
    split at h
    · cases h
    · rename_i runnable hrunnable
      cases hschedule : m.now.2.schedule runnable m.now.1 with
      | mk id scheduled =>
      simp only [hschedule] at h
      split at h
      · rename_i hattempt
        obtain ⟨woken, hready, hstep⟩ := attempt_eq_none hattempt
        obtain ⟨f, m₁, hcallback, hnone⟩ := step_eq_none hstep
        exact ⟨f, id, m₁, enters_of_callback? hrunnable hschedule hready hcallback, hnone⟩
      · split at h
        · cases h
        · split at h <;> cases h
  · rintro ⟨f, x, m₁, henters, hnone⟩
    exact henters.cycle_eq_none hnone start budget

/-! ## The cycles of a run -/

/-- One cycle leads from a machine to another. To find nothing to run is no cycle. -/
def Cycled (invoke : Invoke κ μ) (start : UInt64) (budget : Budget) (m m' : Machine κ μ) : Prop :=
  m.runnable? ≠ none ∧ ∃ outcome, m.cycle invoke start budget = some (outcome, m')

/-- The machines that the cycles of a run lead to, from the one on that the first cycle begins
with. -/
def betweenCycles (invoke : Invoke κ μ) (start : UInt64) (budget : Budget) :
    Nat → Machine κ μ → List (Machine κ μ)
  | 0, m => [m]
  | fuel + 1, m =>
    m :: match m.runnable?, m.cycle invoke start budget with
      | some _, some (none, m') => betweenCycles invoke start budget fuel m'
      | some _, some (some _, m') => [m']
      | _, _ => []

theorem betweenCycles_eq_cons (invoke : Invoke κ μ) (start : UInt64) (budget : Budget) (fuel : Nat)
    (m : Machine κ μ) : ∃ rest, m.betweenCycles invoke start budget fuel = m :: rest := by
  cases fuel with
  | zero => exact ⟨[], rfl⟩
  | succ fuel => exact ⟨_, rfl⟩

/-- Each machine of the list comes about by one cycle from the one before it. -/
theorem isChain_betweenCycles (fuel : Nat) (m : Machine κ μ) :
    (m.betweenCycles invoke start budget fuel).IsChain (Cycled invoke start budget) := by
  induction fuel generalizing m with
  | zero => exact .singleton m
  | succ fuel ih =>
    rw [betweenCycles]
    split
    · rename_i m' hrunnable hcycle
      obtain ⟨rest, hrest⟩ := betweenCycles_eq_cons invoke start budget fuel m'
      have hchain := ih m'
      rw [hrest] at hchain ⊢
      exact hchain.cons_cons ⟨by simp [hrunnable], none, hcycle⟩
    · rename_i outcome m' hrunnable hcycle
      exact .cons_cons ⟨by simp [hrunnable], some outcome, hcycle⟩ (.singleton m')
    · exact .singleton m

/-- The list ends where the run ends. A run that has not come to an end has used up its fuel, or the
next cycle calls a callback. -/
theorem betweenCycles_ends (invoke : Invoke κ μ) (start : UInt64) (budget : Budget) (fuel : Nat)
    (m : Machine κ μ) : ∃ p, (m.betweenCycles invoke start budget fuel).getLast? = some p ∧
      ((∃ ended, m.cycles invoke start budget fuel = some (ended, p)) ∨
        m.cycles invoke start budget fuel = none ∧
          ((m.betweenCycles invoke start budget fuel).length = fuel + 1 ∨
            ∃ f x m₁, p.Enters f x m₁)) := by
  induction fuel generalizing m with
  | zero => exact ⟨m, rfl, .inr ⟨rfl, .inl rfl⟩⟩
  | succ fuel ih =>
    simp only [cycles, betweenCycles]
    cases hcycle : m.cycle invoke start budget with
    | none =>
      obtain ⟨f, x, m₁, henters, -⟩ := cycle_eq_none_iff.1 hcycle
      refine ⟨m, ?_, .inr ⟨rfl, .inr ⟨f, x, m₁, henters⟩⟩⟩
      cases m.runnable? <;> rfl
    | some r =>
      obtain ⟨outcome, m₁⟩ := r
      obtain ⟨hnone, rfl, rfl⟩ | ⟨runnable, _, _, _, hrunnable, -⟩ := cycle_cases hcycle
      · exact ⟨m₁, by rw [hnone]; rfl, .inl ⟨_, rfl⟩⟩
      · rw [hrunnable]
        cases outcome with
        | some outcome => exact ⟨m₁, rfl, .inl ⟨outcome, rfl⟩⟩
        | none =>
          obtain ⟨p, hlast, hends⟩ := ih m₁
          obtain ⟨rest, hrest⟩ := betweenCycles_eq_cons invoke start budget fuel m₁
          refine ⟨p, ?_, ?_⟩
          · simp only [hrest] at hlast ⊢
            rwa [List.getLast?_cons_cons]
          · simpa only [List.length_cons, Nat.add_right_cancel_iff] using hends

/-! ## What is left of a cycle after the turn is given -/

/-- There are as many slots, the same timeslices, and no further thread is running. -/
structure Inherits (m m' : Machine κ μ) : Prop where
  size : m'.threads.size = m.threads.size
  timeslice : ∀ j, m'.timeslice? j = m.timeslice? j
  running : ∀ j, m'.isRunning j = true → m.isRunning j = true

namespace Inherits

theorem refl (m : Machine κ μ) : Inherits m m := ⟨rfl, fun _ => rfl, fun _ => id⟩

theorem trans (h : Inherits m m') (h' : Inherits m' m'') : Inherits m m'' where
  size := h'.size.trans h.size
  timeslice j := (h'.timeslice j).trans (h.timeslice j)
  running j := h.running j ∘ h'.running j

theorem modify {f : Thread → Thread} (htimeslice : ∀ t, (f t).timeslice = t.timeslice)
    (hrunning : ∀ t, (f t).running = t.running) : Inherits m (m.modifyThread id f) where
  size := Array.size_modify
  timeslice j := by
    rw [timeslice?, thread?_modifyThread, timeslice?]
    split
    · rw [Option.map_map]
      exact congrArg (Option.map · _) (funext htimeslice)
    · rfl
  running j hj := by rwa [isRunning_modifyThread hrunning] at hj

theorem beginTurn (first fallback : ThreadId) (now : UInt64) :
    Inherits m (m.beginTurn first fallback now) := by
  have hmodify : Inherits m (m.modifyThread ((m.nextRunning? first).getD fallback) fun t =>
      { t with stats := { t.stats with turns := t.stats.turns + 1 } }) :=
    modify (fun _ => rfl) fun _ => rfl
  exact ⟨hmodify.size, hmodify.timeslice, hmodify.running⟩

end Inherits

/-- A thread went on, without a turn for anyone, and without time passing. -/
structure Works (m m' : Machine κ μ) : Prop extends Inherits m m' where
  turns : ∀ j, m'.turns? j = m.turns? j
  scheduler : m'.scheduler = m.scheduler
  clock : m'.clock = m.clock

namespace Works

theorem refl (m : Machine κ μ) : Works m m := ⟨.refl m, fun _ => rfl, rfl, rfl⟩

theorem trans (h : Works m m') (h' : Works m' m'') : Works m m'' where
  toInherits := h.toInherits.trans h'.toInherits
  turns j := (h'.turns j).trans (h.turns j)
  scheduler := h'.scheduler.trans h.scheduler
  clock := h'.clock.trans h.clock

theorem alter (ht : m.thread? id = some t) (h : Alters id t' m m')
    (hsize : m'.threads.size = m.threads.size) (hturns : t'.stats.turns = t.stats.turns)
    (htimeslice : t'.timeslice = t.timeslice) (hrunning : t'.running = true → t.running = true) :
    Works m m' where
  size := hsize
  timeslice j := by
    by_cases hj : j = id
    · rw [timeslice?, timeslice?, hj, h.thread, ht, Option.map_some, Option.map_some, htimeslice]
    · rw [timeslice?, timeslice?, h.other hj]
  running j hj := by
    by_cases hid : j = id
    · rw [hid, isRunning, h.thread] at hj
      rw [hid, isRunning, ht]
      exact hrunning hj
    · rwa [isRunning, h.other hid] at hj
  turns j := by
    by_cases hj : j = id
    · rw [turns?, turns?, hj, h.thread, ht, Option.map_some, Option.map_some, hturns]
    · rw [turns?, turns?, h.other hj]
  scheduler := h.scheduler
  clock := by rw [h.rest]

theorem ready (id : ThreadId) (now : UInt64) : Works m (m.ready id now).2 := by
  obtain h | h := ready_snd m id now
  · rw [h]
    exact refl m
  · have hstill := Still.ready (m := m) id now
    rw [h] at hstill ⊢
    exact ⟨.modify (fun _ => rfl) fun _ => rfl, hstill.turns, rfl, rfl⟩

theorem fault (fault : Fault) : Works m (m.faultThread id fault) := by
  cases ht : m.thread? id with
  | none =>
    simp only [faultThread, ht]
    exact refl m
  | some t =>
    exact alter ht (.faultThread ht fault) (Hushed.fault fault).size rfl rfl fun hrunning =>
      absurd hrunning Bool.false_ne_true

/-- An instruction that calls no callback. -/
theorem step {r : Except Fault Flow} (hown : m.callback? id = none)
    (h : m.step invoke id now = some (r, m')) : Works m m' := by
  have hsize := (Hushed.step hown h).size
  cases advances_of_step h with
  | unloaded _ => exact refl m
  | off _ _ => exact refl m
  | own ht _ _ hexec halters =>
    have hkeeps := Thread.keeps_execute hexec
    exact alter ht halters hsize (congrArg Stats.turns hkeeps.stats :) hkeeps.timeslice
      hkeeps.running
  | fault ht _ _ hexec halters =>
    have hkeeps := Thread.keeps_execute_error hexec
    exact alter ht halters hsize (congrArg Stats.turns hkeeps.stats) hkeeps.timeslice
      hkeeps.running
  | unnamed ht _ _ _ halters => exact alter ht halters hsize rfl rfl fun hrunning => hrunning
  | unresolved ht _ _ _ _ halters => exact alter ht halters hsize rfl rfl fun hrunning => hrunning
  | host ht hi hop hcall hresolve _ =>
    rw [callback?_eq_some.2 ⟨_, _, _, ht, hi, hop, hcall, hresolve, rfl⟩] at hown
    cases hown

end Works

/-- A cycle without a callback: after the turn is given, its thread works. -/
theorem Cycled.works (h : Cycled invoke start budget m m')
    (hquiet : ∀ f x m₁, ¬ m.Enters f x m₁) :
    ∃ id scheduled, m.scheduled? = some (id, scheduled) ∧ Works scheduled m' := by
  obtain ⟨hsome, outcome, hcycle⟩ := h
  obtain ⟨hnone, -⟩ | ⟨runnable, id, scheduled, flow, hrunnable, hschedule, hattempt, -⟩ :=
    cycle_cases hcycle
  · exact absurd hnone hsome
  refine ⟨id, scheduled, by rw [scheduled?, hrunnable, Option.map_some, hschedule], ?_⟩
  have hready := Works.ready (m := scheduled) id m.now.1
  obtain ⟨-, hr⟩ | ⟨woken, hr, hstep⟩ := attempt_cases hattempt
  · rwa [hr] at hready
  rw [hr] at hready
  have hown : woken.callback? id = none := by
    rw [Option.eq_none_iff_forall_ne_some]
    rintro ⟨f, m₁⟩ hcallback
    exact hquiet f id m₁ (enters_of_callback? hrunnable hschedule hr hcallback)
  obtain ⟨f, -, hstep⟩ | ⟨fault, m₂, -, hstep, rfl⟩ := hstep
  · exact hready.trans (.step hown hstep)
  · exact (hready.trans (.step hown hstep)).trans (.fault fault)

/-! ## Machines without calls of the host -/

/-- Threads without calls of the host call no callback in the next cycle. -/
theorem HostFree.not_enters (hfree : m.HostFree) (f : κ) (id : ThreadId) (m' : Machine κ μ) :
    ¬ m.Enters f id m' := by
  rintro @⟨runnable, woken, t, i, -, -, -, hready, ht, hi, hop, -⟩
  have hread : Stands m m.now.2 := .of_same fun _ => rfl
  have hscheduled := hread.trans (.schedule runnable m.now.1)
  have hwoken := hscheduled.trans (.ready id m.now.1)
  rw [hready] at hwoken
  exact hwoken.follows.hostFree hfree id t ht i (Array.mem_of_getElem? hi) hop

/-- No machine in the course of a run has calls of the host. -/
theorem HostFree.betweenCycles (hfree : m.HostFree) (fuel : Nat) :
    ∀ p ∈ m.betweenCycles invoke start budget fuel, p.HostFree := by
  have hchain : (m.betweenCycles invoke start budget fuel).IsChain _ :=
    isChain_betweenCycles fuel m
  obtain ⟨rest, hrest⟩ := betweenCycles_eq_cons invoke start budget fuel m
  rw [hrest] at hchain ⊢
  refine hchain.induction HostFree _ ?_ fun _ => hfree
  rintro q q' ⟨-, outcome, hcycle⟩ hq
  exact (Follows.cycle hq hcycle).hostFree hq

/-- So no cycle of a run calls a callback. -/
theorem HostFree.not_enters_betweenCycles (hfree : m.HostFree) (fuel : Nat) :
    ∀ p ∈ m.betweenCycles invoke start budget fuel, ∀ f id m', ¬ p.Enters f id m' :=
  fun p hp => (hfree.betweenCycles fuel p hp).not_enters

/-- Each cycle of a run takes one thread one instruction further at most. -/
theorem HostFree.isChain_proceeds (hfree : m.HostFree) (fuel : Nat) :
    (m.betweenCycles invoke start budget fuel).IsChain fun p q => ∃ id, Proceeds id p q := by
  refine (isChain_betweenCycles fuel m).imp_of_mem_imp ?_
  rintro p q hp - ⟨-, outcome, hcycle⟩
  exact Proceeds.cycle (hfree.betweenCycles fuel p hp) hcycle

end ScriptMachine.Machine
