import ScriptMachine.Proofs.Timeslices

/-!
# Runs with a time limit

A run looks at its time in every cycle, also in those of a thread that waits or meets a fault. So a
clock that goes on by `k` with each reading ends a run of `b` milliseconds within `b / k + 1`
cycles, whatever the threads do. The measure is how many cycles there are before the one with the
first reading past the end (`Machine.OnTime`).
-/

namespace ScriptMachine.Machine

variable {κ μ : Type} {m p q : Machine κ μ} {s start b k : UInt64} {left : Nat}
  {budget : Budget} {invoke : Invoke κ μ}

/-! ## One cycle -/

/-- No time passes within a cycle, beyond the one reading of the clock, and the scheduler stays in
its mode. -/
theorem Cycled.clock_mode (h : Cycled invoke start budget p q)
    (hquiet : ∀ f x m₁, ¬ p.Enters f x m₁) :
    q.clock = p.clock.read.2 ∧ q.scheduler.mode = p.scheduler.mode := by
  obtain ⟨x, scheduled, hscheduled, hworks⟩ := h.works hquiet
  obtain ⟨runnable, -, hschedule⟩ := Option.map_eq_some_iff.1 hscheduled
  have hclock : scheduled.clock = p.clock.read.2 := by
    have hsnd := schedule_snd p.now.2 runnable p.now.1
    rw [hschedule] at hsnd
    obtain rfl | ⟨first, rfl⟩ := hsnd <;> rfl
  have hmode := mode_schedule (m := p.now.2) runnable p.now.1
  rw [hschedule] at hmode
  exact ⟨hworks.clock.trans hclock, by rw [hworks.scheduler, hmode]; rfl⟩

/-- What a clock gives next that adds `k` at each reading. -/
theorem peek_of_read {c : Clock} (hclock : c = .manual s k)
    (htime : s.toNat + k.toNat < UInt64.size) :
    c.read.2 = .manual c.read.2.peek k ∧ c.read.2.peek.toNat = s.toNat + k.toNat := by
  subst hclock
  exact ⟨rfl, Clock.toNat_add_of_lt htime⟩

/-- A machine in the course of a run of `b` milliseconds from `start`: in the cycle after `left`
more ones its clock gives the first reading past the end of the run. -/
structure OnTime (start b k : UInt64) (left : Nat) (p : Machine κ μ) : Prop where
  mode : p.scheduler.mode = .roundRobin
  hostFree : p.HostFree
  clock : p.clock = .manual p.clock.peek k
  past : start.toNat + b.toNat < p.clock.peek.toNat + left * k.toNat
  first : p.clock.peek.toNat + left * k.toNat ≤ start.toNat + b.toNat + k.toNat

namespace OnTime

theorem begin (hmode : m.scheduler.mode = .roundRobin) (hfree : m.HostFree)
    (hclock : m.clock = .manual s k) (hk : 0 < k)
    (htime : s.toNat + b.toNat + k.toNat < UInt64.size) :
    OnTime s b k (b.toNat / k.toNat) m.now.2 := by
  obtain ⟨hread, hpeek⟩ := peek_of_read hclock (by omega)
  have hnow : m.now.2.clock.peek.toNat = s.toNat + k.toNat := hpeek
  have hpast := Nat.lt_div_mul_add (a := b.toNat) (UInt64.lt_iff_toNat_lt.1 hk)
  have hfirst := Nat.div_mul_le_self b.toNat k.toNat
  exact {
    mode := hmode
    hostFree := hfree
    clock := hread
    past := by omega
    first := by omega }

/-- The time is up in the last one of these cycles, and not before. -/
theorem isUp_iff (h : OnTime start b k left p)
    (htime : start.toNat + b.toNat + k.toNat < UInt64.size) :
    (Budget.millis b).isUp start p.now.1 = true ↔ left = 0 := by
  have hsum : (start + b).toNat = start.toNat + b.toNat := Clock.toNat_add_of_lt (by omega)
  rw [show p.now.1 = p.clock.peek from p.clock.read_fst, Budget.isUp_millis_iff,
    UInt64.lt_iff_toNat_lt, hsum]
  obtain ⟨-, -, -, hpast, hfirst⟩ := h
  cases left with
  | zero =>
    rw [Nat.zero_mul] at hpast
    exact iff_of_true hpast rfl
  | succ left =>
    rw [Nat.add_mul, Nat.one_mul] at hfirst
    refine iff_of_false ?_ (Nat.succ_ne_zero left)
    omega

/-- If a thread is running, the cycle goes to a thread and comes to an end. -/
theorem cycled (h : OnTime start b k left p) (hrunnable : p.runnable? ≠ none)
    (invoke : Invoke κ μ) :
    ∃ q, Cycled invoke start (.millis b) p q ∧ p.cycle invoke start (.millis b) =
      some (if (Budget.millis b).isUp start p.now.1 then some .budget else none, q) := by
  have hends : p.cycle invoke start (.millis b) ≠ none := by
    rw [Ne, cycle_eq_none_iff]
    rintro ⟨f, x, m₁, henters, -⟩
    exact h.hostFree.not_enters f x m₁ henters
  obtain ⟨⟨outcome, q⟩, hcycle⟩ := Option.ne_none_iff_exists'.1 hends
  have hcycled : Cycled invoke start (.millis b) p q := ⟨hrunnable, outcome, hcycle⟩
  refine ⟨q, hcycled, hcycle.trans ?_⟩
  obtain ⟨hnone, -⟩ | ⟨runnable, x, scheduled, flow, -, -, -, houtcome⟩ := cycle_cases hcycle
  · exact absurd hnone hrunnable
  · -- no thread is pinned, so no synchronous call can return
    have hshared : q.syncDone x flow = false := by
      rw [Bool.eq_false_iff, Ne, syncDone_iff]
      rintro ⟨-, hpinned⟩
      rw [(hcycled.clock_mode h.hostFree.not_enters).2, h.mode] at hpinned
      cases hpinned
    rw [houtcome, hshared]
    rfl

theorem next (h : OnTime start b k (left + 1) p)
    (htime : start.toNat + b.toNat + k.toNat < UInt64.size)
    (hcycled : Cycled invoke start (.millis b) p q) : OnTime start b k left q := by
  obtain ⟨hclock, hmode⟩ := hcycled.clock_mode h.hostFree.not_enters
  have hpast := h.past
  have hfirst := h.first
  rw [Nat.add_mul, Nat.one_mul] at hpast hfirst
  obtain ⟨hread, hpeek⟩ := peek_of_read h.clock (by omega)
  rw [← hclock] at hread hpeek
  obtain ⟨-, outcome, hcycle⟩ := hcycled
  exact {
    mode := hmode.trans h.mode
    hostFree := (Follows.cycle h.hostFree hcycle).hostFree h.hostFree
    clock := hread
    past := by omega
    first := by omega }

end OnTime

/-! ## The whole run -/

/-- How a run ends whose time is up in the cycle after `left` more ones. The machines from cycle to
cycle are `ps`, so it has one cycle less than machines. -/
structure Punctual (left : Nat) (ps : List (Machine κ μ)) (outcome : RunOutcome)
    (m' : Machine κ μ) : Prop where
  length : ps.length ≤ left + 2
  /-- If a thread is still running in the cycle in which the time is up, that cycle is the last. -/
  budget : ∀ p x, ps[left]? = some p → p.isRunning x = true →
    outcome = .budget ∧ ps.length = left + 2
  /-- Otherwise all threads have stopped. -/
  idle : (∀ p x, ps[left]? = some p → p.isRunning x = false) →
    outcome = .idle ∧ ∀ x, m'.isRunning x = false

namespace Punctual

theorem nothing (hmode : p.scheduler.mode = .roundRobin) (hnone : p.runnable? = none) :
    Punctual left [p] .idle p where
  length := Nat.le_add_left 1 (left + 1)
  budget q x hq hx := by
    cases left with
    | zero =>
      cases hq
      rw [isRunning_of_runnable?_eq_none hmode hnone x] at hx
      cases hx
    | succ left => cases hq
  idle _ := ⟨rfl, isRunning_of_runnable?_eq_none hmode hnone⟩

theorem last (hrunnable : p.runnable? ≠ none) (q : Machine κ μ) :
    Punctual 0 [p, q] .budget q where
  length := Nat.le_refl 2
  budget _ _ _ _ := ⟨rfl, rfl⟩
  idle hstopped := by
    obtain ⟨x, hx⟩ := Option.ne_none_iff_exists'.1 hrunnable
    have hrunning := isRunning_of_runnable? hx
    rw [hstopped p x rfl] at hrunning
    cases hrunning

theorem cons {ps : List (Machine κ μ)} {outcome : RunOutcome} {m' : Machine κ μ}
    (h : Punctual left ps outcome m') (p : Machine κ μ) :
    Punctual (left + 1) (p :: ps) outcome m' where
  length := Nat.succ_le_succ h.length
  budget q x hq hx :=
    have ⟨houtcome, hlength⟩ := h.budget q x hq hx
    ⟨houtcome, congrArg (· + 1) hlength⟩
  idle hstopped := h.idle hstopped

end Punctual

/-- The rest of a run ends on time, and in one way whatever its fuel is, if that lasts for all its
cycles. -/
def EndsOnTime (invoke : Invoke κ μ) (start b : UInt64) (left : Nat) (p : Machine κ μ) : Prop :=
  ∃ outcome m' ps, Punctual left ps outcome m' ∧ ∀ fuel, left < fuel →
    p.cycles invoke start (.millis b) fuel = some (outcome, m') ∧
    p.betweenCycles invoke start (.millis b) fuel = ps

namespace EndsOnTime

theorem nothing (hmode : p.scheduler.mode = .roundRobin) (hnone : p.runnable? = none) :
    EndsOnTime invoke start b left p := by
  refine ⟨.idle, p, [p], .nothing hmode hnone, fun fuel hfuel => ?_⟩
  obtain ⟨fuel, rfl⟩ := Nat.exists_eq_add_of_lt hfuel
  simp only [cycles, cycle, betweenCycles, hnone, hmode, if_true, and_self]

theorem last (hrunnable : p.runnable? ≠ none)
    (hcycle : p.cycle invoke start (.millis b) = some (some .budget, q)) :
    EndsOnTime invoke start b 0 p := by
  refine ⟨.budget, q, [p, q], .last hrunnable q, fun fuel hfuel => ?_⟩
  obtain ⟨runnable, hsome⟩ := Option.ne_none_iff_exists'.1 hrunnable
  obtain ⟨fuel, rfl⟩ := Nat.exists_eq_add_of_lt hfuel
  simp only [cycles, betweenCycles, hcycle, hsome, and_self]

theorem cons (hrunnable : p.runnable? ≠ none)
    (hcycle : p.cycle invoke start (.millis b) = some (none, q))
    (h : EndsOnTime invoke start b left q) : EndsOnTime invoke start b (left + 1) p := by
  obtain ⟨outcome, m', ps, hpunctual, hends⟩ := h
  refine ⟨outcome, m', p :: ps, hpunctual.cons p, fun fuel hfuel => ?_⟩
  obtain ⟨runnable, hsome⟩ := Option.ne_none_iff_exists'.1 hrunnable
  obtain ⟨fuel, rfl⟩ := Nat.exists_eq_add_of_lt hfuel
  obtain ⟨hrest, hps⟩ := hends (left + 1 + fuel) (by omega)
  simp only [cycles, betweenCycles, hcycle, hsome, hrest, hps, and_self]

end EndsOnTime

theorem OnTime.ends (h : OnTime start b k left p)
    (htime : start.toNat + b.toNat + k.toNat < UInt64.size) (invoke : Invoke κ μ) :
    EndsOnTime invoke start b left p := by
  induction left generalizing p with
  | zero =>
    by_cases hrunnable : p.runnable? = none
    · exact .nothing h.mode hrunnable
    · obtain ⟨q, -, hcycle⟩ := h.cycled hrunnable invoke
      rw [(h.isUp_iff htime).2 rfl, if_pos rfl] at hcycle
      exact .last hrunnable hcycle
  | succ left ih =>
    by_cases hrunnable : p.runnable? = none
    · exact .nothing h.mode hrunnable
    · obtain ⟨q, hcycled, hcycle⟩ := h.cycled hrunnable invoke
      rw [if_neg (mt (h.isUp_iff htime).1 (Nat.succ_ne_zero left))] at hcycle
      exact .cons hrunnable hcycle (ih (h.next htime hcycled))

/-- **Runs with a time limit end on time.** Take a machine that shares the time among its threads,
none of which calls the host, with a clock that adds `k` at each reading. A run of `b` milliseconds
comes to an end, after `b / k + 1` cycles at most, and each of them takes one thread one instruction
further at most. If some thread is still running when cycle `b / k + 1` begins, the run ends with
just that cycle since its time is up; otherwise it ends since no thread is running any more. -/
theorem run_millis_punctual (invoke : Invoke κ μ) (hmode : m.scheduler.mode = .roundRobin)
    (hfree : m.HostFree) (hclock : m.clock = .manual s k) (hk : 0 < k)
    (htime : s.toNat + b.toNat + k.toNat < UInt64.size) :
    ∃ outcome m' ps,
      (∀ fuel, b.toNat / k.toNat < fuel →
        m.run invoke fuel (.millis b) = some (outcome, m') ∧
        m.now.2.betweenCycles invoke m.now.1 (.millis b) fuel = ps) ∧
      ps.getLast? = some m' ∧
      (ps.IsChain fun p q => ∃ id, Proceeds id p q) ∧
      Punctual (b.toNat / k.toNat) ps outcome m' := by
  have hstart : m.now.1 = s := congrArg (fun c => c.read.1) hclock
  obtain ⟨outcome, m', ps, hpunctual, hends⟩ :=
    (OnTime.begin hmode hfree hclock hk htime).ends htime invoke
  rw [← hstart] at hends
  obtain ⟨hcycles, hps⟩ := hends _ (Nat.lt_succ_self _)
  refine ⟨outcome, m', ps, hends, ?_, ?_, hpunctual⟩
  · obtain ⟨p, hlast, ⟨ended, hp⟩ | ⟨hnone, -⟩⟩ :=
      betweenCycles_ends invoke m.now.1 (.millis b) (b.toNat / k.toNat + 1) m.now.2
    · rw [hcycles] at hp
      cases hp
      rwa [hps] at hlast
    · rw [hcycles] at hnone
      cases hnone
  · have hfree' : m.now.2.HostFree := hfree
    rw [← hps]
    exact hfree'.isChain_proceeds _

theorem run_millis_punctual_two_looping :
    twoLooping.scheduler.mode = .roundRobin ∧ twoLooping.HostFree ∧
      twoLooping.clock = .manual 0 1 ∧ ∃ m', ∀ fuel, 5 < fuel →
        twoLooping.run (fun _ _ _ => none) fuel (.millis 5) = some (.budget, m') ∧
        (twoLooping.now.2.betweenCycles (fun _ _ _ => none) 0 (.millis 5) fuel).length = 7 := by
  obtain ⟨outcome, m', ps, hends, -, -, hpunctual⟩ :=
    run_millis_punctual (b := 5) (fun _ _ _ => none) rfl hostFree_twoLooping
      (rfl : twoLooping.clock = .manual 0 1) (by decide) (by decide)
  have hps := (hends 6 (by decide)).2
  have hrunning : (ps[5]?.any fun p => p.isRunning 0) = true := by
    rw [← hps]
    decide +kernel
  obtain ⟨p, hp, hx⟩ := (Option.any_eq_true _ _).1 hrunning
  obtain ⟨rfl, hlength⟩ := hpunctual.budget p 0 hp hx
  refine ⟨rfl, hostFree_twoLooping, rfl, m', fun fuel hfuel => ?_⟩
  obtain ⟨hrun, hsame⟩ := hends fuel hfuel
  exact ⟨hrun, (congrArg List.length hsame).trans hlength⟩

end ScriptMachine.Machine
