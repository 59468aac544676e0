import Mathlib.Data.List.Infix
import ScriptMachine.Proofs.Alternation
import ScriptMachine.Proofs.Pauses

/-!
# Durations

A pause and a run with a time limit end at a reading of the clock plus a duration, and this sum
wraps at 64 bits. While it does not, a longer duration acts at least as long: a pause keeps the
thread waiting, and a run goes on, whenever the shorter one does. A duration that takes the sum
beyond the range of times (`Wraps`) ends in the past instead: such a pause keeps nobody waiting, and
such a run ends with its first cycle.
-/

namespace ScriptMachine

open Machine

variable {κ μ : Type} {m : Machine κ μ} {id : ThreadId} {t : Thread} {now start r d d₁ d₂ : UInt64}
  {b₁ b₂ : Budget} {callbacks : Callbacks κ μ} {invoke : Invoke κ μ}

/-! ## The end of a duration -/

/-- A duration from a time on ends beyond the range of times. -/
def Wraps (now d : UInt64) : Prop := UInt64.size ≤ now.toNat + d.toNat

instance (now d : UInt64) : Decidable (Wraps now d) := inferInstanceAs (Decidable (_ ≤ _))

theorem toNat_add_of_wraps (h : Wraps now d) :
    (now + d).toNat + UInt64.size = now.toNat + d.toNat := by
  have hnow := now.toNat_lt_size
  have hd := d.toNat_lt_size
  have hwraps : UInt64.size ≤ now.toNat + d.toNat := h
  rw [UInt64.toNat_add, show 2 ^ 64 = UInt64.size from rfl, Nat.mod_eq_sub_mod hwraps,
    Nat.mod_eq_of_lt (by omega), Nat.sub_add_cancel hwraps]

/-- A duration that wraps ends before it begins. -/
theorem add_lt_of_wraps (h : Wraps now d) : now + d < now := by
  have hsum := toNat_add_of_wraps h
  have hd := d.toNat_lt_size
  rw [UInt64.lt_iff_toNat_lt]
  omega

/-- The longer of two durations ends later, unless it wraps and the shorter one does not. -/
theorem add_le_add_iff_wraps (hle : d₁ ≤ d₂) :
    now + d₁ ≤ now + d₂ ↔ (Wraps now d₂ → Wraps now d₁) := by
  have hle' := UInt64.le_iff_toNat_le.1 hle
  rw [UInt64.le_iff_toNat_le]
  by_cases h₂ : Wraps now d₂
  · have hsum₂ := toNat_add_of_wraps h₂
    by_cases h₁ : Wraps now d₁
    · have hsum₁ := toNat_add_of_wraps h₁
      exact iff_of_true (by omega) fun _ => h₁
    · have hsum₁ := Clock.toNat_add_of_lt (Nat.lt_of_not_le h₁)
      have hd₂ := d₂.toNat_lt_size
      exact iff_of_false (by omega) fun h => h₁ (h h₂)
  · have h₁ : ¬ Wraps now d₁ := fun h => h₂ (Nat.le_trans h (Nat.add_le_add_left hle' _))
    have hsum₁ := Clock.toNat_add_of_lt (Nat.lt_of_not_le h₁)
    have hsum₂ := Clock.toNat_add_of_lt (Nat.lt_of_not_le h₂)
    exact iff_of_true (by omega) fun h => absurd h h₂

/-! ## Pauses -/

/-- A cycle whose reading of the clock is `r` finds that a thread has to wait. -/
def Machine.Waits (m : Machine κ μ) (id : ThreadId) (r : UInt64) : Prop := (m.ready id r).1 = false

instance (m : Machine κ μ) (id : ThreadId) (r : UInt64) : Decidable (m.Waits id r) :=
  inferInstanceAs (Decidable (_ = _))

theorem Machine.waits_pause_iff (ht : m.thread? id = some t)
    (hmode : m.scheduler.mode = .roundRobin) :
    (m.pause id d).2.Waits id r ↔ r < m.now.1 + d := by
  have hmode' : (m.pause id d).2.scheduler.mode = .roundRobin :=
    (congrArg Scheduler.mode (Stays.pause d).scheduler).trans hmode
  simp only [Waits, ready, thread?_pause ht, hmode', Bool.not_true, ne_eq, not_true_eq_false,
    decide_false, Bool.or_false, Bool.false_eq_true, if_false]
  rw [← UInt64.not_le]
  split
  · rename_i hover
    exact iff_of_false (fun h => Bool.noConfusion h) (not_not_intro hover)
  · rename_i hearly
    exact iff_of_true rfl hearly

/-! ## Runs -/

/-- The instruction that a thread is about to execute. -/
def Point.executes? (p : Point κ μ) : Option (ThreadId × Instruction) :=
  match p.act with
  | .executes id _ =>
    (p.machine.thread? id).bind fun t => (t.instruction? t.ip).map fun i => (id, i)
  | _ => none

section

variable (hup : ∀ now, b₂.isUp start now = true → b₁.isUp start now = true)
include hup

/-- The time left makes a difference only if it is up. -/
theorem Machine.cycle_of_isUp (invoke : Invoke κ μ) (m : Machine κ μ) :
    m.cycle invoke start b₂ = m.cycle invoke start b₁ ∨
      ∃ m', m.cycle invoke start b₁ = some (some .budget, m') ∧
        ∃ outcome, m.cycle invoke start b₂ = some (outcome, m') := by
  cases hrunnable : m.runnable? with
  | none =>
    left
    simp only [cycle, hrunnable]
  | some runnable =>
    cases hattempt : (m.now.2.schedule runnable m.now.1).2.attempt invoke
        (m.now.2.schedule runnable m.now.1).1 m.now.1 with
    | none =>
      left
      simp only [cycle, hrunnable, hattempt]
    | some r =>
      obtain ⟨flow, m'⟩ := r
      simp only [cycle, hrunnable, hattempt]
      by_cases h₁ : b₁.isUp start m.now.1 = true
      · right
        refine ⟨m', by rw [if_pos h₁], ?_⟩
        split
        · exact ⟨_, rfl⟩
        · split <;> exact ⟨_, rfl⟩
      · left
        rw [if_neg h₁, if_neg (mt (hup m.now.1) h₁)]

theorem Machine.cyclesPoints_prefix (invoke : Invoke κ μ)
    (inside : κ → ThreadId → Machine κ μ → List (Point κ μ)) (fuel : Nat) (m : Machine κ μ) :
    m.cyclesPoints invoke inside start b₁ fuel <+: m.cyclesPoints invoke inside start b₂ fuel := by
  induction fuel generalizing m with
  | zero => exact List.prefix_rfl
  | succ fuel ih =>
    simp only [cyclesPoints, List.prefix_append_right_inj]
    obtain hsame | ⟨m', h₁, outcome, h₂⟩ := cycle_of_isUp hup invoke m
    · rw [hsame]
      cases m.cycle invoke start b₁ with
      | none => exact List.prefix_rfl
      | some r =>
        obtain ⟨_ | _, m'⟩ := r
        · exact List.cons_prefix_cons.2 ⟨rfl, ih m'⟩
        · exact List.prefix_rfl
    · rw [h₁, h₂]
      cases outcome with
      | none => exact List.cons_prefix_cons.2 ⟨rfl, List.nil_prefix⟩
      | some outcome => exact List.prefix_rfl

end

/-- A run whose end wraps is up with its first cycle, if the clock has not gone back. -/
theorem Machine.ends_of_wraps (h : Wraps start d) (hclock : start ≤ m.now.1)
    {outcome : Option RunOutcome} {m' : Machine κ μ}
    (hcycle : m.cycle invoke start (.millis d) = some (outcome, m')) : outcome ≠ none := by
  have hup : (Budget.millis d).isUp start m.now.1 = true :=
    Budget.isUp_millis_iff.2 (UInt64.lt_of_lt_of_le (add_lt_of_wraps h) hclock)
  obtain ⟨-, -, rfl⟩ | ⟨_, _, _, _, -, -, -, rfl⟩ := cycle_cases hcycle
  · exact Option.some_ne_none _
  · rw [if_pos hup]
    exact Option.some_ne_none _

/-- **What a longer duration does.** Let `d₁ ≤ d₂`. A thread paused for `d₂` waits whenever it would
wait if paused for `d₁`, and a run of `d₂` milliseconds goes just as one of `d₁` as long as that one
lasts, with all instructions that are executed, unless `d₂` takes the end beyond the range of times
and `d₁` does not. A duration that takes the end beyond the range of times makes no thread wait from
now on, and the run ends with its first cycle. -/
theorem longer_durations (callbacks : Callbacks κ μ) (m : Machine κ μ) (hle : d₁ ≤ d₂) :
    (∀ id t, m.thread? id = some t → m.scheduler.mode = .roundRobin →
      ((∀ r, (m.pause id d₁).2.Waits id r → (m.pause id d₂).2.Waits id r) ↔
        (Wraps m.now.1 d₂ → Wraps m.now.1 d₁))) ∧
    ((Wraps m.now.1 d₂ → Wraps m.now.1 d₁) → ∀ fuel,
      let course₁ := points callbacks fuel (.run (.millis d₁)) m
      let course₂ := points callbacks fuel (.run (.millis d₂)) m
      course₁ <+: course₂ ∧
        course₁.filterMap Point.executes? <+: course₂.filterMap Point.executes?) ∧
    (Wraps m.now.1 d₂ →
      (∀ id t, m.thread? id = some t → m.scheduler.mode = .roundRobin →
        ∀ r, m.now.1 ≤ r → ¬ (m.pause id d₂).2.Waits id r) ∧
      (m.now.1 ≤ m.now.2.now.1 → ∀ invoke outcome m',
        m.now.2.cycle invoke m.now.1 (.millis d₂) = some (outcome, m') → outcome ≠ none)) := by
  have hend : m.now.1 + d₁ ≤ m.now.1 + d₂ ↔ _ := add_le_add_iff_wraps hle
  refine ⟨fun id t ht hmode => ?_, fun hwraps fuel => ?_, fun hwraps => ⟨?_, ?_⟩⟩
  · simp only [waits_pause_iff ht hmode, ← hend]
    refine ⟨fun hall => ?_, fun hle r hr => UInt64.lt_of_lt_of_le hr hle⟩
    by_contra hlt
    exact UInt64.lt_irrefl _ (hall _ (UInt64.not_le.1 hlt))
  · have hcourse : points callbacks fuel (.run (.millis d₁)) m <+:
        points callbacks fuel (.run (.millis d₂)) m := by
      cases fuel with
      | zero => exact List.prefix_rfl
      | succ fuel =>
        refine List.cons_prefix_cons.2 ⟨rfl, cyclesPoints_prefix (fun now hup => ?_) _ _ _ _⟩
        rw [Budget.isUp_millis_iff] at hup ⊢
        exact UInt64.lt_of_le_of_lt (hend.2 hwraps) hup
    exact ⟨hcourse, hcourse.filterMap _⟩
  · intro id t ht hmode r hr hwaits
    rw [waits_pause_iff ht hmode] at hwaits
    exact UInt64.lt_irrefl r
      (UInt64.lt_of_lt_of_le (UInt64.lt_trans hwaits (add_lt_of_wraps hwraps)) hr)
  · intro hclock invoke outcome m' hcycle
    exact ends_of_wraps hwraps hclock hcycle

theorem longer_durations_two_looping :
    ¬ Wraps twoLooping.now.1 5 ∧
      (∀ r, (twoLooping.pause 0 3).2.Waits 0 r → (twoLooping.pause 0 5).2.Waits 0 r) ∧
      points (fun _ _ => .pure ()) 9 (.run (.millis 3)) twoLooping <+:
        points (fun _ _ => .pure ()) 9 (.run (.millis 5)) twoLooping := by
  have hfits : ¬ Wraps twoLooping.now.1 5 := by decide
  obtain ⟨hpause, hrun, -⟩ :=
    longer_durations (fun _ _ => .pure ()) twoLooping (by decide : (3 : UInt64) ≤ 5)
  exact ⟨hfits, (hpause 0 (looping 1) rfl rfl).2 fun h => absurd h hfits,
    (hrun (fun h => absurd h hfits) 9).1⟩

/-- Once a clock has gone on, the longest pause is none, and the longest run is shorter than one of
three milliseconds. -/
theorem longest_durations_are_short :
    let m := twoLooping.now.2
    let longest : UInt64 := 18446744073709551615
    let executed (d : UInt64) := (points (fun _ _ => .pure ()) 9 (.run (.millis d)) m).filterMap
      Point.executes?
    m.HostFree ∧ (m.pause 0 10).2.Waits 0 2 ∧ ¬ (m.pause 0 longest).2.Waits 0 2 ∧
      ¬ executed 3 <+: executed longest := by
  refine ⟨hostFree_twoLooping, by decide, by decide, ?_⟩
  decide +kernel

end ScriptMachine
