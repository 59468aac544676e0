import Mathlib.Data.Int.CardIntervalMod
import Mathlib.Data.List.Rotate
import ScriptMachine.Proofs.Alternation
import ScriptMachine.Proofs.Cycles

/-!
# Timeslices

With a clock that adds `k` at each reading, a turn of a thread with timeslice `t` lasts `t / k + 1`
cycles: the reading that begins it and those that are not past its end. The threads that are running
take their turns in the order of their slots, so the cycles of a run repeat one round over and over.
The proof keeps the cycles that are to come (`Machine.Upcoming`) in a queue: a cycle takes the first
one off it and puts it behind the others.
-/

namespace ScriptMachine.Machine

variable {κ μ : Type} {m p q : Machine κ μ} {id x first : ThreadId} {now start k s : UInt64}
  {budget : Budget} {invoke : Invoke κ μ}

/-! ## The order of turns -/

/-- The threads that are running, in the order of their slots from a slot on, in a circle. -/
def inTurn (m : Machine κ μ) (first : ThreadId) : List ThreadId :=
  let n := m.threads.size
  ((List.range n).map fun step => (first + step) % n).filter m.isRunning

theorem head?_inTurn (m : Machine κ μ) (first : ThreadId) :
    (m.inTurn first).head? = m.nextRunning? first := List.head?_filter

theorem circle_eq_rotate (n first : Nat) :
    (List.range n).map (fun step => (first + step) % n) = (List.range n).rotate first := by
  refine List.ext_getElem (by simp) fun i _ _ => ?_
  rw [List.getElem_rotate, List.getElem_map, List.getElem_range, List.getElem_range,
    List.length_range, Nat.add_comm]

theorem mem_inTurn : x ∈ m.inTurn first ↔ m.isRunning x = true := by
  rw [inTurn, circle_eq_rotate, List.mem_filter, List.mem_rotate, List.mem_range]
  exact ⟨And.right, fun hx => ⟨lt_size_of_isRunning hx, hx⟩⟩

theorem nodup_inTurn : (m.inTurn first).Nodup := by
  rw [inTurn, circle_eq_rotate]
  exact (List.nodup_rotate.2 List.nodup_range).filter _

/-- Behind the first thread, the others come in the same order, and then the first one again. -/
theorem inTurn_succ {others : List ThreadId} (h : m.inTurn first = x :: others) :
    m.inTurn (x + 1) = others ++ [x] := by
  simp only [inTurn, circle_eq_rotate] at h ⊢
  obtain ⟨skipped, rest, hcircle, hskipped, hx, hothers⟩ := List.filter_eq_cons_iff.1 h
  have hplace : (first + skipped.length + 1) % m.threads.size = (x + 1) % m.threads.size := by
    have hget : ((List.range m.threads.size).rotate first)[skipped.length]? = some x := by
      rw [hcircle, List.getElem?_append_right (Nat.le_refl _), Nat.sub_self,
        List.getElem?_cons_zero]
    obtain ⟨hlt, hget⟩ := List.getElem?_eq_some_iff.1 hget
    rw [List.getElem_rotate, List.getElem_range, List.length_range, Nat.add_comm] at hget
    rw [← hget, Nat.mod_add_mod]
  have hbehind : (List.range m.threads.size).rotate (x + 1) = rest ++ (skipped ++ [x]) := by
    calc (List.range m.threads.size).rotate (x + 1)
        = (List.range m.threads.size).rotate (first + skipped.length + 1) := by
          rw [← List.rotate_mod _ (x + 1), ← List.rotate_mod _ (first + skipped.length + 1),
            List.length_range, hplace]
      _ = ((List.range m.threads.size).rotate first).rotate (skipped ++ [x]).length := by
          rw [List.rotate_rotate, List.length_append, List.length_singleton, Nat.add_assoc]
      _ = (skipped ++ [x] ++ rest).rotate (skipped ++ [x]).length := by
          rw [hcircle, List.append_assoc, List.singleton_append]
      _ = rest ++ (skipped ++ [x]) := List.rotate_append_length_eq _ _
  have hnone : skipped.filter m.isRunning = [] := List.filter_eq_nil_iff.2 hskipped
  rw [hbehind, List.filter_append, List.filter_append, hnone, hothers,
    List.filter_cons_of_pos hx, List.filter_nil, List.nil_append]

/-- The timeslice of a thread, in milliseconds. -/
def slice (m : Machine κ μ) (id : ThreadId) : Nat := ((m.timeslice? id).getD 0).toNat

/-- The cycles of a turn, each with its thread and whether the turn begins with it. -/
def turn (m : Machine κ μ) (k : UInt64) (id : ThreadId) : List (ThreadId × Bool) :=
  (id, true) :: List.replicate (m.slice id / k.toNat) (id, false)

/-- The cycles of a round, in which every thread that is running has one turn. -/
def round (m : Machine κ μ) (k : UInt64) : List (ThreadId × Bool) :=
  (m.inTurn m.scheduler.current).flatMap (m.turn k)

/-! ## One cycle -/

/-- The slot from which on the next turn is sought, if the current one is over. -/
def dueFrom? (m : Machine κ μ) (now : UInt64) : Option ThreadId :=
  match m.scheduler.turnStarted with
  | none => some m.scheduler.current
  | some started => if m.turnOver started now then some (m.scheduler.current + 1) else none

theorem eq_succ_of_dueFrom? (h : m.dueFrom? now = some first)
    (hstarted : m.scheduler.turnStarted ≠ none) : first = m.scheduler.current + 1 := by
  rw [dueFrom?] at h
  split at h
  · rename_i hnone
    exact absurd hnone hstarted
  · split at h
    · exact (Option.some.inj h).symm
    · cases h

theorem schedule_of_roundRobin (hmode : m.scheduler.mode = .roundRobin) (runnable : ThreadId)
    (now : UInt64) :
    m.schedule runnable now = match m.dueFrom? now with
      | none => (m.scheduler.current, m)
      | some first =>
        ((m.beginTurn first runnable now).scheduler.current, m.beginTurn first runnable now) := by
  simp only [schedule, hmode, rotate, dueFrom?]
  cases m.scheduler.turnStarted with
  | none => rfl
  | some started =>
    simp only
    cases m.turnOver started now <;> rfl

theorem scheduler_beginTurn (hnext : m.nextRunning? first = some id) (fallback : ThreadId)
    (now : UInt64) : (m.beginTurn first fallback now).scheduler =
      { m.scheduler with current := id, turnStarted := some now } := by
  unfold beginTurn
  rw [hnext]
  rfl

/-- A cycle went to a thread, whose turn began with it or went on. -/
structure Turned (a : ThreadId × Bool) (now : UInt64) (m m' : Machine κ μ) : Prop
    extends Inherits m m' where
  turns : ∀ j, m'.turns? j = (m.turns? j).map (· + if a = (j, true) then 1 else 0)
  scheduler : m'.scheduler = { m.scheduler with
    current := a.1
    turnStarted := if a.2 then some now else m.scheduler.turnStarted }

/-- What the scheduler does in a cycle. -/
structure Grants (a : ThreadId × Bool) (now : UInt64) (m : Machine κ μ)
    (r : ThreadId × Machine κ μ) : Prop extends Turned a now m r.2 where
  thread : r.1 = a.1
  granted : r.2.granted ≠ m.granted ↔ a.2 = true
  clock : r.2.clock = m.clock

/-- A turn that is due begins. -/
theorem grants_of_due (hmode : m.scheduler.mode = .roundRobin) (hdue : m.dueFrom? now = some first)
    (hnext : m.nextRunning? first = some id) (runnable : ThreadId) :
    Grants (id, true) now m (m.schedule runnable now) := by
  have hscheduler := scheduler_beginTurn hnext runnable now
  have hgives : Gives id m (m.beginTurn first runnable now) :=
    gives_beginTurn hnext (eq_succ_of_dueFrom? hdue) now
  simp only [schedule_of_roundRobin hmode, hdue]
  exact {
    toInherits := .beginTurn first runnable now
    turns := fun j => by
      rw [hgives.turns]
      simp [eq_comm]
    scheduler := hscheduler
    thread := by rw [hscheduler]
    granted := by simp [hgives.granted]
    clock := rfl }

/-- A turn that is not over goes on. -/
theorem grants_of_not_due (hmode : m.scheduler.mode = .roundRobin) (hdue : m.dueFrom? now = none)
    (runnable : ThreadId) :
    Grants (m.scheduler.current, false) now m (m.schedule runnable now) := by
  simp only [schedule_of_roundRobin hmode, hdue]
  exact {
    toInherits := .refl m
    turns := fun j => by simp
    scheduler := rfl
    thread := rfl
    granted := by simp
    clock := rfl }

/-- A cycle without a callback: its thread, and what it leaves. -/
structure Spends (a : ThreadId × Bool) (p q : Machine κ μ) : Prop
    extends Turned a p.clock.peek p q where
  next : p.nextCycle? = some a
  clock : q.clock = p.clock.read.2

theorem Cycled.spends {start : UInt64} {a : ThreadId × Bool} (h : Cycled invoke start budget p q)
    (hquiet : ∀ f x m₁, ¬ p.Enters f x m₁)
    (hgrants : ∀ runnable, Grants a p.now.1 p.now.2 (p.now.2.schedule runnable p.now.1)) :
    Spends a p q := by
  obtain ⟨x, scheduled, hscheduled, hworks⟩ := h.works hquiet
  obtain ⟨runnable, -, hschedule⟩ := Option.map_eq_some_iff.1 hscheduled
  have hturn : Grants a p.now.1 p.now.2 (x, scheduled) := hschedule ▸ hgrants runnable
  have hread : p.now.1 = p.clock.peek := p.clock.read_fst
  have hinherits : Inherits p scheduled := ⟨hturn.size, hturn.timeslice, hturn.running⟩
  exact {
    toInherits := hinherits.trans hworks.toInherits
    turns := fun j => (hworks.turns j).trans (hturn.turns j)
    scheduler := by
      rw [hworks.scheduler, hturn.scheduler, hread]
      rfl
    next := by
      have hbegins : decide (scheduled.granted ≠ p.granted) = a.2 :=
        (Bool.decide_congr hturn.granted).trans (Bool.decide_coe a.2)
      simp only [nextCycle?, hscheduled, Option.map_some, hbegins]
      exact congrArg some (Prod.ext hturn.thread rfl)
    clock := hworks.clock.trans hturn.clock }

/-! ## The queue of cycles -/

/-- Neither the next reading of the clock nor the end of the current turn is beyond the range of
times. -/
def InTime (m : Machine κ μ) (k : UInt64) : Prop :=
  m.clock.peek.toNat + k.toNat < UInt64.size ∧
    ∀ started ∈ m.scheduler.turnStarted,
      started.toNat + m.slice m.scheduler.current < UInt64.size

-- The instance is named, since all times can be enumerated too.
instance (m : Machine κ μ) (k : UInt64) : Decidable (m.InTime k) :=
  @instDecidableAnd _ _ (Nat.decLt _ _) m.scheduler.turnStarted.decidableForallMem

/-- A turn of a thread that is running is over when its timeslice has passed. -/
theorem turnOver_iff (hrunning : m.isRunning m.scheduler.current = true)
    (htime : s.toNat + m.slice m.scheduler.current < UInt64.size) :
    m.turnOver s now = true ↔ s.toNat + m.slice m.scheduler.current < now.toNat := by
  obtain ⟨t, ht, hstill⟩ := (Option.any_eq_true _ _).1 hrunning
  have hslice : m.slice m.scheduler.current = t.timeslice.toNat := by
    rw [slice, timeslice?, ht, Option.map_some, Option.getD_some]
  rw [hslice] at htime ⊢
  simp only [turnOver, ht, hstill, Bool.not_true, Bool.false_or, decide_eq_true_eq,
    UInt64.lt_iff_toNat_lt, UInt64.toNat_add, Nat.mod_eq_of_lt htime]

/-- The cycles that are to come, if the threads that are running in `m` go on: the rest of the
current turn, the turns of the other threads, and of the current one what it has had already. That
turn began at `s`, and `past` cycles of it have followed the first one. -/
inductive Upcoming (m : Machine κ μ) (k : UInt64) (p : Machine κ μ) :
    List (ThreadId × Bool) → Prop
  | fresh : p.scheduler.turnStarted = none →
      Upcoming m k p ((m.inTurn p.scheduler.current).flatMap (m.turn k))
  | within {x : ThreadId} {s : UInt64} {others : List ThreadId} {past left : Nat} :
      p.scheduler.current = x → p.scheduler.turnStarted = some s →
      m.inTurn (x + 1) = others ++ [x] → past + left = m.slice x / k.toNat →
      p.clock.peek.toNat = s.toNat + (past + 1) * k.toNat →
      Upcoming m k p (List.replicate left (x, false) ++ others.flatMap (m.turn k) ++
        (x, true) :: List.replicate past (x, false))

/-- A machine in the course of a run that began with `m`, with a clock that ticks. -/
structure Ticking (m : Machine κ μ) (k : UInt64) (p : Machine κ μ) : Prop
    extends Inherits m p where
  mode : p.scheduler.mode = .roundRobin
  clock : p.clock = .manual p.clock.peek k

theorem Ticking.spends {a : ThreadId × Bool} (h : Ticking m k p) (hspends : Spends a p q) :
    Ticking m k q ∧ q.clock.peek = p.clock.peek + k := by
  have hread : q.clock = .manual (p.clock.peek + k) k := by
    rw [hspends.clock, h.clock]
    rfl
  refine ⟨⟨h.toInherits.trans hspends.toInherits, ?_, by rw [hread]; rfl⟩, by rw [hread]; rfl⟩
  rw [hspends.scheduler, ← h.mode]

theorem InTime.peek_add (h : p.InTime k) :
    (p.clock.peek + k).toNat = p.clock.peek.toNat + k.toNat :=
  Clock.toNat_add_of_lt h.1

/-- If the running threads are the same, they come in the same order. -/
theorem Inherits.inTurn_eq (h : Inherits m p)
    (hall : ∀ x, m.isRunning x = true → p.isRunning x = true) (first : ThreadId) :
    p.inTurn first = m.inTurn first := by
  have hrunning : p.isRunning = m.isRunning :=
    funext fun x => Bool.eq_iff_iff.2 ⟨h.running x, hall x⟩
  simp only [inTurn, h.size, hrunning]

theorem Inherits.slice_eq (h : Inherits m p) (x : ThreadId) : p.slice x = m.slice x := by
  rw [slice, slice, h.timeslice]

section Cycle

variable {start : UInt64} {queue : List (ThreadId × Bool)} (hticking : Ticking m k p)
  (hall : ∀ x, m.isRunning x = true → p.isRunning x = true) (htime : p.InTime k)
  (hquiet : ∀ f x m₁, ¬ p.Enters f x m₁) (h : Cycled invoke start budget p q)

include hticking hall htime hquiet h

/-- A cycle with which a turn begins. -/
theorem upcoming_of_due (hdue : p.dueFrom? p.clock.peek = some first) :
    ∃ a rest, (m.inTurn first).flatMap (m.turn k) = a :: rest ∧ Spends a p q ∧
      Upcoming m k q (rest ++ [a]) := by
  obtain ⟨runnable, hrunnable⟩ := Option.ne_none_iff_exists'.1 h.1
  obtain ⟨x, hnext⟩ := exists_nextRunning? first (isRunning_of_runnable? hrunnable)
  obtain ⟨others, hothers⟩ : ∃ others, m.inTurn first = x :: others := by
    rw [← head?_inTurn, hticking.inTurn_eq hall] at hnext
    exact List.head?_eq_some_iff.1 hnext
  have hspends : Spends (x, true) p q := by
    refine h.spends hquiet (grants_of_due hticking.mode ?_ hnext)
    exact (congrArg p.dueFrom? p.clock.read_fst).trans hdue
  refine ⟨(x, true), List.replicate (m.slice x / k.toNat) (x, false) ++
    others.flatMap (m.turn k), by rw [hothers]; rfl, hspends, ?_⟩
  have hcurrent : q.scheduler.current = x := by rw [hspends.scheduler]
  have hstarted : q.scheduler.turnStarted = some p.clock.peek := by
    rw [hspends.scheduler]
    rfl
  refine .within hcurrent hstarted (inTurn_succ hothers) (Nat.zero_add _) ?_
  rw [(hticking.spends hspends).2, htime.peek_add, Nat.zero_add, Nat.one_mul]

omit hall in
/-- A cycle with which a turn goes on. -/
theorem upcoming_of_not_over {others : List ThreadId} {past left : Nat}
    (hcurrent : p.scheduler.current = x) (hstarted : p.scheduler.turnStarted = some s)
    (hothers : m.inTurn (x + 1) = others ++ [x])
    (hlength : past + (left + 1) = m.slice x / k.toNat)
    (hpeek : p.clock.peek.toNat = s.toNat + (past + 1) * k.toNat)
    (hover : p.turnOver s p.clock.peek = false) :
    Spends (x, false) p q ∧ Upcoming m k q (List.replicate left (x, false) ++
      others.flatMap (m.turn k) ++ (x, true) :: List.replicate past (x, false) ++
        [(x, false)]) := by
  have hdue : p.now.2.dueFrom? p.now.1 = none := by
    refine (congrArg p.dueFrom? p.clock.read_fst).trans ?_
    simp only [dueFrom?, hstarted, hover, Bool.false_eq_true, if_false]
  have hspends : Spends (x, false) p q := by
    rw [← hcurrent]
    exact h.spends hquiet (grants_of_not_due (m := p.now.2) hticking.mode hdue)
  have hcurrent' : q.scheduler.current = x := by rw [hspends.scheduler]
  have hstarted' : q.scheduler.turnStarted = some s := by
    rw [hspends.scheduler, ← hstarted]
    rfl
  have hpeek' : q.clock.peek.toNat = s.toNat + (past + 1 + 1) * k.toNat := by
    rw [(hticking.spends hspends).2, htime.peek_add, hpeek, Nat.add_mul (past + 1),
      Nat.one_mul, Nat.add_assoc]
  have hbehind : Upcoming m k q (List.replicate left (x, false) ++
      others.flatMap (m.turn k) ++ (x, true) :: List.replicate (past + 1) (x, false)) :=
    .within hcurrent' hstarted' hothers (by omega) hpeek'
  rw [List.replicate_succ', ← List.cons_append, ← List.append_assoc] at hbehind
  exact ⟨hspends, hbehind⟩

/-- A cycle takes the first of the cycles to come off the queue and puts it behind the others. -/
theorem Upcoming.cycled (hk : 0 < k) (hupcoming : Upcoming m k p queue) :
    ∃ a rest, queue = a :: rest ∧ Spends a p q ∧ Upcoming m k q (rest ++ [a]) := by
  have hk' : 0 < k.toNat := UInt64.lt_iff_toNat_lt.1 hk
  cases hupcoming with
  | fresh hstarted =>
    refine upcoming_of_due hticking hall htime hquiet h ?_
    rw [dueFrom?, hstarted]
  | @within x s others past left hcurrent hstarted hothers hlength hpeek =>
    have hrunning : p.isRunning p.scheduler.current = true := by
      refine hall _ (mem_inTurn.1 (?_ : _ ∈ m.inTurn (x + 1)))
      rw [hothers, hcurrent]
      exact List.mem_concat_self
    -- The turn is over for a reading past `s` and its timeslice, so with none of its cycles left.
    have hover : p.turnOver s p.clock.peek = true ↔ left = 0 := by
      rw [turnOver_iff hrunning (htime.2 s hstarted), hcurrent, hticking.slice_eq, hpeek,
        Nat.add_lt_add_iff_left, ← Nat.div_lt_iff_lt_mul hk', ← hlength]
      omega
    cases left with
    | zero =>
      have hdue : p.dueFrom? p.clock.peek = some (x + 1) := by
        simp only [dueFrom?, hstarted, hcurrent, hover.2 rfl, if_true]
      obtain ⟨a, rest, hqueue, hspends, hnext⟩ :=
        upcoming_of_due hticking hall htime hquiet h hdue
      refine ⟨a, rest, ?_, hspends, hnext⟩
      rw [← hqueue, hothers, List.flatMap_append, List.flatMap_singleton, turn, ← hlength]
      rfl
    | succ left =>
      have hgoes : p.turnOver s p.clock.peek = false :=
        Bool.eq_false_iff.2 (mt hover.1 (Nat.succ_ne_zero left))
      exact ⟨(x, false), _, rfl, upcoming_of_not_over hticking htime hquiet h hcurrent hstarted
        hothers hlength hpeek hgoes⟩

end Cycle

/-! ## The cycles of a run -/

/-- In a run of some cycles no thread that is running in `m` stops, no callback is called, and time
does not wrap. -/
structure Undisturbed (m : Machine κ μ) (k : UInt64) (cycles : List (Machine κ μ)) : Prop where
  running : ∀ p ∈ cycles, ∀ x, m.isRunning x = true → p.isRunning x = true
  quiet : ∀ p ∈ cycles, ∀ f x m₁, ¬ p.Enters f x m₁
  time : ∀ p ∈ cycles, p.InTime k

/-- The cycles of a run are those of a queue, again and again. -/
inductive Repeats : List (ThreadId × Bool) → List (Machine κ μ) → Prop
  | last (queue : List (ThreadId × Bool)) (p : Machine κ μ) : Repeats queue [p]
  | cycle {a : ThreadId × Bool} {rest : List (ThreadId × Bool)} {p q : Machine κ μ}
      {ps : List (Machine κ μ)} :
      Spends a p q → Repeats (rest ++ [a]) (q :: ps) → Repeats (a :: rest) (p :: q :: ps)

section Run

variable {ps : List (Machine κ μ)} {queue : List (ThreadId × Bool)}

theorem repeats_of_isChain {start : UInt64} (hk : 0 < k)
    (hchain : (p :: ps).IsChain (Cycled invoke start budget))
    (h : Undisturbed m k (p :: ps).dropLast) (hticking : Ticking m k p)
    (hupcoming : Upcoming m k p queue) : Repeats queue (p :: ps) := by
  induction ps generalizing p queue with
  | nil => exact .last queue p
  | cons q ps ih =>
    obtain ⟨hcycled, hrest⟩ := List.isChain_cons_cons.1 hchain
    rw [List.dropLast_cons_cons] at h
    obtain ⟨a, rest, rfl, hspends, hnext⟩ := hupcoming.cycled hticking
      (h.running p List.mem_cons_self) (h.time p List.mem_cons_self)
      (h.quiet p List.mem_cons_self) hcycled hk
    refine .cycle hspends (ih hrest ?_ (hticking.spends hspends).1 hnext)
    exact ⟨fun r hr => h.running r (List.mem_cons_of_mem p hr),
      fun r hr => h.quiet r (List.mem_cons_of_mem p hr),
      fun r hr => h.time r (List.mem_cons_of_mem p hr)⟩

/-- Where the queue stands after a cycle. -/
theorem getElem?_queue (a : ThreadId × Bool) (rest : List (ThreadId × Bool)) (i : Nat) :
    (rest ++ [a])[i % (rest ++ [a]).length]? = (a :: rest)[(i + 1) % (a :: rest).length]? := by
  have hrotate : rest ++ [a] = (a :: rest).rotate 1 := by
    rw [List.rotate_cons_succ, List.rotate_zero]
  have hlt : i % (a :: rest).length < (a :: rest).length := Nat.mod_lt _ (Nat.succ_pos _)
  rw [hrotate, List.length_rotate, List.getElem?_rotate hlt, Nat.mod_add_mod]

theorem Repeats.nextCycle? (h : Repeats queue ps) {i : Nat} (hp : ps.dropLast[i]? = some p) :
    p.nextCycle? = queue[i % queue.length]? := by
  induction h generalizing i with
  | last queue p => cases hp
  | @cycle a rest _ _ _ hspends _ ih =>
    rw [List.dropLast_cons_cons] at hp
    cases i with
    | zero =>
      cases hp
      rw [hspends.next, Nat.zero_mod]
      rfl
    | succ i => rw [ih hp, getElem?_queue]

theorem Repeats.drop (h : Repeats queue ps) {i : Nat} (hi : i < ps.length) :
    Repeats (queue.rotate i) (ps.drop i) := by
  induction h generalizing i with
  | last queue p =>
    obtain rfl : i = 0 := Nat.lt_one_iff.1 hi
    rw [List.rotate_zero]
    exact .last queue p
  | @cycle a rest p q ps hspends hrest ih =>
    cases i with
    | zero =>
      rw [List.rotate_zero]
      exact .cycle hspends hrest
    | succ i =>
      rw [List.rotate_cons_succ]
      exact ih (Nat.lt_of_succ_lt_succ hi)

theorem Repeats.turns (h : Repeats queue ps) (x : ThreadId) {i : Nat} (hp : ps.head? = some p)
    (hq : ps[i]? = some q) : q.turns? x = (p.turns? x).map
      (· + i.count fun j => queue[j % queue.length]? = some (x, true)) := by
  induction h generalizing p i with
  | last queue p' =>
    obtain rfl : i = 0 := Nat.lt_one_iff.1 (List.getElem?_eq_some_iff.1 hq).1
    cases hp
    cases hq
    exact Option.map_id'.symm
  | @cycle a rest p' q' ps hspends hrest ih =>
    cases hp
    cases i with
    | zero =>
      cases hq
      exact Option.map_id'.symm
    | succ i =>
      rw [ih rfl hq, hspends.turns, Option.map_map]
      congr 1
      funext n
      simp only [Function.comp_apply, getElem?_queue, Nat.count_succ', Nat.zero_mod,
        List.getElem?_cons_zero, Option.some.injEq]
      omega

end Run

/-! ## Counting turns -/

/-- Where an element stands that occurs once. -/
theorem getElem?_append_cons_iff {α : Type} {a : α} {before after : List α} (hbefore : a ∉ before)
    (hafter : a ∉ after) {i : Nat} :
    (before ++ a :: after)[i]? = some a ↔ i = before.length := by
  rw [List.getElem?_append]
  split
  · have hno : before[i]? ≠ some a := fun h => hbefore (List.mem_of_getElem? h)
    simp only [hno, false_iff]
    omega
  · rw [List.getElem?_cons]
    split
    · simp only [true_iff]
      omega
    · have hno : after[i - before.length - 1]? ≠ some a := fun h =>
        hafter (List.mem_of_getElem? h)
      simp only [hno, false_iff]
      omega

/-- Of `n` numbers in a row, one in `size` comes to a given place in a circle of that size. -/
theorem abs_count_sub_lt_one {size place : Nat} (hplace : place < size) (i n : Nat) :
    |((n.count fun j => (i + j) % size = place : Nat) : ℚ) - n / size| < 1 := by
  obtain ⟨step, hstep, rfl⟩ := exists_step i hplace
  have hsize : (0 : ℚ) < size := by exact_mod_cast Nat.zero_lt_of_lt hplace
  have hcongr (j : Nat) : (i + j) % size = (i + step) % size ↔ j ≡ step [MOD size] :=
    Nat.ModEq.add_iff_left (Nat.ModEq.refl i)
  have hceil : ((n.count (· ≡ step [MOD size]) : Nat) : ℚ) = ⌈((n : ℚ) - step) / size⌉ := by
    have hcount := n.count_modEq_card_eq_ceil (Nat.zero_lt_of_lt hplace) step
    rw [Nat.mod_eq_of_lt hstep] at hcount
    exact_mod_cast hcount
  have hle : (0 : ℚ) ≤ step / size := by positivity
  have hlt : (step : ℚ) / size < 1 := (div_lt_one hsize).2 (by exact_mod_cast hstep)
  simp only [hcongr, hceil, sub_div, abs_lt]
  constructor
  · linarith [Int.le_ceil ((n : ℚ) / size - step / size)]
  · linarith [Int.ceil_lt_add_one ((n : ℚ) / size - step / size)]

theorem mem_turn {y : ThreadId} : (x, true) ∈ m.turn k y ↔ x = y := by
  simp [turn, List.mem_replicate]

/-- A turn of each thread begins once in a round. -/
theorem exists_place (k : UInt64) (hx : m.isRunning x = true) :
    ∃ place < (m.round k).length, ∀ i, (m.round k)[i]? = some (x, true) ↔ i = place := by
  obtain ⟨before, after, hsplit⟩ :=
    List.append_of_mem (mem_inTurn.2 hx : x ∈ m.inTurn m.scheduler.current)
  have hnodup : (m.inTurn m.scheduler.current).Nodup := nodup_inTurn
  rw [hsplit, List.nodup_middle, List.nodup_cons, List.mem_append, not_or] at hnodup
  have hround : m.round k = before.flatMap (m.turn k) ++
      (x, true) :: (List.replicate (m.slice x / k.toNat) (x, false) ++
        after.flatMap (m.turn k)) := by
    rw [round, hsplit, List.flatMap_append, List.flatMap_cons]
    rfl
  have habsent {others : List ThreadId} (h : x ∉ others) :
      (x, true) ∉ others.flatMap (m.turn k) := by
    intro hmem
    obtain ⟨y, hy, hturn⟩ := List.mem_flatMap.1 hmem
    rw [mem_turn] at hturn
    exact h (hturn ▸ hy)
  refine ⟨(before.flatMap (m.turn k)).length, ?_, fun i => ?_⟩
  · rw [hround, List.length_append, List.length_cons]
    omega
  · rw [hround]
    refine getElem?_append_cons_iff (habsent hnodup.1.1) ?_
    simp only [List.mem_append, List.mem_replicate, Prod.mk.injEq, not_or]
    exact ⟨by simp, habsent hnodup.1.2⟩

theorem length_round (m : Machine κ μ) (k : UInt64) : (m.round k).length =
    ((m.inTurn m.scheduler.current).map fun y => m.slice y / k.toNat + 1).sum := by
  rw [round, List.length_flatMap]
  simp only [turn, List.length_cons, List.length_replicate]

/-- Between any two machines of a run, a thread has its share of the turns, up to less than one. -/
theorem Repeats.share {ps : List (Machine κ μ)} (h : Repeats (m.round k) ps)
    (hx : m.isRunning x = true) {i n : Nat} (hp : ps[i]? = some p) (hq : ps[i + n]? = some q) :
    ∃ given : Nat, q.turns? x = (p.turns? x).map (· + given) ∧
      |(given : ℚ) - n / (m.round k).length| < 1 := by
  obtain ⟨place, hplace, hround⟩ := exists_place k hx
  have hi : i < ps.length := (List.getElem?_eq_some_iff.1 hp).1
  have hturns := (h.drop hi).turns x (by rw [List.head?_drop, hp]) (by rw [List.getElem?_drop, hq])
  refine ⟨_, hturns, ?_⟩
  have hqueue (j : Nat) : ((m.round k).rotate i)[j % ((m.round k).rotate i).length]? =
      some (x, true) ↔ (i + j) % (m.round k).length = place := by
    have hlt : j % (m.round k).length < (m.round k).length :=
      Nat.mod_lt j (Nat.zero_lt_of_lt hplace)
    rw [List.length_rotate, List.getElem?_rotate hlt, hround, Nat.mod_add_mod, Nat.add_comm]
  simp only [hqueue]
  exact abs_count_sub_lt_one hplace i n

/-- **The exact schedule.** Take a run of a machine that shares the time among its threads, has no
turn in progress, and has a clock that adds `k` at each reading. If no thread stops on the way, no
callback is called, and time does not wrap, then the cycles of the run are those of one round, again
and again: beginning with the first running thread from the current slot on, the threads take their
turns in the order of their slots, and each turn of a thread with timeslice `t` lasts `t / k + 1`
cycles. So in any `n` cycles in a row a thread gets `n / c` turns, up to less than one, where `c` is
the number of cycles of a round. The list of cycles goes on until the run ends, its fuel is used up,
or the next cycle calls a callback. -/
theorem run_repeats_round (invoke : Invoke κ μ) (budget : Budget) (fuel : Nat) {time : UInt64}
    {ps : List (Machine κ μ)} (hmode : m.scheduler.mode = .roundRobin)
    (hstarted : m.scheduler.turnStarted = none) (hclock : m.clock = .manual time k) (hk : 0 < k)
    (hps : ps = m.now.2.betweenCycles invoke m.now.1 budget fuel)
    (h : Undisturbed m k ps.dropLast) :
    (∀ (i : Nat) (p : Machine κ μ), ps.dropLast[i]? = some p →
      p.nextCycle? = (m.round k)[i % (m.round k).length]?) ∧
    (∀ x, m.isRunning x = true → ∀ (i n : Nat) (p q : Machine κ μ), ps[i]? = some p →
      ps[i + n]? = some q → ∃ before given : Nat,
        p.turns? x = some before ∧ q.turns? x = some (before + given) ∧
        |(given : ℚ) - n /
          ((m.inTurn m.scheduler.current).map fun y => m.slice y / k.toNat + 1).sum| < 1) ∧
    ∃ p, ps.getLast? = some p ∧
      ((∃ ended, m.run invoke fuel budget = some (ended, p)) ∨
        m.run invoke fuel budget = none ∧
          (ps.length = fuel + 1 ∨ ∃ f x m₁, p.Enters f x m₁)) := by
  obtain ⟨rest, hrest⟩ := betweenCycles_eq_cons invoke m.now.1 budget fuel m.now.2
  have hends := betweenCycles_ends invoke m.now.1 budget fuel m.now.2
  rw [← hps] at hends
  have hread : m.now.2.clock = .manual (time + k) k := congrArg (fun c => c.read.2) hclock
  have hticking : Ticking m k m.now.2 :=
    ⟨⟨rfl, fun _ => rfl, fun _ hx => hx⟩, hmode, by rw [hread]; rfl⟩
  have hchain : (m.now.2 :: rest).IsChain (Cycled invoke m.now.1 budget) :=
    hrest ▸ isChain_betweenCycles fuel m.now.2
  rw [hrest] at hps
  have hrepeats : Repeats (m.round k) ps := by
    rw [hps] at h ⊢
    exact repeats_of_isChain hk hchain h hticking (.fresh hstarted)
  refine ⟨fun i p hp => hrepeats.nextCycle? hp, fun x hx i n p q hp hq => ?_, hends⟩
  obtain ⟨given, hgiven, hshare⟩ := hrepeats.share hx hp hq
  obtain ⟨t, ht, -⟩ := (Option.any_eq_true _ _).1 hx
  have hbefore := hrepeats.turns x (by rw [hps]; rfl) hp
  have hloaded : m.now.2.turns? x = some t.stats.turns := congrArg (Option.map _) ht
  rw [hloaded, Option.map_some] at hbefore
  rw [hbefore, Option.map_some] at hgiven
  rw [length_round] at hshare
  exact ⟨_, given, hbefore, hgiven, hshare⟩

theorem run_repeats_round_two_looping :
    let ps := twoLooping.now.2.betweenCycles (fun _ _ _ => none) twoLooping.now.1 (.millis 5) 9
    ps.length = 7 ∧ Undisturbed twoLooping 1 ps.dropLast ∧
      (∀ (i : Nat) (p : Machine Unit Unit), ps.dropLast[i]? = some p →
        p.nextCycle? = [(0, true), (0, false), (1, true)][i % 3]?) ∧
      ∀ q, ps[6]? = some q → ∃ given : Nat, q.turns? 1 = some given ∧
        |(given : ℚ) - 6 / 3| < 1 := by
  intro ps
  have hlength : ps.length = 7 := by decide +kernel
  have hround : twoLooping.round 1 = [(0, true), (0, false), (1, true)] := by decide +kernel
  have hsum : ((twoLooping.inTurn twoLooping.scheduler.current).map fun y =>
      twoLooping.slice y / (1 : UInt64).toNat + 1).sum = 3 := by
    decide +kernel
  have h : Undisturbed twoLooping 1 ps.dropLast := by
    refine ⟨fun p hp x hx => ?_, fun p hp => ?_, by decide +kernel⟩
    · have hboth : ∀ p ∈ ps.dropLast, p.isRunning 0 = true ∧ p.isRunning 1 = true := by
        decide +kernel
      match x, lt_size_of_isRunning hx with
      | 0, _ => exact (hboth p hp).1
      | 1, _ => exact (hboth p hp).2
    · have hfree : twoLooping.now.2.HostFree := hostFree_twoLooping
      exact hfree.not_enters_betweenCycles 9 p (List.mem_of_mem_dropLast hp)
  obtain ⟨hcycles, hshare, -⟩ := run_repeats_round (fun _ _ _ => none) (.millis 5) 9 rfl rfl rfl
    (by decide : (0 : UInt64) < 1) rfl h
  refine ⟨hlength, h, fun i p hp => ?_, fun q hq => ?_⟩
  · have hcycle := hcycles i p hp
    rwa [hround] at hcycle
  · obtain ⟨before, given, hbefore, hgiven, hclose⟩ := hshare 1 rfl 0 6 twoLooping.now.2 q rfl hq
    obtain rfl : before = 0 := (Option.some.inj hbefore).symm
    rw [Nat.zero_add] at hgiven
    rw [hsum] at hclose
    exact ⟨given, hgiven, by exact_mod_cast hclose⟩

end ScriptMachine.Machine
