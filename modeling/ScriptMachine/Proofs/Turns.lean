import ScriptMachine.Proofs.Completion
import ScriptMachine.Proofs.Interleaving
import ScriptMachine.Proofs.Succession

/-!
# Turns

Turns are given by the scheduler alone, at the beginning of a cycle. From one instant of a timeline
to the next, nobody gets a turn and the scheduler keeps its place, or one thread gets a turn, which
is the next one that is running; otherwise a thread is started, or no thread is running any more.
That is `Instant.Leads`; it follows from `Instant.Next`, so every timeline is a chain of it
(`HostProgram.chain_timeline`).
-/

namespace ScriptMachine

/-- An operation that gives no turns: it neither runs threads nor changes the scheduler. -/
def HostOp.Waits {κ : Type} : HostOp κ → Prop
  | start _ | run _ | call .. | shutdown => False
  | _ => True

/-- The thread that got a turn. -/
def Emission.turn? : Emission → Option ThreadId
  | .log (.turn id _) => some id
  | _ => none

namespace Machine

variable {κ μ : Type} {m m' m'' : Machine κ μ} {id j x : ThreadId} {t : Thread} {now : UInt64}
  {invoke : Invoke κ μ} {callbacks : Callbacks κ μ}

/-- The turns that were given, in order. -/
def granted (m : Machine κ μ) : List ThreadId := m.journal.toList.filterMap Emission.turn?

/-- How many turns a thread had, if it is loaded. -/
def turns? (m : Machine κ μ) (id : ThreadId) : Option Nat :=
  (m.thread? id).map (·.stats.turns)

/-! ## Between turns -/

/-- No turn was given, and there are as many slots. -/
structure Hushed (m m' : Machine κ μ) : Prop where
  granted : m'.granted = m.granted
  size : m'.threads.size = m.threads.size

namespace Hushed

theorem refl (m : Machine κ μ) : Hushed m m := ⟨rfl, rfl⟩

theorem trans (h : Hushed m m') (h' : Hushed m' m'') : Hushed m m'' :=
  ⟨h'.granted.trans h.granted, h'.size.trans h.size⟩

theorem same (hthreads : m'.threads = m.threads) (hjournal : m'.journal = m.journal) :
    Hushed m m' :=
  ⟨by rw [Machine.granted, hjournal, Machine.granted], by rw [hthreads]⟩

theorem emit {e : Emission} (he : e.turn? = none) : Hushed m (m.emit e) := by
  refine ⟨?_, rfl⟩
  simp [Machine.granted, Machine.emit, he]

theorem setThread (t : Option Thread) : Hushed m (m.setThread id t) :=
  ⟨rfl, Array.size_setIfInBounds⟩

theorem modify (f : Thread → Thread) : Hushed m (m.modifyThread id f) :=
  ⟨rfl, Array.size_modify⟩

theorem onThread (f : Thread → Except CallError Thread) : Hushed m (m.onThread id f).2 := by
  simp only [Machine.onThread]
  split
  · exact refl m
  · split
    · exact setThread _
    · exact refl m

theorem logged {event : Event} {r : Except CallError Unit × Machine κ μ}
    (hevent : (Emission.log event).turn? = none) (h : Hushed m r.2) :
    Hushed m (Machine.logged event r).2 := by
  simp only [Machine.logged]
  split
  · exact h.trans (emit hevent)
  · exact h

theorem fault (fault : Fault) : Hushed m (m.faultThread id fault) := by
  simp only [faultThread]
  split
  · exact refl m
  · exact (emit rfl).trans (modify _)

theorem beginCall (name : String) (sync : Bool) : Hushed m (m.beginCall id name sync).2 := by
  simp only [Machine.beginCall]
  split
  · exact refl m
  · split
    · exact refl m
    · split
      · exact setThread _
      · exact (setThread _).trans (fault _)

theorem hostReturn (params : Nat) (v : Option HostValue) :
    Hushed m (m.hostReturn id params v) := by
  simp only [Machine.hostReturn]
  split
  · exact refl m
  · split
    · exact setThread _
    · exact (setThread _).trans (fault _)

theorem pin : Hushed m (m.pin id) :=
  (modify _ : Hushed m (m.modifyThread id _)).trans (same rfl rfl)

theorem unpin (saved : Scheduler) (wasRunning : Bool) (outcome : RunOutcome) :
    Hushed m (m.unpin id saved wasRunning outcome).2 := by
  have hgiven : Hushed m { m with scheduler := saved } := same rfl rfl
  simp only [Machine.unpin]
  split
  · exact hgiven.trans (modify _)
  · exact hgiven

theorem ready (now : UInt64) : Hushed m (m.ready id now).2 := by
  obtain h | h := ready_snd m id now
  · rw [h]
    exact refl m
  · rw [h]
    exact modify _

theorem printTrace (i : Instruction) : Hushed m (m.printTrace id t i) := by
  simp only [Machine.printTrace]
  split
  · exact emit rfl
  · exact refl m

theorem executeOwn (i : Instruction) : Hushed m (m.executeOwn id i now).2 := by
  unfold Machine.executeOwn
  split
  · rename_i h
    cases (Prod.mk.inj h).2
    exact setThread none
  · rename_i u _ h
    cases (Prod.mk.inj h).2
    have hput (t' : Thread) : Hushed m ((m.setThread id none).setThread id (some t')) :=
      (setThread none).trans (setThread _)
    simp only
    split
    · rename_i e he
      refine (hput _).trans (emit ?_)
      unfold outcomeEvent? at he
      split at he <;> cases he <;> rfl
    · exact hput _

end Hushed

theorem Hushed.step {r : Except Fault Flow} (hown : m.callback? id = none)
    (h : m.step invoke id now = some (r, m')) : Hushed m m' := by
  cases ht : m.thread? id with
  | none =>
    simp only [Machine.step, ht] at h
    cases h
    exact refl _
  | some t =>
    cases hi : t.instruction? t.ip with
    | none =>
      simp only [Machine.step, ht, hi] at h
      cases h
      exact refl _
    | some i =>
      by_cases hop : i.op = .callHost
      · cases hcall : i.hostCallTarget 0 with
        | error fault =>
          simp only [Machine.step, ht, hi, dispatch, hop, hcall] at h
          cases h
          exact printTrace i
        | ok call =>
          rw [step_host invoke now ht hi hop hcall] at h
          cases hresolve : m.registry.resolve? (t.hostCallName call) id with
          | none =>
            rw [hresolve] at h
            cases h
            exact printTrace i
          | some f =>
            rw [callback?_eq_some.2 ⟨t, i, call, ht, hi, hop, hcall, hresolve, rfl⟩] at hown
            cases hown
      · have hexecuted : Hushed m ((m.printTrace id t i).executeOwn id i now).2 :=
          (printTrace i).trans (executeOwn i)
        simp only [Machine.step, ht, hi, dispatch_own hop] at h
        split at h
        · cases h
        · rename_i hr
          rw [Option.some.inj hr] at hexecuted
          cases h
          exact hexecuted
        · rename_i hr
          rw [Option.some.inj hr] at hexecuted
          cases h
          exact hexecuted.trans (modify _)

/-- An instruction that calls no callback concerns only its thread. -/
theorem Stays.of_step {r : Except Fault Flow} (hown : m.callback? id = none)
    (h : m.step invoke id now = some (r, m')) : Stays id m m' := by
  refine .advance (advances_of_step h) ?_
  intro t i call f m₁ ht hi hop hcall hresolve
  rw [callback?_eq_some.2 ⟨t, i, call, ht, hi, hop, hcall, hresolve, rfl⟩] at hown
  cases hown

/-- No thread got a turn, and the scheduler keeps its place. -/
structure Still (m m' : Machine κ μ) : Prop extends Hushed m m' where
  turns : ∀ j, m'.turns? j = m.turns? j
  current : m'.scheduler.current = m.scheduler.current
  started : m'.scheduler.turnStarted = m.scheduler.turnStarted

namespace Still

theorem refl (m : Machine κ μ) : Still m m := ⟨.refl m, fun _ => rfl, rfl, rfl⟩

theorem trans (h : Still m m') (h' : Still m' m'') : Still m m'' where
  toHushed := h.toHushed.trans h'.toHushed
  turns j := (h'.turns j).trans (h.turns j)
  current := h'.current.trans h.current
  started := h'.started.trans h.started

theorem of_confined (h : Confined id m m') (hhushed : Hushed m m')
    (hcurrent : m'.scheduler.current = m.scheduler.current)
    (hstarted : m'.scheduler.turnStarted = m.scheduler.turnStarted) : Still m m' := by
  refine ⟨hhushed, fun j => ?_, hcurrent, hstarted⟩
  by_cases hj : j = id
  · subst hj
    exact h.turns
  · rw [turns?, turns?, h.other hj]

theorem of_stays (h : Stays id m m') (hhushed : Hushed m m') : Still m m' :=
  of_confined h.toConfined hhushed (by rw [h.scheduler]) (by rw [h.scheduler])

theorem same (hthreads : m'.threads = m.threads) (hjournal : m'.journal = m.journal)
    (hscheduler : m'.scheduler = m.scheduler) : Still m m' := by
  refine ⟨.same hthreads hjournal, fun j => ?_, by rw [hscheduler], by rw [hscheduler]⟩
  rw [turns?, turns?, thread?, thread?, hthreads]

theorem emit {e : Emission} (he : e.turn? = none) : Still m (m.emit e) :=
  ⟨.emit he, fun _ => rfl, rfl, rfl⟩

theorem ready (id : ThreadId) (now : UInt64) : Still m (m.ready id now).2 := by
  refine of_confined (?_ : Confined id m _) (.ready now) (by rw [scheduler_ready])
    (by rw [scheduler_ready])
  obtain h | h := ready_snd m id now
  · rw [h]
    exact (Stays.refl m).toConfined
  · rw [h]
    exact .modify (fun _ => rfl) fun _ => rfl

theorem pin : Still m (m.pin id) := of_confined .pin .pin rfl rfl

theorem step {r : Except Fault Flow} (hown : m.callback? id = none)
    (h : m.step invoke id now = some (r, m')) : Still m m' :=
  of_stays (.of_step hown h) (.step hown h)

end Still

/-! ## One turn -/

theorem lt_size_of_isRunning (h : m.isRunning j = true) : j < m.threads.size := by
  cases ht : m.thread? j with
  | none =>
    rw [isRunning, ht] at h
    cases h
  | some t => exact lt_size_of_thread? ht

/-- From every slot on, every slot is reached. -/
theorem exists_step {j n : Nat} (first : Nat) (hj : j < n) :
    ∃ step < n, (first + step) % n = j := by
  have hn : 0 < n := Nat.zero_lt_of_lt hj
  refine ⟨(j + (n - first % n)) % n, Nat.mod_lt _ hn, ?_⟩
  have hrest : first % n < n := Nat.mod_lt _ hn
  have hdiv := Nat.div_add_mod first n
  have haround : first + (j + (n - first % n)) = j + n * (first / n + 1) := by
    rw [Nat.mul_add]
    omega
  rw [Nat.add_mod_mod, haround, Nat.add_mul_mod_self_left, Nat.mod_eq_of_lt hj]

/-- Some thread is next, if any thread is running. -/
theorem exists_nextRunning? (first : ThreadId) (hj : m.isRunning j = true) :
    ∃ id, m.nextRunning? first = some id := by
  obtain ⟨step, hstep, hreached⟩ := exists_step first (lt_size_of_isRunning hj)
  refine Option.isSome_iff_exists.1 (List.find?_isSome.2 ⟨j, ?_, hj⟩)
  exact List.mem_map.2 ⟨step, List.mem_range.2 hstep, hreached⟩

/-- A thread got a turn, which is over only when the next one begins. -/
structure Gives (id : ThreadId) (m m' : Machine κ μ) : Prop where
  /-- After a turn that has begun, it is the first running thread behind the one of that turn. -/
  next : m.scheduler.turnStarted ≠ none →
    m.nextRunning? (m.scheduler.current + 1) = some id
  granted : m'.granted = m.granted ++ [id]
  size : m'.threads.size = m.threads.size
  turns : ∀ j, m'.turns? j = (m.turns? j).map (· + if j = id then 1 else 0)
  current : m'.scheduler.current = id
  started : m'.scheduler.turnStarted ≠ none

theorem gives_beginTurn {first runnable : ThreadId} (hnext : m.nextRunning? first = some id)
    (hfirst : m.scheduler.turnStarted ≠ none → first = m.scheduler.current + 1) (now : UInt64) :
    Gives id m (m.beginTurn first runnable now) := by
  have hid : (m.nextRunning? first).getD runnable = id := by rw [hnext, Option.getD_some]
  unfold beginTurn
  rw [hid]
  exact {
    next := fun hstarted => hfirst hstarted ▸ hnext
    granted := by simp [granted, log, emit, modifyThread, Emission.turn?]
    size := Array.size_modify
    turns := fun j => by
      rw [turns?, thread?_log, thread?_modifyThread, turns?]
      split
      · rename_i hj
        rw [if_pos hj.symm, Option.map_map, Option.map_map]
        rfl
      · rename_i hj
        rw [if_neg (Ne.symm hj), Option.map_map]
        rfl
    current := rfl
    started := Option.some_ne_none now }

theorem still_or_gives_schedule {runnable : ThreadId} (h : m.runnable? = some runnable)
    (now : UInt64) :
    Still m (m.schedule runnable now).2 ∨ ∃ id, Gives id m (m.schedule runnable now).2 := by
  have hnext (first : ThreadId) := exists_nextRunning? first (isRunning_of_runnable? h)
  simp only [schedule]
  split
  · simp only [rotate]
    split
    · rename_i hstarted
      obtain ⟨id, hid⟩ := hnext m.scheduler.current
      exact .inr ⟨id, gives_beginTurn hid (fun h => absurd hstarted h) now⟩
    · split
      · obtain ⟨id, hid⟩ := hnext (m.scheduler.current + 1)
        exact .inr ⟨id, gives_beginTurn hid (fun _ => rfl) now⟩
      · exact .inl (.refl m)
  · exact .inl (.refl m)

/-! ## Loading and unloading -/

/-- No thread got a turn. Threads may be loaded and unloaded. -/
structure Quiet (m m' : Machine κ μ) : Prop where
  granted : m'.granted = m.granted
  size : m.threads.size ≤ m'.threads.size
  turns : ∀ {j t t'}, m.thread? j = some t → m'.thread? j = some t' →
    t'.stats.turns = t.stats.turns
  current : m'.scheduler.current = m.scheduler.current
  started : m'.scheduler.turnStarted = m.scheduler.turnStarted

theorem Still.quiet (h : Still m m') : Quiet m m' where
  granted := h.granted
  size := Nat.le_of_eq h.size.symm
  turns {j t t'} ht ht' := by
    have hturns := h.turns j
    rw [turns?, turns?, ht, ht'] at hturns
    exact Option.some.inj hturns
  current := h.current
  started := h.started

theorem Quiet.turns?_eq (h : Quiet m m') (hj : m.isRunning j = true)
    (hj' : m'.isRunning j = true) : m'.turns? j = m.turns? j := by
  obtain ⟨t, ht, -⟩ := (Option.any_eq_true _ _).1 hj
  obtain ⟨t', ht', -⟩ := (Option.any_eq_true _ _).1 hj'
  rw [turns?, turns?, ht, ht', Option.map_some, Option.map_some, h.turns ht ht']

theorem quiet_place {slot : ThreadId} (hslot : m.freeSlot = .ok slot) (u : Thread) :
    Quiet m (m.place slot u) := by
  have hlogged (e : Event) (he : (Emission.log e).turn? = none) : Hushed m (m.log e) := .emit he
  refine ⟨?_, ?_, fun {j t t'} ht ht' => ?_, by rw [scheduler_place], by rw [scheduler_place]⟩
  · unfold place
    dsimp only
    split <;> exact (hlogged _ rfl).granted
  · unfold place
    dsimp only
    split
    · exact Nat.le_of_eq Array.size_setIfInBounds.symm
    · exact (Array.size_push ..).ge.trans' (Nat.le_succ _)
  · have hj : slot ≠ j := by
      rintro rfl
      rw [thread?_of_freeSlot hslot] at ht
      cases ht
    rw [thread?_place hj ht] at ht'
    cases ht'
    rfl

theorem quiet_of_loaded {programs : Image → Prop} (h : Loaded programs m m') : Quiet m m' := by
  cases h with
  | failed => exact (Still.refl m).quiet
  | placed hslot _ _ => exact quiet_place hslot _

theorem quiet_unload : Quiet m (m.unload x) := by
  simp only [unload]
  split
  · exact (Still.refl m).quiet
  · have hset : Hushed m (m.setThread x none) := .setThread none
    refine ⟨(hset.trans (.trans (.same rfl rfl) (.emit rfl))).granted, Nat.le_of_eq hset.size.symm,
      fun {j t t'} ht ht' => ?_, rfl, rfl⟩
    have hunloaded : (m.setThread x none).thread? j = some t' := ht'
    rw [thread?_setThread] at hunloaded
    split at hunloaded
    · cases hunloaded
    · rw [ht] at hunloaded
      cases hunloaded
      rfl

theorem halted_shutdown (j : ThreadId) : m.shutdown.isRunning j = false := rfl

/-- Operations that neither run threads nor change the scheduler give nobody a turn. -/
theorem quiet_of_perform {fuel : Nat} {op : HostOp κ} {answer : op.Answer} (hop : op.Waits)
    (h : m.perform callbacks fuel op = some (answer, m')) : Quiet m m' := by
  cases fuel with
  | zero => cases h
  | succ fuel =>
    have still {r : Machine κ μ} (hthreads : r.threads = m.threads)
        (hjournal : r.journal = m.journal) (hscheduler : r.scheduler = m.scheduler) : Quiet m r :=
      (Still.same hthreads hjournal hscheduler).quiet
    have one {x : ThreadId} {r : Machine κ μ} (hstays : Stays x m r) (hhushed : Hushed m r) :
        Quiet m r := (Still.of_stays hstays hhushed).quiet
    cases op with
    | load image priority => exact of_answer h (quiet_of_loaded (loaded_load m image priority))
    | loadFile contents priority =>
      exact of_answer h (quiet_of_loaded (loaded_loadFile m contents priority))
    | unload x => exact of_answer h quiet_unload
    | reset x => exact of_answer h (one .reset (.logged rfl (.onThread _)))
    | stop x => exact of_answer h (one .stop (.logged rfl (.onThread _)))
    | pause x ms =>
      have hread : Hushed m m.now.2 := .same rfl rfl
      exact of_answer h (one (.pause ms) (hread.trans (.onThread _)))
    | unpause x => exact of_answer h (one .unpause (.onThread _))
    | invoke x name => exact of_answer h (one (.beginCall name false) (.beginCall name false))
    | pass x v => exact of_answer h (one (.pass v) (.onThread _))
    | hostReturn x params v =>
      exact of_answer h (one (.hostReturn params v) (.hostReturn params v))
    | print text => exact of_answer h (Still.emit rfl).quiet
    | start | run | call | shutdown => exact hop.elim
    | _ => exact of_answer h (still rfl rfl rfl)

end Machine

/-! ## From instant to instant -/

open Machine

variable {κ μ : Type} {m m' : Machine κ μ} {id : ThreadId} {start : UInt64}
  {callbacks : Callbacks κ μ} {fuel : Nat}

/-- What can happen between two instants of a timeline. -/
inductive Instant.Leads (p q : Instant κ μ) : Prop
  | quiet : Quiet p.machine q.machine → Leads p q
  | turn {id : ThreadId} : Gives id p.machine q.machine → Leads p q
  | started {id : ThreadId} : p.begins = some (.start id) → Leads p q
  | halted : (∀ j, q.machine.isRunning j = false) → Leads p q

open Instant

theorem Machine.Still.leads (h : Still m m') (op : Option (HostOp κ)) (op' : Option (HostOp κ)) :
    Leads { machine := m, begins := op } { machine := m', begins := op' } :=
  .quiet h.quiet

/-- Giving the turn of a cycle. -/
theorem leads_schedule {runnable : ThreadId} (h : m.runnable? = some runnable) :
    Leads { machine := m } { machine := (m.now.2.schedule runnable m.now.1).2 } := by
  have hread : Still m m.now.2 := .same rfl rfl rfl
  obtain hstill | ⟨id, hgives⟩ := still_or_gives_schedule (m := m.now.2) h m.now.1
  · exact (hread.trans hstill).leads none none
  · exact .turn ⟨hgives.next, hgives.granted, hgives.size, hgives.turns, hgives.current,
      hgives.started⟩

/-- The end of a synchronous call: the scheduler goes on where it was, unless it has been made to
schedule afresh, and then no thread was left running. -/
theorem leads_unpin {n : Nat} {outcome : RunOutcome} {saved : Scheduler}
    (hcurrent : m.scheduler.current = saved.current)
    (hstarted : m.scheduler.turnStarted = saved.turnStarted)
    (h : m.cycles (invoke callbacks fuel) start .unlimited n = some (outcome, m'))
    (wasRunning : Bool) :
    Leads { machine := m' } { machine := (m'.unpin id saved wasRunning outcome).2 } := by
  obtain ⟨q, hq, hlast⟩ := runs_of_cycles h
  have hlasts : Restores q m' := .cycle (fun _ _ _ _ =>
    .of_invoke callbacks fun _ _ _ _ => .perform callbacks) hlast
  obtain hsame | hfresh := hq.restores.trans hlasts
  · obtain ⟨hconfined, hscheduler⟩ := Confined.unpin id m' saved wasRunning outcome
    have hstill : Still m' (m'.unpin id saved wasRunning outcome).2 :=
      .of_confined hconfined (.unpin ..) (by rw [hscheduler, hsame, hcurrent])
        (by rw [hscheduler, hsame, hstarted])
    exact hstill.leads none none
  · obtain ⟨hnone, rfl, houtcome⟩ | ⟨_, x, _, flow, -, -, -, houtcome⟩ := cycle_cases hlast
    · rw [if_pos hfresh] at houtcome
      cases houtcome
      exact .halted fun j => isRunning_of_runnable?_eq_none hfresh hnone j
    · have hdone : m'.syncDone x flow = false := by
        refine Bool.eq_false_iff.2 fun hdone => ?_
        have hpinned := (syncDone_iff.1 hdone).2
        rw [hfresh] at hpinned
        cases hpinned
      rw [hdone] at houtcome
      cases houtcome

/-- An instant leads to the next one. -/
theorem Instant.Next.leads {p q : Instant κ μ} (h : Next callbacks p q) : Leads p q := by
  have set {m : Machine κ μ} (id : ThreadId) (name : String) :
      Still m (m.beginCall id name true).2 :=
    .of_stays (.beginCall name true) (.beginCall name true)
  cases h with
  | idle => exact (Still.refl _).leads none none
  | begins op => exact (Still.refl _).leads none (some op)
  | @remember m f =>
    have hsame : Still m { m with memory := f m.memory } := .same rfl rfl rfl
    exact hsame.leads none none
  | @performed op _ fuel m m' hop hperform =>
    have waits (hop : op.Waits) : Leads { machine := m, begins := some op } { machine := m' } :=
      .quiet (quiet_of_perform hop hperform)
    cases op with
    | start x => exact .started rfl
    | shutdown =>
      cases fuel with
      | zero => cases hperform
      | succ fuel =>
        cases hperform
        exact .halted halted_shutdown
    | run | call => exact hop.elim
    | _ => exact waits trivial
  | @run budget m =>
    have hread : Still m m.now.2 := .same rfl rfl rfl
    exact hread.leads _ none
  | @refused id name e m m' hbegin =>
    have hset := set (m := m) id name
    rw [hbegin] at hset
    exact hset.leads _ none
  | @called id name m m₁ hbegin =>
    have hset := set (m := m) id name
    rw [hbegin] at hset
    have hpinned : Still m (m₁.pin id).now.2 := (hset.trans .pin).trans (.same rfl rfl rfl)
    exact hpinned.leads _ none
  | @returned id m₁ ended fuel outcome wasRunning hrun =>
    have hcurrent : (m₁.pin id).now.2.scheduler.current = m₁.scheduler.current := rfl
    exact leads_unpin hcurrent rfl hrun wasRunning
  | turn hrunnable => exact leads_schedule hrunnable
  | wakes id now => exact (Still.ready id now).leads none none
  | executed hown hstep => exact (Still.step hown hstep).leads none none
  | @faulted id now fault fuel m m' hown hstep =>
    have hfault : Still m' (m'.faultThread id fault) := .of_stays (.fault fault) (.fault fault)
    exact ((Still.step hown hstep).trans hfault).leads none none
  | @entered id callback m m' hcallback =>
    obtain ⟨t, i, call, ht, -, -, -, -, rfl⟩ := callback?_eq_some.1 hcallback
    have hhushed : Hushed m (m.entering id t i) := (Hushed.printTrace i).trans (.modify _)
    have hentered : Still m (m.entering id t i) :=
      .of_stays (.alter ht (entering_alters ht i) rfl rfl) hhushed
    exact hentered.leads none none
  | @left m id ip =>
    have hsettled : Still m (m.modifyThread id (·.settle ip .stay)) :=
      .of_stays (.modify (fun _ => rfl) fun _ => rfl) (.modify _)
    exact hsettled.leads none none

/-- **A timeline leads from instant to instant.** -/
theorem HostProgram.chain_timeline {α : Type} (callbacks : Callbacks κ μ) (fuel : Nat)
    (p : HostProgram κ μ α) (m : Machine κ μ) :
    (p.timeline callbacks fuel m).IsChain Leads :=
  (next_timeline callbacks fuel p m).imp fun _ _ => Next.leads

end ScriptMachine
