import ScriptMachine.Proofs.Moments
import ScriptMachine.Proofs.NestedCalls

/-!
# Isolation of synchronous calls

A synchronous call runs the general loop of the scheduler, pinned to one thread. Whatever comes of
it, the scheduler is afterwards as it was before. If the callbacks that are called meanwhile
concern only the thread that calls them (`Machine.Private`), no other thread is touched at any
moment of the call, and the pinned thread gets no turn.

That is `Machine.Stays`: the machine may have changed one thread, and neither its scheduler nor
which host functions there are. Every cycle with the thread pinned keeps to it (`Stays.cycle`), so
every run does, and with it every operation that such a callback can carry out.
-/

namespace ScriptMachine

/-- An operation that concerns one thread at most. Operations that change which threads are loaded
or which functions the host has are not among them. A run is: while a thread is pinned, nothing
else runs. -/
def HostOp.Only {κ : Type} (id : ThreadId) : HostOp κ → Prop
  | reset x | start x | stop x | pause x _ | unpause x | call x _ | invoke x _ | pass x _
  | hostReturn x _ _ => x = id
  | run _ | setTrace _ | readClock | advanceClock _ | setClock _ | print _ => True
  | load .. | loadFile .. | unload _ | register .. | setRegistry _ | shutdown => False

/-- A program whose operations concern one thread at most. -/
def HostProgram.Only {κ μ α : Type} (id : ThreadId) : HostProgram κ μ α → Prop
  | pure _ => True
  | perform op next => op.Only id ∧ ∀ answer, (next answer).Only id
  | inspect next => ∀ m, (next m).Only id
  | remember _ next => next.Only id

/-- An activity that concerns one thread at most. That of the cycles is the pinned one. -/
def Activity.Only {κ μ : Type} (id : ThreadId) : Activity κ μ → Prop
  | operation op => op.Only id
  | program x _ => x = id
  | cycles .. => True

namespace Machine

variable {κ μ : Type} {m m' m'' : Machine κ μ} {id x : ThreadId} {t t' : Thread} {now : UInt64}
  {invoke : Invoke κ μ} {callbacks : Callbacks κ μ}

/-- The machine changed one thread at most, which kept its program and got no turn. -/
structure Confined (id : ThreadId) (m m' : Machine κ μ) : Prop where
  other : ∀ {j : ThreadId}, j ≠ id → m'.thread? j = m.thread? j
  program : (m'.thread? id).map (·.program) = (m.thread? id).map (·.program)
  turns : (m'.thread? id).map (·.stats.turns) = (m.thread? id).map (·.stats.turns)
  registry : m'.registry = m.registry

/-- The machine changed one thread at most, and the scheduler rests. -/
structure Stays (id : ThreadId) (m m' : Machine κ μ) : Prop extends Confined id m m' where
  scheduler : m'.scheduler = m.scheduler

/-- The same threads are loaded. -/
theorem Confined.loaded (h : Confined id m m') (j : ThreadId) :
    (m'.thread? j).isSome = (m.thread? j).isSome := by
  by_cases hj : j = id
  · have hturns := congrArg Option.isSome h.turns
    rwa [Option.isSome_map, Option.isSome_map, ← hj] at hturns
  · rw [h.other hj]

theorem Confined.trans (h : Confined id m m') (h' : Confined id m' m'') :
    Confined id m m'' where
  other hj := (h'.other hj).trans (h.other hj)
  program := h'.program.trans h.program
  turns := h'.turns.trans h.turns
  registry := h'.registry.trans h.registry

theorem Confined.modify {f : Thread → Thread} (hprogram : ∀ t, (f t).program = t.program)
    (hturns : ∀ t, (f t).stats.turns = t.stats.turns) :
    Confined id m (m.modifyThread id f) where
  other hj := by rw [thread?_modifyThread, if_neg (Ne.symm hj)]
  program := by
    rw [thread?_modifyThread, if_pos rfl, Option.map_map]
    exact congrArg (Option.map · _) (funext hprogram)
  turns := by
    rw [thread?_modifyThread, if_pos rfl, Option.map_map]
    exact congrArg (Option.map · _) (funext hturns)
  registry := rfl

/-- At the beginning of a synchronous call. -/
theorem Confined.pin : Confined id m (m.pin id) := by
  have hmodify : Confined id m (m.modifyThread id fun t => { t with running := true }) :=
    .modify (fun _ => rfl) fun _ => rfl
  exact ⟨hmodify.other, hmodify.program, hmodify.turns, rfl⟩

/-- At the end of a synchronous call, which gives back the scheduler as it was. -/
theorem Confined.unpin (id : ThreadId) (m : Machine κ μ) (saved : Scheduler)
    (wasRunning : Bool) (outcome : RunOutcome) :
    Confined id m (m.unpin id saved wasRunning outcome).2 ∧
      (m.unpin id saved wasRunning outcome).2.scheduler = saved := by
  unfold Machine.unpin
  simp only
  split
  · have hmodify : Confined id m (m.modifyThread id fun t => { t with running := wasRunning }) :=
      .modify (fun _ => rfl) fun _ => rfl
    exact ⟨⟨hmodify.other, hmodify.program, hmodify.turns, rfl⟩, rfl⟩
  · exact ⟨⟨fun _ => rfl, rfl, rfl, rfl⟩, rfl⟩

namespace Stays

/-! ## Changes of one thread -/

theorem refl (m : Machine κ μ) : Stays id m m := ⟨⟨fun _ => rfl, rfl, rfl, rfl⟩, rfl⟩

theorem trans (h : Stays id m m') (h' : Stays id m' m'') : Stays id m m'' :=
  ⟨h.toConfined.trans h'.toConfined, h'.scheduler.trans h.scheduler⟩

theorem mode (h : Stays id m m') (hmode : m.scheduler.mode = .pinned x) :
    m'.scheduler.mode = .pinned x := by rw [h.scheduler, hmode]

/-- Neither the clock nor the journal nor what the host remembers concerns a thread. -/
theorem same (hthreads : m'.threads = m.threads) (hregistry : m'.registry = m.registry)
    (hscheduler : m'.scheduler = m.scheduler) : Stays id m m' := by
  have hthread (j : ThreadId) : m'.thread? j = m.thread? j := by rw [thread?, thread?, hthreads]
  exact ⟨⟨fun {j} _ => hthread j, by rw [hthread], by rw [hthread], hregistry⟩, hscheduler⟩

theorem alter (ht : m.thread? id = some t) (h : Alters id t' m m')
    (hprogram : t'.program = t.program) (hturns : t'.stats.turns = t.stats.turns) :
    Stays id m m' where
  other := h.other
  program := by rw [h.thread, ht, Option.map_some, Option.map_some, hprogram]
  turns := by rw [h.thread, ht, Option.map_some, Option.map_some, hturns]
  registry := h.registry
  scheduler := h.scheduler

theorem modify {f : Thread → Thread} (hprogram : ∀ t, (f t).program = t.program)
    (hturns : ∀ t, (f t).stats.turns = t.stats.turns) :
    Stays id m (m.modifyThread id f) := ⟨.modify hprogram hturns, rfl⟩

theorem onThread {f : Thread → Except CallError Thread}
    (hf : ∀ t t', f t = .ok t' → t'.program = t.program ∧ t'.stats = t.stats) :
    Stays id m (m.onThread id f).2 := by
  simp only [Machine.onThread]
  split
  · exact refl m
  · rename_i t ht
    split
    · rename_i t' ht'
      obtain ⟨hprogram, hstats⟩ := hf t t' ht'
      exact alter ht (.setThread (lt_size_of_thread? ht) t') hprogram (by rw [hstats])
    · exact refl m

theorem logged {event : Event} {r : Except CallError Unit × Machine κ μ} (h : Stays id m r.2) :
    Stays id m (Machine.logged event r).2 := by
  simp only [Machine.logged]
  split
  · exact h.trans (same rfl rfl rfl)
  · exact h

theorem fault (fault : Fault) : Stays id m (m.faultThread id fault) := by
  cases ht : m.thread? id with
  | none =>
    simp only [faultThread, ht]
    exact refl m
  | some t => exact alter ht (.faultThread ht fault) rfl rfl

end Stays

/-- To start a thread gives it the next turn, unless a thread is pinned. -/
theorem Confined.start : Confined id m (m.start id).2 ∧
    (m.scheduler.mode ≠ .roundRobin → (m.start id).2.scheduler = m.scheduler) := by
  have hon : Stays id m (m.onThread id fun t => .ok { t with running := true }).2 :=
    .onThread fun t t' h => by
      cases h
      exact ⟨rfl, rfl⟩
  simp only [Machine.start]
  split
  · rename_i hr
    rw [hr] at hon
    exact ⟨hon.toConfined, fun _ => hon.scheduler⟩
  · rename_i hr
    rw [hr] at hon
    split
    · rename_i hmode
      rw [hon.scheduler] at hmode
      exact ⟨⟨hon.other, hon.program, hon.turns, hon.registry⟩, fun h => absurd hmode h⟩
    · exact ⟨⟨hon.other, hon.program, hon.turns, hon.registry⟩, fun _ => hon.scheduler⟩

namespace Stays

/-! ## Operations on the thread -/

theorem reset : Stays id m (m.reset id).2 := by
  refine (onThread fun t t' h => ?_).logged
  cases hreset : t.reset with
  | error fault =>
    rw [hreset] at h
    cases h
  | ok t₁ =>
    rw [hreset] at h
    cases h
    obtain ⟨s, -, hreset⟩ := bind_eq_ok.1 hreset
    cases hreset
    exact ⟨rfl, rfl⟩

/-- While a thread is pinned, to start one does not give it a turn. -/
theorem start (hmode : m.scheduler.mode = .pinned x) : Stays id m (m.start id).2 :=
  ⟨Confined.start.1, Confined.start.2 (by rw [hmode]; rintro ⟨⟩)⟩

theorem stop : Stays id m (m.stop id).2 :=
  (onThread fun t t' h => by
    cases h
    exact ⟨rfl, rfl⟩).logged

theorem pause (ms : UInt64) : Stays id m (m.pause id ms).2 := by
  have hread : Stays id m m.now.2 := same rfl rfl rfl
  exact hread.trans (onThread fun t t' h => by
    cases h
    exact ⟨rfl, rfl⟩)

theorem unpause : Stays id m (m.unpause id).2 :=
  onThread fun t t' h => by
    cases h
    exact ⟨rfl, rfl⟩

theorem pass (v : HostValue) : Stays id m (m.pass id v).2 := by
  refine onThread fun t t' h => ?_
  split at h
  · cases h
    exact ⟨rfl, rfl⟩
  · cases h

theorem hostReturn (params : Nat) (v : Option HostValue) :
    Stays id m (m.hostReturn id params v) := by
  unfold Machine.hostReturn
  split
  · exact refl m
  · rename_i t ht
    have hset (t' : Thread) := Alters.setThread (lt_size_of_thread? ht) t'
    simp only
    split
    · exact alter ht (hset _) rfl rfl
    · exact alter ht ((hset _).trans (Alters.faultThread (hset _).thread _)) rfl rfl

/-- Setting up a call, whether it fits or not. -/
theorem beginCall (name : String) (sync : Bool) : Stays id m (m.beginCall id name sync).2 := by
  simp only [Machine.beginCall]
  split
  · exact refl m
  · rename_i t ht
    have hset (t' : Thread) := Alters.setThread (lt_size_of_thread? ht) t'
    split
    · exact refl m
    · rename_i f _
      split
      · rename_i hcall
        obtain ⟨callee, -, -, -, rfl⟩ := Thread.call_eq_ok.1 hcall
        exact alter ht (hset _) rfl rfl
      · rename_i t' hcall
        have hkept : t'.program = t.program ∧ t'.stats = t.stats := by
          rcases Thread.call_eq_error hcall with ⟨-, -, rfl⟩ | ⟨-, rfl | ⟨s, -, rfl⟩⟩ <;>
            exact ⟨rfl, rfl⟩
        exact alter ht ((hset _).trans (Alters.faultThread (hset _).thread _)) hkept.1
          (congrArg Stats.turns hkept.2)

theorem of_beginCall {name : String} {sync : Bool} {answer : Except CallError Unit}
    (h : m.beginCall id name sync = (answer, m')) : Stays id m m' := by
  have hbegun : Stays id m (m.beginCall id name sync).2 := .beginCall name sync
  rwa [h] at hbegun

/-- Pinning a thread again changes nothing but that it runs. -/
theorem pin (hmode : m.scheduler.mode = .pinned id) : Stays id m (m.pin id) := by
  refine ⟨.pin, ?_⟩
  show { m.scheduler with mode := Mode.pinned id } = m.scheduler
  rw [← hmode]

/-! ## Cycles of a pinned thread -/

theorem advance {r : Except Fault Flow} (h : Advances invoke id now m r m')
    (hinvoke : ∀ t i call callback m₁, m.thread? id = some t →
      t.instruction? t.ip = some i → i.op = .callHost → i.hostCallTarget 0 = .ok call →
      m.registry.resolve? (t.hostCallName call) id = some callback →
      invoke callback id (m.entering id t i) = some m₁ → Stays id (m.entering id t i) m₁) :
    Stays id m m' := by
  cases h with
  | unloaded _ => exact refl m
  | off _ _ => exact refl m
  | own ht _ _ hexec halters =>
    exact alter ht halters (Thread.program_execute hexec :)
      (congrArg Stats.turns (Thread.stats_execute hexec) :)
  | fault ht _ _ hexec halters =>
    exact alter ht halters (Thread.program_execute_error hexec)
      (congrArg Stats.turns (Thread.stats_execute_error hexec))
  | unnamed ht _ _ _ halters => exact alter ht halters rfl rfl
  | unresolved ht _ _ _ _ halters => exact alter ht halters rfl rfl
  | @host t i call callback m₁ ht hi hop hcall hresolve hcallback =>
    have hentered : Stays id m (m.entering id t i) := alter ht (entering_alters ht i) rfl rfl
    exact (hentered.trans (hinvoke t i call callback m₁ ht hi hop hcall hresolve hcallback)).trans
      (modify (fun _ => rfl) fun _ => rfl)

end Stays

/-- Only the pinned thread calls callbacks. -/
theorem Enters.of_pinned {callback : κ} (hmode : m.scheduler.mode = .pinned id)
    (h : m.Enters callback x m') : x = id ∧ Stays id m m' := by
  have hnow : m.now.2.scheduler.mode = .pinned id := hmode
  obtain ⟨-, hx, hready, ht, -, -, -, -, rfl⟩ := h
  rw [schedule_of_pinned hnow] at hx hready
  subst hx
  rw [ready_of_pinned hnow] at hready
  cases (Prod.mk.inj hready).2
  have hread : Stays id m m.now.2 := .same rfl rfl rfl
  exact ⟨rfl, hread.trans (.alter ht (entering_alters ht _) rfl rfl)⟩

/-- An instruction of a pinned thread, or its fault. -/
theorem Stays.attempt {flow : Option Flow} (hmode : m.scheduler.mode = .pinned id)
    (hinvoke : ∀ t i call callback m₁, m.thread? id = some t →
      t.instruction? t.ip = some i → i.op = .callHost → i.hostCallTarget 0 = .ok call →
      m.registry.resolve? (t.hostCallName call) id = some callback →
      invoke callback id (m.entering id t i) = some m₁ → Stays id (m.entering id t i) m₁)
    (h : m.attempt invoke id now = some (flow, m')) : Stays id m m' := by
  have hready := ready_of_pinned hmode id now
  obtain ⟨-, hr⟩ | ⟨m₁, hr, hstep⟩ := attempt_cases h
  · rw [hready] at hr
    cases (Prod.mk.inj hr).2
    exact refl m
  · rw [hready] at hr
    cases (Prod.mk.inj hr).2
    obtain ⟨f, -, hstep⟩ | ⟨fault, m₂, -, hstep, rfl⟩ := hstep
    · exact advance (advances_of_step hstep) hinvoke
    · exact (advance (advances_of_step hstep) hinvoke).trans (.fault _)

/-- A cycle with a pinned thread. -/
theorem Stays.cycle {start : UInt64} {budget : Budget} {outcome : Option RunOutcome}
    (hmode : m.scheduler.mode = .pinned id)
    (hinvoke : ∀ callback m₁ m₂, m.Enters callback id m₁ → invoke callback id m₁ = some m₂ →
      Stays id m₁ m₂)
    (h : m.cycle invoke start budget = some (outcome, m')) : Stays id m m' := by
  have hread : Stays id m m.now.2 := same rfl rfl rfl
  have hnow : m.now.2.scheduler.mode = .pinned id := hmode
  obtain ⟨-, rfl, -⟩ | ⟨runnable, y, m₁, flow, hrunnable, hschedule, hattempt, -⟩ := cycle_cases h
  · exact refl _
  · have hpinned := schedule_of_pinned hnow runnable m.now.1
    cases hpinned.symm.trans hschedule
    refine hread.trans (attempt hnow (fun t i call callback m₁ ht hi hop hcall hresolve => ?_)
      hattempt)
    have hready : m.now.2.ready id m.now.1 = (true, m.now.2) := by
      rw [ready_of_pinned hnow, ht]
      rfl
    exact hinvoke callback _ m₁ (.host hrunnable (by rw [hpinned]) (by rw [hpinned, hready])
      ht hi hop hcall hresolve rfl)

/-! ## Callbacks that concern their own thread -/

/-- The callbacks that run in the course of an activity concern no thread but the one that called
them. -/
def Private (callbacks : Callbacks κ μ) (a : Activity κ μ) (m : Machine κ μ) : Prop :=
  ∀ id op m', Passes callbacks a m (.performing id op m') → op.Only id

/-- A part of an activity calls no other callbacks. -/
theorem Private.part {a a' : Activity κ μ} (h : Private callbacks a m)
    (hpart : ∀ p, Passes callbacks a' m' p → Passes callbacks a m p) :
    Private callbacks a' m' :=
  fun id op m'' hp => h id op m'' (hpart _ hp)

/-- With so much fuel, operations that concern a thread touch no other while it is pinned, if the
callbacks that they call do not. -/
def Isolates (callbacks : Callbacks κ μ) (fuel : Nat) (id : ThreadId) : Prop :=
  ∀ (op : HostOp κ) (m m' : Machine κ μ) (answer : op.Answer), op.Only id →
    m.scheduler.mode = .pinned id → Private callbacks (.operation op) m →
    m.perform callbacks fuel op = some (answer, m') → Stays id m m'

namespace Isolates

variable {fuel n : Nat} {start : UInt64} {budget : Budget}

theorem program (hall : Isolates callbacks fuel id) {p : HostProgram κ μ Unit} {a : Unit}
    (hmode : m.scheduler.mode = .pinned id) (hprivate : Private callbacks (.program id p) m)
    (h : p.run (Machine.perform callbacks fuel) m = some (a, m')) : Stays id m m' := by
  induction p generalizing m with
  | pure b =>
    cases h
    exact .refl _
  | perform op next ih =>
    simp only [HostProgram.run] at h
    split at h
    · cases h
    · rename_i b m₁ hop
      have hstays := hall op m m₁ b (hprivate id op m .performing) hmode
        (hprivate.part fun _ => .within) hop
      exact hstays.trans (ih b (hstays.mode hmode) (hprivate.part fun _ => .after hop) h)
  | inspect next ih => exact ih _ hmode (hprivate.part fun _ => .inspect) h
  | remember f next ih =>
    have hsame : Stays id m { m with memory := f m.memory } := .same rfl rfl rfl
    exact hsame.trans (ih hmode (hprivate.part fun _ => .remember) h)

theorem cycle (hall : Isolates callbacks fuel id) {outcome : Option RunOutcome}
    (hmode : m.scheduler.mode = .pinned id) (hprivate : Private callbacks (.cycles start budget) m)
    (h : m.cycle (Machine.invoke callbacks fuel) start budget = some (outcome, m')) :
    Stays id m m' := by
  refine .cycle hmode (fun callback m₁ m₂ henters hinvoke => ?_) h
  obtain ⟨r, hprogram, rfl⟩ := Option.map_eq_some_iff.1 hinvoke
  exact hall.program ((henters.of_pinned hmode).2.mode hmode)
    (hprivate.part fun _ => .callback henters) hprogram

theorem cycles (hall : Isolates callbacks fuel id) {outcome : RunOutcome}
    (hmode : m.scheduler.mode = .pinned id) (hprivate : Private callbacks (.cycles start budget) m)
    (h : m.cycles (Machine.invoke callbacks fuel) start budget n = some (outcome, m')) :
    Stays id m m' := by
  induction n generalizing m with
  | zero => cases h
  | succ n ih =>
    simp only [Machine.cycles] at h
    split at h
    · cases h
    · rename_i hlast
      cases h
      exact hall.cycle hmode hprivate hlast
    · rename_i m₁ hnext
      have hstays := hall.cycle hmode hprivate hnext
      exact hstays.trans (ih (hstays.mode hmode) (hprivate.part fun _ => .cycle hnext) h)

/-- A synchronous call, whether its thread was pinned before or not. -/
theorem call (hall : Isolates callbacks fuel id) {name : String} {answer : Except CallError Unit}
    (hprivate : Private callbacks (.operation (.call id name)) m)
    (h : m.callFunction (Machine.invoke callbacks fuel) fuel id name = some (answer, m')) :
    Stays id m m' := by
  obtain ⟨e, -, hbegin⟩ | ⟨t, m₁, outcome, ended, -, hbegin, hrun, hended⟩ :=
    callFunction_eq_some h
  · exact .of_beginCall hbegin
  · have hbegun : Stays id m m₁ := .of_beginCall hbegin
    have hread : Stays id (m₁.pin id) (m₁.pin id).now.2 := .same rfl rfl rfl
    have hran : Stays id (m₁.pin id) ended := hread.trans <|
      hall.cycles (hread.mode rfl) (hprivate.part fun _ => .call hbegin) hrun
    obtain ⟨hunpinned, hscheduler⟩ :=
      Confined.unpin id ended m₁.scheduler t.running outcome
    rw [← congrArg Prod.snd hended] at hunpinned hscheduler
    exact ⟨((hbegun.toConfined.trans .pin).trans hran.toConfined).trans hunpinned,
      hscheduler.trans hbegun.scheduler⟩

end Isolates

/-- While its thread is pinned, an operation that concerns one thread touches no other. -/
theorem isolates (callbacks : Callbacks κ μ) (fuel : Nat) (id : ThreadId) :
    Isolates callbacks fuel id := by
  induction fuel with
  | zero =>
    intro op m m' answer _ _ _ h
    cases h
  | succ fuel ih =>
    intro op m m' answer honly hmode hprivate h
    have hread : Stays id m m.now.2 := .same rfl rfl rfl
    cases op with
    | reset x => cases honly; exact of_answer h .reset
    | start x => cases honly; exact of_answer h (.start hmode)
    | stop x => cases honly; exact of_answer h .stop
    | pause x ms => cases honly; exact of_answer h (.pause ms)
    | unpause x => cases honly; exact of_answer h .unpause
    | invoke x name => cases honly; exact of_answer h (.beginCall name false)
    | pass x v => cases honly; exact of_answer h (.pass v)
    | hostReturn x params v => cases honly; exact of_answer h (.hostReturn params v)
    | run budget =>
      exact hread.trans (ih.cycles (hread.mode hmode) (hprivate.part fun _ => .run) h)
    | call x name => cases honly; exact ih.call hprivate h
    | readClock => exact of_answer h hread
    | setTrace on => exact of_answer h (.same rfl rfl rfl)
    | advanceClock ms => exact of_answer h (.same rfl rfl rfl)
    | setClock ms => exact of_answer h (.same rfl rfl rfl)
    | print text => exact of_answer h (.same rfl rfl rfl)
    | load | loadFile | unload | register | setRegistry | shutdown => exact False.elim honly

/-! ## Calls -/

/-- While a thread is pinned, no moment of what concerns it touches another one, if the callbacks
that are called do not. -/
theorem Passes.stays {a : Activity κ μ} {p : Moment κ μ} (h : Passes callbacks a m p)
    (honly : a.Only id) (hmode : m.scheduler.mode = .pinned id)
    (hprivate : Private callbacks a m) : Stays id m p.machine := by
  have hread (m : Machine κ μ) : Stays id m m.now.2 := .same rfl rfl rfl
  induction h with
  | here => exact .refl _
  | performed h => exact isolates callbacks _ id _ _ _ _ honly hmode hprivate h
  | run _ ih => exact (hread _).trans (ih trivial hmode (hprivate.part fun _ => .run))
  | @begun x name m m₁ hbegin =>
    cases honly
    exact .of_beginCall hbegin
  | @call x name m m₁ p hbegin _ ih =>
    cases honly
    have hbegun : Stays id m m₁ := .of_beginCall hbegin
    have hpinned : Stays id m (m₁.pin id).now.2 :=
      (hbegun.trans (.pin (hbegun.mode hmode))).trans (hread _)
    exact hpinned.trans (ih trivial (hpinned.mode hmode) (hprivate.part fun _ => .call hbegin))
  | performing => exact .refl _
  | @within x op next m p _ ih =>
    cases honly
    exact ih (hprivate id op m .performing) hmode (hprivate.part fun _ => .within)
  | @after x op next answer fuel m m₁ p hperform _ ih =>
    cases honly
    have hstays := isolates callbacks fuel id op _ _ _ (hprivate id op m .performing) hmode
      (hprivate.part fun _ => .within) hperform
    exact hstays.trans (ih rfl (hstays.mode hmode) (hprivate.part fun _ => .after hperform))
  | inspect _ ih => exact ih honly hmode (hprivate.part fun _ => .inspect)
  | @remember x f next m p _ ih =>
    have hsame : Stays id m { m with memory := f m.memory } := .same rfl rfl rfl
    exact hsame.trans (ih honly hmode (hprivate.part fun _ => .remember))
  | @executing start budget runnable x m m₁ m₂ _ hschedule hready =>
    have hnow : m.now.2.scheduler.mode = .pinned id := hmode
    rw [schedule_of_pinned hnow] at hschedule
    cases hschedule
    rw [ready_of_pinned hnow] at hready
    cases (Prod.mk.inj hready).2
    exact hread m
  | @callback start budget f x m m₁ p henters _ ih =>
    obtain ⟨rfl, hentered⟩ := henters.of_pinned hmode
    exact hentered.trans (ih rfl (hentered.mode hmode) (hprivate.part fun _ => .callback henters))
  | @cycle start budget fuel m m₁ p hcycle _ ih =>
    have hstays := (isolates callbacks fuel id).cycle hmode hprivate hcycle
    exact hstays.trans (ih trivial (hstays.mode hmode) (hprivate.part fun _ => .cycle hcycle))
  | ended hcycle => exact (isolates callbacks _ id).cycle hmode hprivate hcycle

/-- A synchronous call gives the scheduler back, however it ends. -/
theorem scheduler_of_callFunction {fuel : Nat} {name : String} {answer : Except CallError Unit}
    (h : m.callFunction invoke fuel id name = some (answer, m')) :
    m'.scheduler = m.scheduler := by
  obtain ⟨e, -, hbegin⟩ | ⟨t, m₁, outcome, ended, -, hbegin, -, hended⟩ := callFunction_eq_some h
  · exact (Stays.of_beginCall hbegin).scheduler
  · rw [show m' = _ from congrArg Prod.snd hended]
    exact (Confined.unpin id ended _ _ _).2.trans (Stays.of_beginCall hbegin).scheduler

/-- **Synchronous calls are isolated.** Whatever the answer to a synchronous call, the scheduler is
as it was before. If the callbacks that are called meanwhile concern only their own thread, then at
every moment of the call all other threads are as they were, the same threads are loaded, the host
has the same functions, and the thread of the call has got no turn. -/
theorem call_isolated (callbacks : Callbacks κ μ) (m : Machine κ μ) (id : ThreadId)
    (name : String) :
    (∀ fuel answer m', m.perform callbacks fuel (.call id name) = some (answer, m') →
      m'.scheduler = m.scheduler) ∧
    (Private callbacks (.operation (.call id name)) m →
      ∀ p, Passes callbacks (.operation (.call id name)) m p →
        Confined id m p.machine ∧
          ∀ j, (p.machine.thread? j).isSome = (m.thread? j).isSome) := by
  constructor
  · intro fuel answer m' h
    cases fuel with
    | zero => cases h
    | succ fuel => exact scheduler_of_callFunction h
  · intro hprivate p hp
    have hconfined : Confined id m p.machine := by
      cases hp with
      | here => exact (Stays.refl m).toConfined
      | @performed _ answer fuel _ m' h =>
        cases fuel with
        | zero => cases h
        | succ fuel => exact ((isolates callbacks fuel id).call hprivate h).toConfined
      | begun hbegin => exact (Stays.of_beginCall hbegin).toConfined
      | @call _ _ _ m₁ _ hbegin hp =>
        have hbegun : Stays id m m₁ := .of_beginCall hbegin
        have hread : Stays id (m₁.pin id) (m₁.pin id).now.2 := .same rfl rfl rfl
        have hstays : Stays id (m₁.pin id).now.2 p.machine :=
          hp.stays trivial rfl (hprivate.part fun _ => .call hbegin)
        exact (hbegun.toConfined.trans .pin).trans (hread.trans hstays).toConfined
    exact ⟨hconfined, hconfined.loaded⟩

/-- Callbacks whose operations all concern the thread that called them. -/
theorem private_of_only (callbacks : Callbacks κ μ)
    (hcallbacks : ∀ callback id, (callbacks callback id).Only id) {a : Activity κ μ}
    (ha : ∀ id p, a = .program id p → p.Only id) : Private callbacks a m := by
  intro x op q h
  generalize hp : Moment.performing x op q = p at h
  induction h with
  | here => cases hp
  | performed _ => cases hp
  | begun _ => cases hp
  | executing _ _ _ => cases hp
  | ended _ => cases hp
  | run _ ih => exact ih (fun _ _ h => by cases h) hp
  | call _ _ ih => exact ih (fun _ _ h => by cases h) hp
  | performing =>
    cases hp
    exact (ha _ _ rfl).1
  | within _ ih => exact ih (fun _ _ h => by cases h) hp
  | after _ _ ih =>
    refine ih (fun _ _ h => ?_) hp
    cases h
    exact (ha _ _ rfl).2 _
  | inspect _ ih =>
    refine ih (fun _ _ h => ?_) hp
    cases h
    exact ha _ _ rfl _
  | remember _ ih =>
    refine ih (fun _ _ h => ?_) hp
    cases h
    exact (ha _ _ rfl :)
  | callback _ _ ih =>
    refine ih (fun _ _ h => ?_) hp
    cases h
    exact hcallbacks _ _
  | cycle _ _ ih => exact ih (fun _ _ h => by cases h) hp

/-- Two threads with a function that calls back into its own thread. -/
def twoReentrant : Machine Unit Unit :=
  let idle := reentrant 2 0 0 0 #[.null, .null, .null, .null]
  { callingBack .roundRobin idle with threads := #[some idle, some idle] }

theorem call_isolated_two_threads :
    ∃ m', twoReentrant.perform callInner 9 (.call 0 "outer") = some (.ok (), m') ∧
      (m'.thread? 0).map (·.stats) = some { turns := 0, instructions := 3 } ∧
      m'.scheduler = twoReentrant.scheduler ∧ m'.thread? 1 = twoReentrant.thread? 1 := by
  have hran : (twoReentrant.perform callInner 9 (.call 0 "outer")).map
      (fun r => (r.1, (r.2.thread? 0).map (·.stats))) =
        some (.ok (), some { turns := 0, instructions := 3 }) := by
    decide +kernel
  obtain ⟨⟨answer, m'⟩, hperform, hstats⟩ := Option.map_eq_some_iff.1 hran
  obtain ⟨rfl, hstats⟩ := Prod.mk.inj hstats
  have hprivate : Private callInner (.operation (.call 0 "outer")) twoReentrant :=
    private_of_only callInner (fun _ _ => ⟨rfl, fun _ => trivial⟩) fun _ _ h => by cases h
  obtain ⟨hscheduler, hmoments⟩ := call_isolated callInner twoReentrant 0 "outer"
  have hend := (hmoments hprivate _ (.performed hperform)).1
  exact ⟨m', hperform, hstats, hscheduler _ _ _ hperform, hend.other (by decide)⟩

end Machine
end ScriptMachine
