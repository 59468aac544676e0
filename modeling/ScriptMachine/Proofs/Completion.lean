import ScriptMachine.Proofs.Isolation

/-!
# How synchronous calls end

A synchronous call waits in a run of its own. The call is answered as soon as a cycle of that run
returns out of a synchronous call, and it goes by nothing but the kind of the marker that the return
finds on the stack. So the answer is that the call has come back exactly if its own run sees such a
return, and then not one instruction is executed between the return and the answer
(`Machine.call_ok_iff`).

A run that a callback begins meanwhile looks for the same thing. If it is the one that sees the
return, the call goes on as if its function had not returned (`Machine.call_aborted_after_return`).
-/

namespace ScriptMachine.Machine

variable {κ μ : Type} {m m' m₁ : Machine κ μ} {id x : ThreadId} {t : Thread} {now start : UInt64}
  {budget : Budget} {invoke : Invoke κ μ} {callbacks : Callbacks κ μ}

/-! ## The mode of the scheduler -/

/-- The scheduler is as it was, or it shares the time among all threads: a shutdown begins
scheduling afresh, even while a thread is pinned. -/
def Restores (m m' : Machine κ μ) : Prop :=
  m'.scheduler = m.scheduler ∨ m'.scheduler.mode = .roundRobin

/-- The machine is pinned to a thread, or to none. -/
def PinsOnly (id : ThreadId) (m : Machine κ μ) : Prop :=
  m.scheduler.mode = .pinned id ∨ m.scheduler.mode = .roundRobin

theorem mode_schedule (runnable : ThreadId) (now : UInt64) :
    (m.schedule runnable now).2.scheduler.mode = m.scheduler.mode := by
  rcases schedule_snd m runnable now with h | ⟨first, h⟩ <;> rw [h]
  rfl

theorem scheduler_ready (now : UInt64) : (m.ready x now).2.scheduler = m.scheduler := by
  rcases ready_snd m x now with h | h <;> rw [h]
  rfl

theorem mode_start : (m.start x).2.scheduler.mode = m.scheduler.mode := by
  have hon : Stays x m (m.onThread x fun t => .ok { t with running := true }).2 :=
    .onThread fun t t' h => by
      cases h
      exact ⟨rfl, rfl⟩
  simp only [start]
  split
  · rename_i hr
    rw [hr] at hon
    rw [hon.scheduler]
  · rename_i hr
    rw [hr] at hon
    split
    · exact (congrArg Scheduler.mode hon.scheduler :)
    · exact (congrArg Scheduler.mode hon.scheduler :)

theorem scheduler_place (t : Thread) : (m.place x t).scheduler = m.scheduler := by
  simp only [place]
  split <;> rfl

theorem scheduler_of_loaded {programs : Image → Prop} (h : Loaded programs m m') :
    m'.scheduler = m.scheduler := by
  cases h with
  | failed => rfl
  | placed _ _ _ => exact scheduler_place _

theorem scheduler_unload : (m.unload x).scheduler = m.scheduler := by
  simp only [unload]
  split <;> rfl

namespace Restores

theorem trans (h : Restores m m') (h' : Restores m' m₁) : Restores m m₁ := by
  obtain h' | h' := h'
  · rwa [Restores, h']
  · exact .inr h'

/-- What keeps the mode and touches no pinned thread. -/
theorem of_mode (hmode : m'.scheduler.mode = m.scheduler.mode)
    (hpinned : m.scheduler.mode ≠ .roundRobin → m'.scheduler = m.scheduler) : Restores m m' := by
  by_cases h : m.scheduler.mode = .roundRobin
  · exact .inr (hmode.trans h)
  · exact .inl (hpinned h)

theorem schedule (runnable : ThreadId) (now : UInt64) :
    Restores m (m.schedule runnable now).2 := by
  refine of_mode (mode_schedule runnable now) fun hmode => ?_
  cases h : m.scheduler.mode with
  | roundRobin => exact absurd h hmode
  | pinned y => rw [schedule_of_pinned h]

theorem advance {r : Except Fault Flow}
    (hinvoke : ∀ callback y (m m' : Machine κ μ), invoke callback y m = some m' → Restores m m')
    (hadvance : Advances invoke x now m r m') : Restores m m' := by
  cases hadvance with
  | unloaded _ => exact .inl rfl
  | off _ _ => exact .inl rfl
  | own _ _ _ _ halters => exact .inl halters.scheduler
  | fault _ _ _ _ halters => exact .inl halters.scheduler
  | unnamed _ _ _ _ halters => exact .inl halters.scheduler
  | unresolved _ _ _ _ _ halters => exact .inl halters.scheduler
  | @host t i _ _ _ ht _ _ _ _ hcallback =>
    have hentered : Restores m (m.entering x t i) := .inl (entering_alters ht i).scheduler
    exact (hentered.trans (hinvoke _ _ _ _ hcallback)).trans (.inl rfl)

theorem cycle
    (hinvoke : ∀ callback y (m m' : Machine κ μ), invoke callback y m = some m' → Restores m m')
    {outcome : Option RunOutcome} (hcycle : m.cycle invoke start budget = some (outcome, m')) :
    Restores m m' := by
  obtain ⟨-, rfl, -⟩ | ⟨runnable, y, m₁, flow, -, hschedule, hattempt, -⟩ := cycle_cases hcycle
  · exact .inl rfl
  · have hread : Restores m m.now.2 := .inl rfl
    have hscheduled := hread.trans (schedule runnable m.now.1)
    rw [hschedule] at hscheduled
    have hready := scheduler_ready (x := y) (m := m₁) m.now.1
    obtain ⟨-, hr⟩ | ⟨m₂, hr, hstep⟩ := attempt_cases hattempt
    · rw [hr] at hready
      exact hscheduled.trans (.inl hready)
    · rw [hr] at hready
      have hwoken := hscheduled.trans (.inl hready)
      obtain ⟨f, -, hstep⟩ | ⟨fault, m₃, -, hstep, rfl⟩ := hstep
      · exact hwoken.trans (advance hinvoke (advances_of_step hstep))
      · exact (hwoken.trans (advance hinvoke (advances_of_step hstep))).trans
          (.inl (Stays.fault fault).scheduler)

/-- Callbacks do what all operations do. -/
theorem of_invoke (callbacks : Callbacks κ μ) {fuel : Nat}
    (hop : ∀ (op : HostOp κ) (m m' : Machine κ μ) (answer : op.Answer),
      m.perform callbacks fuel op = some (answer, m') → Restores m m')
    {callback : κ} (hinvoke : Machine.invoke callbacks fuel callback x m = some m') :
    Restores m m' := by
  obtain ⟨r, hprogram, rfl⟩ := Option.map_eq_some_iff.1 hinvoke
  exact HostProgram.run_keeps (Q := Restores m)
    (fun op _ answer _ h hperform => h.trans (hop op _ _ answer hperform))
    (fun _ _ h => h.trans (.inl rfl)) (.inl rfl) hprogram

/-- No operation pins another thread for good. -/
theorem perform (callbacks : Callbacks κ μ) {fuel : Nat} {op : HostOp κ}
    {answer : op.Answer} (hperform : m.perform callbacks fuel op = some (answer, m')) :
    Restores m m' := by
  induction fuel generalizing op m m' with
  | zero => cases hperform
  | succ fuel ih =>
    have one {x : ThreadId} {r : Machine κ μ} (hstays : Stays x m r) : Restores m r :=
      .inl hstays.scheduler
    cases op with
    | load image priority =>
      exact of_answer hperform (.inl (scheduler_of_loaded (loaded_load m image priority)))
    | loadFile contents priority =>
      exact of_answer hperform (.inl (scheduler_of_loaded (loaded_loadFile m contents priority)))
    | unload x => exact of_answer hperform (.inl scheduler_unload)
    | reset x => exact of_answer hperform (one .reset)
    | start x => exact of_answer hperform (of_mode mode_start Confined.start.2)
    | stop x => exact of_answer hperform (one .stop)
    | pause x ms => exact of_answer hperform (one (.pause ms))
    | unpause x => exact of_answer hperform (one .unpause)
    | invoke x name => exact of_answer hperform (one (.beginCall name false))
    | pass x v => exact of_answer hperform (one (.pass v))
    | hostReturn x params v => exact of_answer hperform (one (.hostReturn params v))
    | call x name => exact .inl (scheduler_of_callFunction hperform)
    | run budget =>
      have hread : Restores m m.now.2 := .inl rfl
      exact cycles_keep (Q := Restores m) (fun h hcycle =>
        h.trans (cycle (fun _ _ _ _ => of_invoke callbacks fun _ _ _ _ => ih) hcycle))
        hread hperform
    | shutdown => exact of_answer hperform (.inr rfl)
    | _ => exact of_answer hperform (.inl rfl)

end Restores

theorem PinsOnly.restored (h : PinsOnly id m) (hrestores : Restores m m') : PinsOnly id m' := by
  obtain hsame | hfresh := hrestores
  · rwa [PinsOnly, hsame]
  · exact .inr hfresh

/-! ## Runs, cycle by cycle -/

/-- The machines that a run comes to between its cycles. -/
inductive Runs (invoke : Invoke κ μ) (start : UInt64) (budget : Budget) :
    Machine κ μ → Machine κ μ → Prop
  | here {m : Machine κ μ} : Runs invoke start budget m m
  | cycle {m m₁ m' : Machine κ μ} :
      m.cycle invoke start budget = some (none, m₁) → Runs invoke start budget m₁ m' →
      Runs invoke start budget m m'

/-- A run ends with its last cycle. -/
theorem runs_of_cycles {fuel : Nat} {outcome : RunOutcome}
    (h : m.cycles invoke start budget fuel = some (outcome, m')) :
    ∃ q, Runs invoke start budget m q ∧ q.cycle invoke start budget = some (some outcome, m') := by
  induction fuel generalizing m with
  | zero => cases h
  | succ fuel ih =>
    simp only [cycles] at h
    split at h
    · cases h
    · rename_i hlast
      cases h
      exact ⟨m, .here, hlast⟩
    · rename_i hnext
      obtain ⟨q, hq, hlast⟩ := ih h
      exact ⟨q, .cycle hnext hq, hlast⟩

/-- A run ends at the first cycle that has an outcome. -/
theorem Runs.cycles_eq {fuel : Nat} {outcome outcome' : RunOutcome} {q ended : Machine κ μ}
    (h : Runs invoke start budget m q)
    (hlast : q.cycle invoke start budget = some (some outcome, ended))
    (hcycles : m.cycles invoke start budget fuel = some (outcome', m')) :
    outcome' = outcome ∧ m' = ended := by
  induction h generalizing fuel with
  | here =>
    cases fuel with
    | zero => cases hcycles
    | succ fuel =>
      simp only [cycles, hlast] at hcycles
      cases hcycles
      exact ⟨rfl, rfl⟩
  | cycle hnext _ ih =>
    cases fuel with
    | zero => cases hcycles
    | succ fuel =>
      simp only [cycles, hnext] at hcycles
      exact ih hlast hcycles

theorem Runs.restores {callbacks : Callbacks κ μ} {fuel : Nat}
    (h : Runs (Machine.invoke callbacks fuel) start budget m m') : Restores m m' := by
  induction h with
  | here => exact .inl rfl
  | cycle hnext _ ih =>
    have hcycle : Restores _ _ := Restores.cycle (fun _ _ _ _ =>
      .of_invoke callbacks fun _ _ _ _ => .perform callbacks) hnext
    exact hcycle.trans ih

theorem Runs.pinsOnly {callbacks : Callbacks κ μ} {fuel : Nat}
    (h : Runs (Machine.invoke callbacks fuel) start budget m m') (hpins : PinsOnly id m) :
    PinsOnly id m' :=
  hpins.restored h.restores

/-! ## Returns out of synchronous calls -/

/-- In the next cycle the pinned thread returns out of a synchronous call, through the marker on top
of its stack. The machine is `m'` then. -/
inductive Leaves (id : ThreadId) (m : Machine κ μ) (link : FrameLink) (m' : Machine κ μ) : Prop
  | ret {t t' : Thread} {i : Instruction} {target : Nat} :
      m.scheduler.mode = .pinned id → m.thread? id = some t → t.running = true →
      t.instruction? t.ip = some i → i.op = .ret →
      t.stack.slot (t.stack.top - 1) = .stackBaseMarker link →
      t.ret = (.ok (.syncReturn target), t') →
      Alters id (t'.settle t.ip (.syncReturn target)) m.now.2 m' →
      (∀ invoke, m.now.2.step invoke id m.now.1 = some (.ok (.syncReturn target), m')) →
      Leaves id m link m'

/-- Such a return ends the run. -/
theorem Leaves.cycle_eq {link : FrameLink} (h : Leaves id m link m') (invoke : Invoke κ μ)
    (start : UInt64) : m.cycle invoke start .unlimited = some (some .syncReturned, m') := by
  obtain ⟨hmode, ht, hrunning, -, -, -, -, halters, hstep⟩ := h
  rw [cycle_of_pinned hmode ht hrunning (hstep invoke) start]
  have hmode' : m'.scheduler.mode = .pinned id := by
    rw [halters.scheduler]
    exact hmode
  rw [if_pos (by simp only [syncDone, hmode', decide_true])]

theorem syncDone_iff {flow : Option Flow} :
    m.syncDone id flow = true ↔
      (∃ target, flow = some (.syncReturn target)) ∧ m.scheduler.mode = .pinned id := by
  simp only [syncDone]
  split
  · simp
  · rename_i hflow
    simp only [Bool.false_eq_true, false_iff, not_and]
    rintro ⟨target, rfl⟩
    exact absurd rfl (hflow target)

/-- Only a return through the marker of a synchronous call leaves one. -/
theorem marker_of_syncReturn {i : Instruction} {pinned : Bool} {target : Nat} {t' : Thread}
    (hexec : t.execute i now pinned = (.ok (.syncReturn target), t')) :
    i.op = .ret ∧ t.ret = (.ok (.syncReturn target), t') ∧
      ∃ link, t.stack.slot (t.stack.top - 1) = .stackBaseMarker link := by
  have hop : i.op = .ret := by
    by_contra hop
    exact Thread.flow_execute hexec hop target rfl
  rw [Thread.execute_ret hop] at hexec
  refine ⟨hop, hexec, ?_⟩
  obtain ⟨-, ⟨-, hflow, -⟩ | ⟨sync, link, hmarker, hclose⟩⟩ := Thread.ret_eq_ok hexec
  · cases hflow
  · obtain ⟨callee, target', -, -, -, hflow, -⟩ := Thread.close_eq_ok.1 hclose
    cases sync with
    | false => cases hflow
    | true => exact ⟨link, hmarker⟩

/-- Nothing else ends a run with the outcome that a synchronous call has returned. -/
theorem leaves_of_cycle (h : m.cycle invoke start budget = some (some .syncReturned, m')) :
    ∃ id link, Leaves id m link m' := by
  obtain ⟨-, -, houtcome⟩ | ⟨runnable, id, m₁, flow, hrunnable, hschedule, hattempt, houtcome⟩ :=
    cycle_cases h
  · split at houtcome <;> cases houtcome
  · have hdone : m'.syncDone id flow = true := by
      split at houtcome
      · cases houtcome
      · split at houtcome
        · assumption
        · cases houtcome
    obtain ⟨⟨target, rfl⟩, hmode'⟩ := syncDone_iff.1 hdone
    obtain ⟨hflow, -⟩ | ⟨m₂, hready, ⟨f, hf, hstep⟩ | ⟨fault, m₃, hflow, -⟩⟩ :=
      attempt_cases hattempt
    · cases hflow
    · cases hf
      cases advances_of_step hstep with
      | @own t t' i _ _ ht hi hop hexec halters =>
        obtain ⟨hret, hclose, link, hmarker⟩ := marker_of_syncReturn hexec
        -- the instruction leaves the scheduler alone, so the thread was pinned before
        have hmode : m.scheduler.mode = .pinned id := by
          rw [halters.scheduler, show m₂ = (m₁.ready id m.now.1).2 by rw [hready],
            scheduler_ready, show m₁ = (m.now.2.schedule runnable m.now.1).2 by rw [hschedule],
            mode_schedule] at hmode'
          exact hmode'
        have hnow : m.now.2.scheduler.mode = .pinned id := hmode
        have hscheduled := schedule_of_pinned hnow runnable m.now.1
        have hrunning := isRunning_schedule (m := m.now.2) hrunnable m.now.1
        cases hscheduled.symm.trans hschedule
        cases (Prod.mk.inj ((ready_of_pinned hnow id m.now.1).symm.trans hready)).2
        rw [hscheduled] at hrunning
        obtain ⟨m₃, hall, -⟩ := step_own ht hi hop hexec
        cases (hall invoke).symm.trans hstep
        exact ⟨id, link, .ret hmode ht (by simpa [isRunning, ht] using hrunning) hi hret hmarker
          hclose halters hall⟩
    · cases hflow

/-- **When a synchronous call is answered.** The answer to a call whose frame was set up is that it
has come back exactly if its own run comes to a return of its thread out of a synchronous call. Then
the answer is given on the spot: the machine is the one after that return, with the scheduler and
the running of the thread as they were before the call. -/
theorem call_ok_iff {fuel : Nat} {name : String} {answer : Except CallError Unit}
    (ht : m.thread? id = some t) (hbegin : m.beginCall id name true = (.ok (), m₁))
    (hcall : m.perform callbacks (fuel + 1) (.call id name) = some (answer, m')) :
    answer = .ok () ↔
      ∃ q link returned,
        Runs (Machine.invoke callbacks fuel) (m₁.pin id).now.1 .unlimited (m₁.pin id).now.2 q ∧
          Leaves id q link returned ∧
          m' = (returned.unpin id m.scheduler t.running .syncReturned).2 := by
  have hbegun : Stays id m m₁ := .of_beginCall hbegin
  obtain ⟨e, -, hbegin'⟩ | ⟨u, m₂, outcome, ended, hu, hbegin', hrun, hended⟩ :=
    callFunction_eq_some hcall
  · rw [hbegin] at hbegin'
    cases hbegin'
  · rw [hbegin] at hbegin'
    cases hbegin'
    rw [ht] at hu
    cases hu
    rw [hbegun.scheduler] at hended
    constructor
    · rintro rfl
      have houtcome : outcome = .syncReturned := by
        by_contra hne
        simp only [unpin, if_neg hne] at hended
        cases hended
      subst houtcome
      obtain ⟨q, hq, hlast⟩ := runs_of_cycles hrun
      obtain ⟨y, link, hleaves⟩ := leaves_of_cycle hlast
      have hy : y = id := by
        have hpins : PinsOnly id q := hq.pinsOnly (.inl rfl)
        obtain ⟨hmode, -, -, -, -, -, -, -, -⟩ := hleaves
        rw [PinsOnly, hmode] at hpins
        simpa using hpins
      subst hy
      exact ⟨q, link, ended, hq, hleaves, congrArg Prod.snd hended⟩
    · rintro ⟨q, link, returned, hq, hleaves, -⟩
      obtain ⟨rfl, rfl⟩ := hq.cycles_eq (hleaves.cycle_eq _ _) hrun
      exact congrArg Prod.fst hended

theorem call_ok_iff_inner :
    ∃ q link returned, Leaves 0 q link returned ∧
      (callingBack .roundRobin (reentrant 2 0 0 0 #[.null, .null])).perform callInner 5
          (.call 0 "inner") =
        some (.ok (), (returned.unpin 0 {} true .syncReturned).2) := by
  let t := reentrant 2 0 0 0 #[.null, .null]
  let called := reentrant 2 2 2 0 #[.instrIndex 2, .stackBaseMarker ⟨1, 0⟩]
  have hf : t.program.findFunction? "inner" = some 1 := by decide +kernel
  have hbegin : (callingBack .roundRobin t).beginCall 0 "inner" true =
      (.ok (), callingBack .roundRobin called) :=
    beginCall_eq_ok.2 ⟨t, 1, 2, called, rfl, hf, rfl, rfl⟩
  have hran : ((callingBack .roundRobin t).perform callInner 5 (.call 0 "inner")).map Prod.fst =
      some (.ok ()) := by
    decide +kernel
  obtain ⟨⟨answer, m'⟩, hcall, hanswer⟩ := Option.map_eq_some_iff.1 hran
  obtain ⟨q, link, returned, -, hleaves, rfl⟩ := (call_ok_iff rfl hbegin hcall).1 hanswer
  cases hanswer
  exact ⟨q, link, returned, hleaves, hcall⟩

/-- A thread with a function that calls the host and returns, and a main function that it is in. -/
def calling (ip top base : Nat) (running : Bool) (slots : Array Value) : Thread :=
  { reentrant ip top base 0 slots with
    program :=
      { instructions := #[⟨.callHost, [.hostCallIndex 0]⟩, ⟨.ret, []⟩,
          ⟨.mov, [.register .returnValue, .int 9]⟩, ⟨.exit, [.int 0]⟩]
        functions := #[⟨"function", 0, 0, 0⟩, ⟨"main", 2, 0, 0⟩]
        main := some 1
        hostCalls := #["host"] }
    running }

/-- A machine with that thread, which is not running. -/
def resting : Machine Unit Unit :=
  callingBack .roundRobin (calling 2 1 1 false #[.null, .null, .null])

/-- A callback that runs the threads of the machine. -/
def runThreads : Callbacks Unit Unit := fun _ _ =>
  .perform (.run .unlimited) fun _ => .pure ()

/-- A call can be aborted after it has come back. The function of the call returns while the run
of a callback is going on, from the very frame that the call has set up: the stack is the one that
the call left. That run ends, and the call goes on with what stands behind it. -/
theorem call_aborted_after_return :
    ∃ m₁ q link returned m' t₁ u t',
      resting.beginCall 0 "function" true = (.ok (), m₁) ∧
      Passes runThreads (.operation (.call 0 "function")) resting (.state q) ∧
      Leaves 0 q link returned ∧ m₁.thread? 0 = some t₁ ∧ q.thread? 0 = some u ∧
      u.stack = t₁.stack ∧
      resting.perform runThreads 9 (.call 0 "function") = some (.error .aborted, m') ∧
      m'.thread? 0 = some t' ∧ t'.returnValue = .int 9 ∧ t'.exitCode = some 0 := by
  let idle := calling 2 1 1 false #[.null, .null, .null]
  let framed : Array Value := #[.null, .instrIndex 2, .stackBaseMarker ⟨0, 1⟩]
  let called := calling 0 3 3 false framed
  let pinned := callingBack (.pinned 0) (calling 0 3 3 true framed)
  let entered := callingBack (.pinned 0) (calling 1 3 3 true framed)
  have hf : idle.program.findFunction? "function" = some 0 := by decide +kernel
  have hbegin : resting.beginCall 0 "function" true =
      (.ok (), callingBack .roundRobin called) :=
    beginCall_eq_ok.2 ⟨idle, 0, 0, { called with ip := 2 }, rfl, hf, rfl, rfl⟩
  have hrunnable : pinned.runnable? = some 0 := by decide +kernel
  have hresolve : pinned.registry.resolve? "host" 0 = some () := by decide +kernel
  have henters : pinned.Enters () 0 entered :=
    @Enters.host _ _ pinned () 0 entered 0 pinned (calling 0 3 3 true framed)
      ⟨.callHost, [.hostCallIndex 0]⟩ 0 hrunnable rfl rfl rfl rfl rfl rfl hresolve rfl
  have hpasses : Passes runThreads (.operation (.call 0 "function")) resting (.state entered) :=
    .call hbegin (.callback henters (.within (.run .here)))
  let waiting := calling 1 3 3 true framed
  let back : Thread := { waiting with stack := { slots := framed, top := 1, base := 1 } }
  have ht : entered.now.2.thread? 0 = some waiting := rfl
  have hret : waiting.ret = (.ok (.syncReturn 2), back) := rfl
  have hexec : waiting.execute ⟨.ret, []⟩ entered.now.1
      (entered.now.2.scheduler.mode ≠ .roundRobin) = (.ok (.syncReturn 2), back) :=
    (Thread.execute_ret rfl).trans hret
  obtain ⟨returned, hstep, halters⟩ := step_own ht rfl (by decide) hexec
  have hleaves : Leaves 0 entered ⟨0, 1⟩ returned :=
    .ret rfl rfl rfl rfl rfl rfl hret halters hstep
  have hran : (resting.perform runThreads 9 (.call 0 "function")).bind (fun r =>
      (r.2.thread? 0).map fun t => (r.1, t.returnValue, t.exitCode)) =
        some (.error .aborted, .int 9, some 0) := by
    decide +kernel
  obtain ⟨⟨answer, m'⟩, hcall, hran⟩ := Option.bind_eq_some_iff.1 hran
  obtain ⟨t', ht', hran⟩ := Option.map_eq_some_iff.1 hran
  simp only [Prod.mk.injEq] at hran
  obtain ⟨rfl, hvalue, hexit⟩ := hran
  exact ⟨_, entered, _, returned, m', _, _, t', hbegin, hpasses, hleaves, rfl, rfl, rfl, hcall, ht',
    hvalue, hexit⟩

end ScriptMachine.Machine
