import ScriptMachine.Proofs.Alone
import ScriptMachine.Proofs.Isolation

/-!
# Threads do not disturb one another

Without calls of the host, a thread computes the same in a machine as on its own. The scheduler
decides when it executes its instructions, and other threads and the clock can delay them, but what
they do depends on the thread alone.

Every cycle either leaves a thread where it is or takes it one instruction further
(`Follows.cycle`), and operations on other threads leave it where it is. So after any of them it is
where it would be on its own, after as many instructions.
-/

namespace ScriptMachine

/-- An operation that concerns no thread but other ones, and loads nothing that calls the host. -/
def HostOp.Spares {κ : Type} (id : ThreadId) : HostOp κ → Prop
  | load image _ => image.HostFree
  | loadFile contents _ => ∀ bytes image, contents = .ok bytes →
      Executable.decode bytes = .ok image → image.HostFree
  | unload x | reset x | start x | stop x | pause x _ | unpause x | call x _ | invoke x _
  | pass x _ | hostReturn x _ _ => x ≠ id
  | shutdown => False
  | run _ | register .. | setRegistry _ | setTrace _ | readClock | advanceClock _ | setClock _
  | print _ => True

namespace Machine

variable {κ μ : Type} {m m' m'' : Machine κ μ} {id x : ThreadId} {t t' : Thread} {now : UInt64}
  {invoke : Invoke κ μ} {callbacks : Callbacks κ μ}

theorem rel_imp {R S : Thread → Thread → Prop} {u v : Option Thread}
    (h : ∀ {t t'}, R t t' → S t t') (huv : Option.Rel R u v) : Option.Rel S u v := by
  cases huv with
  | none => exact .none
  | some hr => exact .some (h hr)

theorem rel_comp {R S T : Thread → Thread → Prop} {u v w : Option Thread}
    (h : ∀ {t t' t''}, R t t' → S t' t'' → T t t'') (huv : Option.Rel R u v)
    (hvw : Option.Rel S v w) : Option.Rel T u w := by
  cases huv with
  | none =>
    cases hvw
    exact .none
  | some hr =>
    cases hvw with
    | some hs => exact .some (h hr hs)

/-- No thread calls the host. -/
def HostFree (m : Machine κ μ) : Prop := Threads (fun t => t.program.HostFree) m

/-- The threads are the same, each after some more of its instructions. -/
def Follows (m m' : Machine κ μ) : Prop :=
  ∀ j, Option.Rel Thread.Follows (m'.thread? j) (m.thread? j)

namespace Follows

theorem of_same (h : ∀ j, m'.thread? j = m.thread? j) : Follows m m' := by
  intro j
  rw [h]
  cases m.thread? j with
  | none => exact .none
  | some t => exact .some (.of_same (.refl t))

theorem trans (h : Follows m m') (h' : Follows m' m'') : Follows m m'' := fun j =>
  rel_comp (fun hj' hj => hj.trans hj') (h' j) (h j)

/-- A thread that follows has the same program. -/
theorem hostFree (h : Follows m m') (hfree : m.HostFree) : m'.HostFree := by
  intro j t' ht'
  have hj := h j
  rw [ht'] at hj
  cases ht : m.thread? j with
  | none =>
    rw [ht] at hj
    cases hj
  | some t =>
    rw [ht] at hj
    cases hj with
    | some hfollows =>
      have hprogram : t.program.HostFree := hfree j t ht
      rwa [← hfollows.program] at hprogram

end Follows

/-! ## Cycles -/

/-- The threads are the same, up to their pauses and their turns. -/
def Stands (m m' : Machine κ μ) : Prop :=
  ∀ j, Option.Rel Thread.Same (m'.thread? j) (m.thread? j)

namespace Stands

theorem of_same (h : ∀ j, m'.thread? j = m.thread? j) : Stands m m' := by
  intro j
  rw [h]
  cases m.thread? j with
  | none => exact .none
  | some t => exact .some (.refl t)

theorem trans (h : Stands m m') (h' : Stands m' m'') : Stands m m'' := fun j =>
  rel_comp (fun hj' hj => hj'.trans hj) (h' j) (h j)

theorem modify {f : Thread → Thread} (hf : ∀ t, (f t).Same t) :
    Stands m (m.modifyThread id f) := by
  intro j
  rw [thread?_modifyThread]
  split
  · cases m.thread? j with
    | none => exact .none
    | some t => exact .some (hf t)
  · exact of_same (fun _ => rfl) j

theorem beginTurn (first fallback : ThreadId) (now : UInt64) :
    Stands m (m.beginTurn first fallback now) := by
  have hmodify : Stands m (m.modifyThread ((m.nextRunning? first).getD fallback) fun t =>
      { t with stats := { t.stats with turns := t.stats.turns + 1 } }) :=
    modify fun t => ⟨t.paused, t.wakeAt, t.stats.turns + 1, rfl⟩
  exact hmodify.trans (of_same fun _ => rfl)

theorem schedule (runnable : ThreadId) (now : UInt64) :
    Stands m (m.schedule runnable now).2 := by
  rcases schedule_snd m runnable now with h | ⟨first, h⟩
  · rw [h]
    exact of_same fun _ => rfl
  · rw [h]
    exact beginTurn first runnable now

theorem ready (id : ThreadId) (now : UInt64) : Stands m (m.ready id now).2 := by
  rcases ready_snd m id now with h | h
  · rw [h]
    exact of_same fun _ => rfl
  · rw [h]
    exact modify fun t => ⟨false, t.wakeAt, t.stats.turns, rfl⟩

theorem follows (h : Stands m m') : Follows m m' := fun j => rel_imp .of_same (h j)

end Stands

/-- One thread may have executed an instruction; apart from that the threads are the same. -/
def Proceeds (id : ThreadId) (m m' : Machine κ μ) : Prop :=
  ∀ j, Option.Rel (fun t' t => t'.Same t ∨ j = id ∧ t.running = true ∧ t'.Same t.proceed)
    (m'.thread? j) (m.thread? j)

theorem Stands.proceeds (h : Stands m m') (id : ThreadId) : Proceeds id m m' := fun j =>
  rel_imp .inl (h j)

theorem Stands.trans_proceeds (h : Stands m m') (h' : Proceeds id m' m'') :
    Proceeds id m m'' := by
  refine fun j => rel_comp ?_ (h' j) (h j)
  rintro t'' t' t (hsame' | ⟨hid, hrunning, hproceed⟩) hsame
  · exact .inl (hsame'.trans hsame)
  · exact .inr ⟨hid, hsame.running ▸ hrunning, hproceed.trans hsame.proceed⟩

namespace Proceeds

theorem alter (ht : m.thread? id = some t) (h : Alters id t' m m')
    (hrunning : m.isRunning id = true) (hsame : t'.Same t.proceed) : Proceeds id m m' := by
  intro j
  by_cases hj : j = id
  · subst hj
    rw [h.thread, ht]
    exact .some (.inr ⟨rfl, by simpa [isRunning, ht] using hrunning, hsame⟩)
  · rw [h.other hj]
    exact (Stands.of_same fun _ => rfl).proceeds id j

/-- An instruction of a running thread, or its fault. -/
theorem conclude (hfree : m.HostFree) (hrunning : m.isRunning id = true)
    {r : Except Fault Flow} (h : Advances invoke id now m r m') :
    Proceeds id m (match r with
      | .ok _ => m'
      | .error fault => m'.faultThread id fault) := by
  have not_host {t : Thread} {i : Instruction} (ht : m.thread? id = some t)
      (hi : t.instruction? t.ip = some i) : i.op ≠ .callHost :=
    hfree id t ht i (Array.mem_of_getElem? hi)
  cases h with
  | unloaded _ => exact (Stands.of_same fun _ => rfl).proceeds id
  | @off t ht hi =>
    have hproceed : t.proceed =
        t.stopWith (.instructionPointer t.ip t.program.instructions.size) := by
      rw [Thread.proceed, Thread.next_of_none hi]
      rfl
    exact alter ht (.faultThread ht _) hrunning (by rw [hproceed]; exact .refl _)
  | own ht hi _ hexec halters => exact alter ht halters hrunning (.own hi hexec)
  | fault ht hi _ hexec halters =>
    exact alter ht (halters.trans (.faultThread halters.thread _)) hrunning (.own hi hexec)
  | unnamed ht hi hop _ _ => exact absurd hop (not_host ht hi)
  | unresolved ht hi hop _ _ _ => exact absurd hop (not_host ht hi)
  | host ht hi hop _ _ _ => exact absurd hop (not_host ht hi)

theorem attempt (hfree : m.HostFree) (hrunning : m.isRunning id = true) {flow : Option Flow}
    (h : m.attempt invoke id now = some (flow, m')) : Proceeds id m m' := by
  have hready := Stands.ready (m := m) id now
  have hrunning' : (m.ready id now).2.isRunning id = true := isRunning_ready.trans hrunning
  obtain ⟨-, hr⟩ | ⟨m₁, hr, hstep⟩ := attempt_cases h
  · rw [hr] at hready
    exact hready.proceeds id
  · rw [hr] at hready hrunning'
    have hfree' : m₁.HostFree := hready.follows.hostFree hfree
    obtain ⟨f, -, hstep⟩ | ⟨fault, m₂, -, hstep, rfl⟩ := hstep
    · exact hready.trans_proceeds (conclude hfree' hrunning' (advances_of_step hstep))
    · exact hready.trans_proceeds (conclude hfree' hrunning' (advances_of_step hstep))

/-- A cycle takes one thread one instruction further at most. -/
theorem cycle (hfree : m.HostFree) {start : UInt64} {budget : Budget}
    {outcome : Option RunOutcome} (h : m.cycle invoke start budget = some (outcome, m')) :
    ∃ id, Proceeds id m m' := by
  have hread : Stands m m.now.2 := .of_same fun _ => rfl
  obtain ⟨-, rfl, -⟩ | ⟨runnable, x, m₁, flow, hrunnable, hschedule, hattempt, -⟩ := cycle_cases h
  · exact ⟨0, (Stands.of_same fun _ => rfl).proceeds 0⟩
  · have hscheduled := hread.trans (.schedule runnable m.now.1)
    have hrunning := isRunning_schedule (m := m.now.2) hrunnable m.now.1
    rw [hschedule] at hscheduled hrunning
    exact ⟨x, hscheduled.trans_proceeds
      (attempt (hscheduled.follows.hostFree hfree) hrunning hattempt)⟩

theorem follows (h : Proceeds id m m') : Follows m m' := by
  refine fun j => rel_imp ?_ (h j)
  rintro t' t (hsame | ⟨-, hrunning, hsame⟩)
  · exact .of_same hsame
  · exact (Thread.Follows.of_same (.refl t)).proceed hrunning hsame

end Proceeds

namespace Follows

theorem cycle (hfree : m.HostFree) {start : UInt64} {budget : Budget}
    {outcome : Option RunOutcome} (h : m.cycle invoke start budget = some (outcome, m')) :
    Follows m m' := by
  obtain ⟨id, hproceeds⟩ := Proceeds.cycle hfree h
  exact hproceeds.follows

theorem cycles (hfree : m.HostFree) {start : UInt64} {budget : Budget} {fuel : Nat}
    {outcome : RunOutcome} (h : m.cycles invoke start budget fuel = some (outcome, m')) :
    Follows m m' :=
  cycles_keep (fun hfollows hcycle => hfollows.trans (cycle (hfollows.hostFree hfree) hcycle))
    (of_same fun _ => rfl) h

end Follows

/-! ## Operations on other threads -/

/-- The machine is still one without calls of the host, and a thread of it has only gone on. -/
def Spares (id : ThreadId) (m m' : Machine κ μ) : Prop :=
  m.HostFree → ∀ t, m.thread? id = some t →
    m'.HostFree ∧ ∃ t', m'.thread? id = some t' ∧ t'.Follows t

namespace Spares

theorem trans (h : Spares id m m') (h' : Spares id m' m'') : Spares id m m'' := by
  intro hfree t ht
  obtain ⟨hfree', t', ht', hfollows⟩ := h hfree t ht
  obtain ⟨hfree'', t'', ht'', hfollows'⟩ := h' hfree' t' ht'
  exact ⟨hfree'', t'', ht'', hfollows.trans hfollows'⟩

theorem of_follows (h : Follows m m') : Spares id m m' := by
  intro hfree t ht
  refine ⟨h.hostFree hfree, ?_⟩
  have hid := h id
  rw [ht] at hid
  cases ht' : m'.thread? id with
  | none =>
    rw [ht'] at hid
    cases hid
  | some t' =>
    rw [ht'] at hid
    cases hid with
    | some hfollows => exact ⟨t', rfl, hfollows⟩

theorem same (h : m'.threads = m.threads) : Spares id m m' :=
  of_follows (.of_same fun j => by rw [thread?, thread?, h])

/-- What concerns one thread spares all others. -/
theorem of_confined (h : Confined x m m') (hx : x ≠ id) : Spares id m m' := by
  intro hfree t ht
  refine ⟨fun j u hu => ?_, t, (h.other hx.symm).trans ht, .of_same (.refl t)⟩
  by_cases hj : j = x
  · subst hj
    have hprogram := h.program
    rw [hu, Option.map_some] at hprogram
    obtain ⟨v, hv, hvu⟩ := Option.map_eq_some_iff.1 hprogram.symm
    have hvfree : v.program.HostFree := hfree j v hv
    rwa [hvu] at hvfree
  · rw [h.other hj] at hu
    exact hfree j u hu

theorem unload (hx : x ≠ id) : Spares id m (m.unload x) := by
  intro hfree t ht
  refine ⟨Threads.unload hfree x, t, ?_, .of_same (.refl t)⟩
  simp only [Machine.unload]
  split
  · exact ht
  · exact (thread?_setThread_ne hx).trans ht

end Spares

/-! ## Loading -/

theorem thread?_of_freeSlot {slot : ThreadId} (h : m.freeSlot = .ok slot) :
    m.thread? slot = none := by
  simp only [freeSlot] at h
  split at h
  · rename_i hfind
    cases h
    obtain ⟨hlt, hnone, -⟩ := Array.findIdx?_eq_some_iff_getElem.1 hfind
    rw [thread?, Array.getElem?_eq_getElem hlt, Option.join_some]
    exact Option.isNone_iff_eq_none.1 hnone
  · split at h
    · cases h
      rw [thread?, Array.getElem?_eq_none (Nat.le_refl _)]
      rfl
    · cases h

/-- Putting a thread into a slot touches no other slot. -/
theorem thread?_place {slot : ThreadId} {u : Thread} (hid : slot ≠ id)
    (ht : m.thread? id = some t) : (m.place slot u).thread? id = some t := by
  simp only [place]
  split
  · exact (thread?_setThread_ne hid).trans ht
  · have hlt : id < m.threads.size := lt_size_of_thread? ht
    show ((m.threads.push (some u))[id]?).join = some t
    rw [Array.getElem?_push_lt hlt, ← ht, thread?, Array.getElem?_eq_getElem hlt]

namespace Spares

/-- A thread is loaded into a slot that is free. -/
theorem place {slot : ThreadId} (hslot : m.freeSlot = .ok slot) {u : Thread}
    (hu : u.program.HostFree) : Spares id m (m.place slot u) := by
  intro hfree t ht
  refine ⟨Threads.place hfree hu, t, thread?_place ?_ ht, .of_same (.refl t)⟩
  rintro rfl
  rw [thread?_of_freeSlot hslot] at ht
  cases ht

theorem loaded {programs : Image → Prop} (hprograms : ∀ image, programs image → image.HostFree)
    (h : Loaded programs m m') : Spares id m m' := by
  cases h with
  | failed => exact same rfl
  | placed hslot _ hprogram => exact place hslot (hprograms _ hprogram)

/-- A synchronous call of another thread. -/
theorem call {fuel : Nat} {name : String} {answer : Except CallError Unit} (hx : x ≠ id)
    (h : m.callFunction invoke fuel x name = some (answer, m')) : Spares id m m' := by
  obtain ⟨e, -, hbegin⟩ | ⟨t, m₁, outcome, ended, -, hbegin, hrun, hended⟩ :=
    callFunction_eq_some h
  · exact of_confined (Stays.of_beginCall hbegin).toConfined hx
  · have hbegun : Stays x m m₁ := .of_beginCall hbegin
    have hpinned : Spares id m (m₁.pin x).now.2 :=
      (of_confined (hbegun.toConfined.trans .pin) hx).trans (same rfl)
    have hunpinned := (Confined.unpin x ended m₁.scheduler t.running outcome).1
    rw [← congrArg Prod.snd hended] at hunpinned
    have hran : Spares id (m₁.pin x).now.2 ended := fun hfree =>
      of_follows (.cycles hfree hrun) hfree
    exact (hpinned.trans hran).trans (of_confined hunpinned hx)

/-- What a host does to other threads spares a thread, and so do runs. -/
theorem perform {fuel : Nat} {op : HostOp κ} {answer : op.Answer} (hop : op.Spares id)
    (h : m.perform callbacks fuel op = some (answer, m')) : Spares id m m' := by
  cases fuel with
  | zero => cases h
  | succ fuel =>
    have other {r : Machine κ μ} {x : ThreadId} (hr : Stays x m r) (hx : x ≠ id) :
        Spares id m r := of_confined hr.toConfined hx
    cases op with
    | load image priority =>
      refine of_answer h (loaded ?_ (loaded_load m image priority))
      rintro _ rfl
      exact hop
    | loadFile contents priority =>
      refine of_answer h (loaded ?_ (loaded_loadFile m contents priority))
      rintro loadable ⟨bytes, hcontents, hdecode⟩
      exact hop bytes loadable hcontents hdecode
    | unload x => exact of_answer h (unload hop)
    | reset x => exact of_answer h (other .reset hop)
    | start x => exact of_answer h (of_confined Confined.start.1 hop)
    | stop x => exact of_answer h (other .stop hop)
    | pause x ms => exact of_answer h (other (.pause ms) hop)
    | unpause x => exact of_answer h (other .unpause hop)
    | invoke x name => exact of_answer h (other (.beginCall name false) hop)
    | pass x v => exact of_answer h (other (.pass v) hop)
    | hostReturn x params v => exact of_answer h (other (.hostReturn params v) hop)
    | call x name => exact call hop h
    | run budget =>
      have hread : Spares id m m.now.2 := same rfl
      exact hread.trans fun hfree => of_follows (.cycles hfree h) hfree
    | shutdown => exact hop.elim
    | _ => exact of_answer h (same rfl)

end Spares

/-! ## Interleaving -/

/-- The machines that come about while a host leaves a thread alone: after each of its operations
and, during a run, after each cycle. -/
inductive Window (callbacks : Callbacks κ μ) (id : ThreadId) : Machine κ μ → Machine κ μ → Prop
  | here {m : Machine κ μ} : Window callbacks id m m
  | perform {m m₁ m₂ : Machine κ μ} {fuel : Nat} {op : HostOp κ} {answer : op.Answer} :
      Window callbacks id m m₁ → op.Spares id →
      m₁.perform callbacks fuel op = some (answer, m₂) → Window callbacks id m m₂
  | remember {m m₁ : Machine κ μ} (f : μ → μ) :
      Window callbacks id m m₁ → Window callbacks id m { m₁ with memory := f m₁.memory }
  | cycle {m m₁ m₂ : Machine κ μ} {fuel : Nat} {start : UInt64} {budget : Budget}
      {outcome : Option RunOutcome} :
      Window callbacks id m m₁ →
      m₁.cycle (Machine.invoke callbacks fuel) start budget = some (outcome, m₂) →
      Window callbacks id m m₂

theorem Window.spares (h : Window callbacks id m m') : Spares id m m' := by
  induction h with
  | here => exact .same rfl
  | perform _ hop hperform ih => exact ih.trans (.perform hop hperform)
  | remember f _ ih => exact ih.trans (.same rfl)
  | cycle _ hcycle ih => exact ih.trans fun hfree => Spares.of_follows (.cycle hfree hcycle) hfree

/-- **Threads do not disturb one another.** In a machine without calls of the host, a thread that
its host leaves alone is at any time where it would be on its own: after as many instructions as it
has completed, or after the fault that the next one of them meets. -/
theorem interleaving_independent (h : Window callbacks id m m') (hfree : m.HostFree)
    (ht : m.thread? id = some t) :
    ∃ t' k, m'.thread? id = some t' ∧ t'.stats.instructions = t.stats.instructions + k ∧
      (t'.Same (t.alone k) ∨
        (t.alone k).running = true ∧ (∃ fault, (t.alone k).next.1 = .error fault) ∧
          t'.Same (t.alone k).proceed) := by
  obtain ⟨-, t', ht', n, hsame⟩ := h.spares hfree t ht
  obtain ⟨k, hcount, hk⟩ := t.alone_eq n
  refine ⟨t', k, ht', hsame.instructions.trans hcount, ?_⟩
  obtain hk | ⟨hrunning, hfault, hk⟩ := hk
  · rw [hk] at hsame
    exact .inl hsame
  · rw [hk] at hsame
    exact .inr ⟨hrunning, hfault, hsame⟩

/-- Two threads that run off their ends after some instructions of their own. -/
def twoRunning : Machine Unit Unit :=
  let first : Thread := { reentrant 0 0 0 0 #[.null] with program := offEnd }
  let second : Thread := { reentrant 1 0 0 0 #[.null] with program := offEnd }
  { callingBack .roundRobin first with threads := #[some first, some second] }

theorem interleaving_independent_two_running :
    ∃ m' t t', twoRunning.perform (fun _ _ => .pure ()) 9 (.run .unlimited) = some (.idle, m') ∧
      twoRunning.thread? 0 = some t ∧ m'.thread? 0 = some t' ∧
      t'.stats.instructions = 2 ∧ t'.returnValue = .int 7 ∧ t'.Same (t.alone 2).proceed := by
  have hran : (twoRunning.perform (fun _ _ => .pure ()) 9 (.run .unlimited)).bind (fun r =>
      (r.2.thread? 0).map fun t => (r.1, t.stats.instructions, t.returnValue, t.running)) =
        some (.idle, 2, .int 7, false) := by
    decide +kernel
  obtain ⟨⟨outcome, m'⟩, hperform, hran⟩ := Option.bind_eq_some_iff.1 hran
  obtain ⟨u, hu, hran⟩ := Option.map_eq_some_iff.1 hran
  simp only [Prod.mk.injEq] at hran
  obtain ⟨rfl, hcount, hvalue, hstopped⟩ := hran
  have hfree : twoRunning.HostFree := by
    intro j v hv
    have hprogram : v.program = offEnd := by
      match j with
      | 0 | 1 =>
        cases hv
        rfl
      | j + 2 => simp [twoRunning, thread?] at hv
    rw [hprogram, Image.HostFree]
    decide
  let t : Thread := { reentrant 0 0 0 0 #[.null] with program := offEnd }
  have hspares : (HostOp.run .unlimited : HostOp Unit).Spares 0 := trivial
  obtain ⟨t', k, ht', hk, hsame⟩ :=
    interleaving_independent (t := t) (.perform .here hspares hperform) hfree rfl
  rw [hu] at ht'
  cases ht'
  have htwo : k = 2 := by
    rw [hcount] at hk
    exact (hk.trans (Nat.zero_add k)).symm
  subst htwo
  refine ⟨m', t, u, hperform, rfl, hu, hcount, hvalue, ?_⟩
  -- on its own the thread is still running after two instructions
  rcases hsame with hsame | ⟨-, -, hsame⟩
  · have hrunning : (t.alone 2).running = true := by decide +kernel
    rw [← hsame.running, hstopped] at hrunning
    cases hrunning
  · exact hsame

end Machine
end ScriptMachine
