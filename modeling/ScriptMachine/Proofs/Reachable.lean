import ScriptMachine.Proofs.HostFaults
import ScriptMachine.Proofs.Sound

/-!
# Reachable machines

`Machine.Reachable` are the machines that a host can bring about from an empty one, together
with those in between: between two cycles of a run, at the beginning of a synchronous call, and
at the beginning of a callback. Every thread of a reachable machine satisfies every invariant of
threads; so it is sound, if the operands of its program can be written in an executable.
-/

namespace ScriptMachine

/-! ## Reachable machines -/

namespace Machine

variable {κ μ : Type} {m m' : Machine κ μ} {id : ThreadId} {t : Thread} {fault : Fault}

/-- The next cycle of a run calls a callback, with the machine `m'` as it is then. -/
inductive Enters (m : Machine κ μ) (callback : κ) (id : ThreadId) (m' : Machine κ μ) : Prop
  | host {runnable : ThreadId} {ready : Machine κ μ} {t : Thread} {i : Instruction} {call : Nat} :
      m.runnable? = some runnable → (m.now.2.schedule runnable m.now.1).1 = id →
      (m.now.2.schedule runnable m.now.1).2.ready id m.now.1 = (true, ready) →
      ready.thread? id = some t → t.instruction? t.ip = some i → i.op = .callHost →
      i.hostCallTarget 0 = .ok call →
      ready.registry.resolve? (t.hostCallName call) id = some callback →
      m' = ready.entering id t i → Enters m callback id m'

/-- The machines that a host can bring about with its callbacks. -/
inductive Reachable (callbacks : Callbacks κ μ) : Machine κ μ → Prop
  | create (config : Config) (clock : Clock) (memory : μ) :
      Reachable callbacks (create config clock memory)
  /-- After an operation, of the host or of a callback. -/
  | perform {m m' : Machine κ μ} {fuel : Nat} {op : HostOp κ} {answer : op.Answer} :
      Reachable callbacks m → m.perform callbacks fuel op = some (answer, m') →
      Reachable callbacks m'
  | remember {m : Machine κ μ} (f : μ → μ) :
      Reachable callbacks m → Reachable callbacks { m with memory := f m.memory }
  /-- Between two cycles of a run. -/
  | cycle {m m' : Machine κ μ} {fuel : Nat} {start : UInt64} {budget : Budget} :
      Reachable callbacks m → m.cycle (invoke callbacks fuel) start budget = some (none, m') →
      Reachable callbacks m'
  /-- At the beginning of the run of a synchronous call. -/
  | pin {m m' : Machine κ μ} {id : ThreadId} {name : String} :
      Reachable callbacks m → m.beginCall id name true = (.ok (), m') →
      Reachable callbacks (m'.pin id)
  /-- At the beginning of a callback. -/
  | enter {m m' : Machine κ μ} {callback : κ} {id : ThreadId} :
      Reachable callbacks m → m.Enters callback id m' → Reachable callbacks m'

/-- What the host and its callbacks do, as programs, stays among the reachable machines. -/
theorem Reachable.program {callbacks : Callbacks κ μ} (h : Reachable callbacks m) {α : Type}
    {fuel : Nat} {p : HostProgram κ μ α} {a : α}
    (hrun : p.run (Machine.perform callbacks fuel) m = some (a, m')) : Reachable callbacks m' :=
  HostProgram.run_keeps (fun _ _ _ _ h hperform => h.perform hperform)
    (fun f _ h => h.remember f) h hrun

/-- A callback that begins in `m'` is what the cycle waits for. -/
theorem Enters.cycle_eq_none {callback : κ} {invoke : Invoke κ μ} (h : m.Enters callback id m')
    (hnone : invoke callback id m' = none) (start : UInt64) (budget : Budget) :
    m.cycle invoke start budget = none := by
  obtain ⟨hrunnable, rfl, hready, ht, hi, hop, hcall, hresolve, rfl⟩ := h
  have hstep := step_host invoke m.now.1 ht hi hop hcall
  rw [hresolve] at hstep
  simp only [hnone, Option.map_none] at hstep
  simp only [cycle, hrunnable, attempt, hready, hstep]

/-- A reachable machine has evolved from an empty one. -/
theorem Reachable.evolves {callbacks : Callbacks κ μ} (h : Reachable callbacks m) :
    ∃ config clock memory, Evolves (Machine.create config clock memory) m := by
  induction h with
  | create config clock memory => exact ⟨config, clock, memory, .refl⟩
  | perform _ hperform ih =>
    obtain ⟨config, clock, memory, ih⟩ := ih
    exact ⟨config, clock, memory, ih.trans (.perform callbacks _ _ hperform)⟩
  | @remember m f _ ih =>
    obtain ⟨config, clock, memory, ih⟩ := ih
    have hremember : Descends m { m with memory := f m.memory } := .same rfl rfl
    exact ⟨config, clock, memory, ih.trans hremember.evolves⟩
  | cycle _ hcycle ih =>
    obtain ⟨config, clock, memory, ih⟩ := ih
    exact ⟨config, clock, memory, ih.trans (.cycle .callback hcycle)⟩
  | @pin m m' id name _ hbegin ih =>
    obtain ⟨config, clock, memory, ih⟩ := ih
    have hbegun : Descends m (m.beginCall id name true).2 := .beginCall id name true
    rw [hbegin] at hbegun
    exact ⟨config, clock, memory, ih.trans (hbegun.trans (.pin id)).evolves⟩
  | @enter m _ _ id _ henters ih =>
    obtain ⟨config, clock, memory, ih⟩ := ih
    obtain @⟨runnable, ready, t, i, _, -, -, hready, ht, hi, hop, -, -, rfl⟩ := henters
    have hread : Descends m m.now.2 := .same rfl rfl
    have hwoken := (hread.trans (.schedule runnable m.now.1)).trans (.ready id m.now.1)
    rw [hready] at hwoken
    exact ⟨config, clock, memory, ih.trans (hwoken.trans (.entering ht hi hop)).evolves⟩

/-- The threads of a reachable machine satisfy every invariant of threads. -/
theorem Reachable.threads {P : Thread → Prop} (hP : Thread.Invariant P)
    {callbacks : Callbacks κ μ} (h : Reachable callbacks m) : Threads P m := by
  obtain ⟨config, clock, memory, hevolves⟩ := h.evolves
  refine Threads.evolves hP (fun id t ht => ?_) hevolves
  rw [thread?_create] at ht
  cases ht

/-! ## Faults -/

/-- A fault that the next instruction of a sound thread meets is an expected one. -/
theorem Advances.expected {invoke : Invoke κ μ} {now : UInt64} (ht : m.thread? id = some t)
    (h : t.Sound) (hvalid : t.program.Valid)
    (hadvance : Advances invoke id now m (.error fault) m') :
    fault.Expected t.program := by
  cases hadvance with
  | off hu hi =>
    rw [ht] at hu
    cases hu
    exact ⟨Nat.le_antisymm h.ip (Array.getElem?_eq_none_iff.1 hi), rfl⟩
  | fault hu hi _ hexec _ =>
    rw [ht] at hu
    cases hu
    exact (h.execute_error hvalid hi hexec).2.2
  | unnamed hu hi hop hcall _ =>
    rw [ht] at hu
    cases hu
    obtain ⟨call, hcall', -⟩ := h.inRange hvalid |>.hostCall _ hi hop
    rw [hcall'] at hcall
    cases hcall
  | unresolved _ _ _ _ _ _ => trivial

/-- Setting up the call of a function of the table fails only if its frame does not fit. -/
theorem beginCall_fault {name : String} {sync : Bool}
    (h : (m.beginCall id name sync).1 = .error (.fault fault)) :
    ∃ capacity, fault = .stackOverflow capacity := by
  cases ht : m.thread? id with
  | none =>
    simp only [beginCall, ht] at h
    cases h
  | some t => exact ⟨_, (beginCall_overflows ht (Prod.ext h rfl)).1⟩

end Machine

/-- The fault that an answer consists of. -/
def CallError.fault? : Except CallError Unit → Option Fault
  | .error (.fault f) => some f
  | _ => none

/-- The fault that an operation answers with. -/
def HostOp.fault? {κ : Type} : (op : HostOp κ) → op.Answer → Option Fault
  | .reset _, r | .start _, r | .stop _, r | .pause .., r | .unpause _, r | .call .., r
  | .invoke .., r | .pass .., r => CallError.fault? r
  | _, _ => none

namespace Machine

variable {κ μ : Type} {m m' : Machine κ μ} {id : ThreadId} {t : Thread} {fault : Fault}

theorem fault?_eq_some {r : Except CallError Unit} :
    CallError.fault? r = some fault ↔ r = .error (.fault fault) := by
  simp only [CallError.fault?]
  split
  · simp
  · rename_i hr
    simp only [reduceCtorEq, false_iff]
    rintro rfl
    exact hr fault rfl

/-- A change of a thread that fails only for a full stack. -/
theorem onThread_fault {f : Thread → Except CallError Thread}
    (hf : ∀ t, f t = .error (.fault fault) → ∃ capacity, fault = .stackOverflow capacity)
    (h : (m.onThread id f).1 = .error (.fault fault)) :
    ∃ capacity, fault = .stackOverflow capacity := by
  simp only [onThread] at h
  split at h
  · cases h
  · rename_i t _
    split at h
    · cases h
    · rename_i ht
      cases h
      exact hf t ht

theorem logged_fst (event : Event) (r : Except CallError Unit × Machine κ μ) :
    (logged event r).1 = r.1 := by
  simp only [logged]
  split <;> rfl

theorem callFunction_fault {invoke : Invoke κ μ} {fuel : Nat} {name : String}
    (h : m.callFunction invoke fuel id name = some (.error (.fault fault), m')) :
    ∃ capacity, fault = .stackOverflow capacity := by
  cases ht : m.thread? id with
  | none =>
    simp only [callFunction, ht] at h
    cases h
  | some t => exact ⟨_, (callFunction_overflows ht h).1⟩

theorem reset_fault (h : (m.reset id).1 = .error (.fault fault)) :
    ∃ capacity, fault = .stackOverflow capacity := by
  rw [reset, logged_fst] at h
  refine onThread_fault (fun t h => ?_) h
  cases hreset : t.reset with
  | ok t' =>
    rw [hreset] at h
    cases h
  | error f =>
    rw [hreset] at h
    cases h
    rcases bind_eq_error.1 hreset with h | ⟨s, -, h⟩
    · exact ⟨_, Thread.openFrames_error h⟩
    · cases h

theorem start_fault (h : (m.start id).1 = .error (.fault fault)) :
    ∃ capacity, fault = .stackOverflow capacity := by
  simp only [start] at h
  split at h
  · rename_i hon
    cases h
    exact onThread_fault (fun t h => by cases h) (congrArg Prod.fst hon)
  · cases h

theorem pass_fault {v : HostValue} (h : (m.pass id v).1 = .error (.fault fault)) :
    ∃ capacity, fault = .stackOverflow capacity := by
  cases ht : m.thread? id with
  | none =>
    simp only [pass, onThread, ht] at h
    cases h
  | some t => exact ⟨_, (pass_overflows ht (Prod.ext h rfl)).1⟩

/-- The faults that the host is answered are those of a full stack. -/
theorem fault_of_perform {callbacks : Callbacks κ μ} {fuel : Nat} {op : HostOp κ}
    {answer : op.Answer} (hperform : m.perform callbacks fuel op = some (answer, m'))
    (hfault : op.fault? answer = some fault) : ∃ capacity, fault = .stackOverflow capacity := by
  cases fuel with
  | zero => cases hperform
  | succ fuel =>
    have answered {r : Except CallError Unit × Machine κ μ} {a : Except CallError Unit}
        (hr : some r = some (a, m')) (ha : CallError.fault? a = some fault) :
        r.1 = .error (.fault fault) := by
      cases hr
      exact fault?_eq_some.1 ha
    cases op with
    | reset id => exact reset_fault (answered hperform hfault)
    | start id => exact start_fault (answered hperform hfault)
    | stop id =>
      have h := answered hperform hfault
      rw [stop, logged_fst] at h
      exact onThread_fault (fun t h => by cases h) h
    | pause id ms =>
      have h := answered (r := m.pause id ms) hperform hfault
      exact onThread_fault (fun t h => by cases h) h
    | unpause id =>
      have h := answered hperform hfault
      exact onThread_fault (fun t h => by cases h) h
    | call id name =>
      rw [fault?_eq_some.1 hfault] at hperform
      exact callFunction_fault hperform
    | invoke id name => exact beginCall_fault (answered hperform hfault)
    | pass id v => exact pass_fault (answered hperform hfault)
    | _ => cases hfault

/-! ## Soundness -/

/-- **Threads stay sound.** In every machine that a host can bring about, whatever its callbacks
do, a thread whose program has only operands that can be written in an executable is sound, finds
what it looks up, and meets no other faults than the expected ones. The faults that the host is
answered are those of a full stack, and every image that is read from an executable has only such
operands. -/
theorem reachable_sound {callbacks : Callbacks κ μ} (h : Reachable callbacks m) :
    (∀ id t, m.thread? id = some t → t.program.Tagged →
      t.Sound ∧ t.InRange ∧
        ∀ invoke now fault m', m.step invoke id now = some (.error fault, m') →
          fault.Expected t.program) ∧
    (∀ fuel op answer m', m.perform callbacks fuel op = some (answer, m') →
      ∀ fault ∈ op.fault? answer, ∃ capacity, fault = .stackOverflow capacity) ∧
    ∀ bytes image, Executable.decode bytes = .ok image → image.Tagged := by
  refine ⟨fun id t ht htagged => ?_, fun _ _ _ _ hperform _ hfault =>
    fault_of_perform hperform hfault, fun bytes image hdecode => ?_⟩
  · obtain ⟨hvalid, hsound⟩ := h.threads Thread.invariant_sound id t ht
    have hsound := hsound htagged
    refine ⟨hsound, hsound.inRange hvalid, fun invoke now fault m' hstep => ?_⟩
    exact (advances_of_step hstep).expected ht hsound hvalid
  · obtain ⟨⟨rest, hread⟩, -⟩ := Executable.decode_eq_ok.1 hdecode
    exact Executable.Reader.tagged_image hread

/-- A program that runs off its end. -/
def offEnd : Image where
  stackSize := 2
  instructions := #[⟨.push, [.int 7]⟩, ⟨.pop, [.register .returnValue]⟩]

/-- What a host does that loads a program and runs it. -/
def loadAndRun (program : Image) : HostProgram Unit Unit Unit :=
  .perform (.load program none) fun _ => .perform (.start 0) fun _ =>
    .perform (.run .unlimited) fun _ => .pure ()

/-- What is read off the thread after a run is read off a thread of the machine that the run
leaves. -/
theorem exists_of_loadAndRun {α : Type} {f : Thread → α} {a : α} {program : Image} {fuel : Nat}
    (h : ((loadAndRun program).run (perform (fun _ _ => .pure ()) fuel)
      (create {} (.ticking 0) ())).bind (fun r => (r.2.thread? 0).map f) = some a) :
    ∃ m t, (loadAndRun program).run (perform (fun _ _ => .pure ()) fuel)
        (create {} (.ticking 0) ()) = some ((), m) ∧ m.thread? 0 = some t ∧ f t = a := by
  obtain ⟨r, hrun, hread⟩ := Option.bind_eq_some_iff.1 h
  obtain ⟨t, ht, hf⟩ := Option.map_eq_some_iff.1 hread
  exact ⟨r.2, t, hrun, ht, hf⟩

theorem reachable_sound_off_end :
    ∃ m t, (loadAndRun offEnd).run (perform (fun _ _ => .pure ()) 9)
        (create {} (.ticking 0) ()) = some ((), m) ∧ m.thread? 0 = some t ∧ t.program = offEnd ∧
      t.fault = some (.instructionPointer 2 2) ∧ t.Sound := by
  have hran : ((loadAndRun offEnd).run (perform (fun _ _ => .pure ()) 9)
      (create {} (.ticking 0) ())).bind (fun r => (r.2.thread? 0).map fun t =>
        (t.program, t.fault)) = some (offEnd, some (.instructionPointer 2 2)) := by
    decide +kernel
  obtain ⟨r, hrun, hran⟩ := Option.bind_eq_some_iff.1 hran
  obtain ⟨t, ht, hthread⟩ := Option.map_eq_some_iff.1 hran
  obtain ⟨hprogram, hfault⟩ := Prod.mk.inj hthread
  have hreachable := (Reachable.create {} (.ticking 0) ()).program hrun
  have htagged : t.program.Tagged := by
    rw [hprogram, Image.Tagged]
    decide
  exact ⟨r.2, t, hrun, ht, hprogram, hfault, ((reachable_sound hreachable).1 0 t ht htagged).1⟩

end Machine
end ScriptMachine
