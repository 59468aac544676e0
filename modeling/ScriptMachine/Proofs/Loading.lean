import ScriptMachine.Proofs.Decoding
import ScriptMachine.Proofs.Running

/-!
# Loading

A load puts a new thread into the lowest free slot, or changes nothing. The new thread is determined
by its program and by what the configuration says of it: it is `Thread.loaded`, stopped, with every
slot of its stack null. What can go wrong does so before the slot is written.

A machine never has more slots than its configuration allows, and it lacks a free one exactly when
as many threads are loaded. A slot that is taken holds what has become of the same thread until that
is unloaded.
-/

namespace ScriptMachine

open Machine

namespace Thread

variable {t t' : Thread} {program : Image}

/-- The slots below the top when a run starts: those of the globals, and of the frame of main with
its marker. -/
def initialTop (program : Image) : Nat :=
  program.globals.toNat +
    match program.mainFunction? with
    | some main => main.locals.toNat + 1
    | none => 0

/-- A thread as it is when it has been loaded. -/
def loaded (program : Image) (capacity : Nat) (priority : Priority) (timeslice : UInt64)
    (digest : Option (List UInt8)) : Thread where
  program
  stack :=
    { slots := Array.replicate capacity .null
      top := initialTop program
      base := initialTop program }
  priority
  timeslice
  ip :=
    match program.mainFunction? with
    | some main => main.entry
    | none => 0
  returnValue := .null
  running := false
  paused := false
  wakeAt := 0
  exitCode := none
  fault := none
  stats := {}
  digest

/-- The frames of a run fit on an empty stack if it has as many slots as they take. -/
theorem openFrames_clear_eq_ok {s s' : Stack} :
    openFrames program s.clear = .ok s' ↔ initialTop program ≤ s.capacity ∧
      s' = { slots := Array.replicate s.capacity .null
             top := initialTop program
             base := initialTop program } := by
  have htop : s.clear.top = 0 := rfl
  simp only [openFrames, initialTop, bind_eq_ok, Stack.pushFrame_eq_ok, Stack.capacity_clear, htop,
    Nat.zero_add]
  cases program.mainFunction? with
  | none =>
    simp only [pure_eq_ok]
    constructor
    · rintro ⟨_, ⟨hfits, rfl⟩, rfl⟩
      exact ⟨hfits, rfl⟩
    · rintro ⟨hfits, rfl⟩
      exact ⟨_, ⟨hfits, rfl⟩, rfl⟩
  | some main =>
    simp only [Stack.pushFrame_eq_ok]
    have hcapacity : ∀ top base : Nat, ({ s.clear with top, base } : Stack).capacity = s.capacity :=
      fun _ _ => Stack.capacity_clear s
    constructor
    · rintro ⟨_, ⟨-, rfl⟩, hfits, rfl⟩
      rw [hcapacity] at hfits
      exact ⟨hfits, rfl⟩
    · rintro ⟨hfits, rfl⟩
      refine ⟨_, ⟨Nat.le_trans (Nat.le_add_right ..) hfits, rfl⟩, ?_, rfl⟩
      rwa [hcapacity]

/-- A reset succeeds if the frames of a run fit on the stack, and leaves the thread as it is when it
has been loaded, except that it runs on if it was running and that its statistics stay. -/
theorem reset_eq_ok :
    t.reset = .ok t' ↔ initialTop t.program ≤ t.stack.capacity ∧
      t' = { loaded t.program t.stack.capacity t.priority t.timeslice t.digest with
             running := t.running
             stats := t.stats } := by
  have hentry : entry t.program = (loaded t.program t.stack.capacity t.priority t.timeslice
      t.digest).ip := by
    simp only [entry, loaded]
    cases t.program.mainFunction? <;> rfl
  rw [reset, bind_eq_ok]
  constructor
  · rintro ⟨s, hs, h⟩
    obtain ⟨hfits, rfl⟩ := openFrames_clear_eq_ok.1 hs
    cases h
    rw [hentry]
    exact ⟨hfits, rfl⟩
  · rintro ⟨hfits, rfl⟩
    refine ⟨_, openFrames_clear_eq_ok.2 ⟨hfits, rfl⟩, ?_⟩
    rw [hentry]
    rfl

theorem create_eq_ok {capacity : Nat} {stack : Stack} {priority : Priority} {timeslice : UInt64}
    (hstack : Stack.create capacity = .ok stack) :
    create program stack priority timeslice = .ok t ↔
      initialTop program ≤ capacity ∧ t = loaded program capacity priority timeslice none := by
  have hcapacity : stack.capacity = capacity := by
    unfold Stack.create at hstack
    split at hstack <;> cases hstack
    simp [Stack.capacity]
  rw [create, reset_eq_ok, hcapacity]
  rfl

/-- Every thread begins as it is when it has been loaded, and the frames of its run fit. -/
theorem Born.eq_loaded (h : Born t) :
    t = loaded t.program t.stack.capacity t.priority t.timeslice t.digest ∧
      initialTop t.program ≤ t.stack.capacity := by
  obtain ⟨digest, -, hstack, hcreate⟩ := h
  obtain ⟨hfits, rfl⟩ := (create_eq_ok hstack).1 hcreate
  simp only [loaded, Stack.capacity, Array.size_replicate, true_and]
  exact hfits

end Thread

namespace Machine

variable {κ μ : Type} {m m' : Machine κ μ} {id slot : ThreadId} {t : Thread}
  {callbacks : Callbacks κ μ}

/-! ## Slots -/

theorem mem_loadedThreads : id ∈ m.loadedThreads ↔ (m.thread? id).isSome = true := by
  simp only [loadedThreads, List.mem_filter, List.mem_range]
  constructor
  · exact And.right
  · intro h
    obtain ⟨t, ht⟩ := Option.isSome_iff_exists.1 h
    exact ⟨lt_size_of_thread? ht, h⟩

theorem length_loadedThreads_le (m : Machine κ μ) : m.loadedThreads.length ≤ m.threads.size := by
  have hle := List.length_filter_le (fun id => (m.thread? id).isSome) (List.range m.threads.size)
  rwa [List.length_range] at hle

/-- Every slot is taken exactly if as many threads are loaded as there are slots. -/
theorem length_loadedThreads_eq :
    m.loadedThreads.length = m.threads.size ↔
      ∀ id < m.threads.size, (m.thread? id).isSome = true := by
  have h := List.length_filter_eq_length_iff (p := fun id => (m.thread? id).isSome)
    (l := List.range m.threads.size)
  rw [List.length_range] at h
  simpa [loadedThreads] using h

theorem isSome_of_lt_freeSlot (h : m.freeSlot = .ok slot) (hlt : id < slot) :
    (m.thread? id).isSome = true := by
  simp only [freeSlot] at h
  split at h
  · rename_i hfind
    cases h
    obtain ⟨hslot, -, hbelow⟩ := Array.findIdx?_eq_some_iff_getElem.1 hfind
    have htaken := hbelow id hlt
    rw [thread?, Array.getElem?_eq_getElem (Nat.lt_trans hlt hslot), Option.join_some]
    simpa [Option.isSome_iff_ne_none] using htaken
  · rename_i hnone
    split at h
    · cases h
      rw [Array.findIdx?_eq_none_iff] at hnone
      rw [thread?, Array.getElem?_eq_getElem hlt, Option.join_some]
      simpa using hnone _ (Array.getElem_mem hlt)
    · cases h

/-- The slot for a new thread is among those that the configuration allows. -/
theorem lt_of_freeSlot (hsize : m.threads.size ≤ m.config.maxThreads) (h : m.freeSlot = .ok slot) :
    slot < m.config.maxThreads := by
  simp only [freeSlot] at h
  split at h
  · rename_i hfind
    cases h
    exact Nat.lt_of_lt_of_le (Array.findIdx?_eq_some_iff_getElem.1 hfind).1 hsize
  · split at h
    · cases h
      assumption
    · cases h

/-- There is no free slot exactly if as many threads are loaded as the configuration allows. -/
theorem freeSlot_eq_error_iff (hsize : m.threads.size ≤ m.config.maxThreads) {e : LoadError} :
    m.freeSlot = .error e ↔
      e = .outOfThreads m.config.maxThreads ∧ m.loadedThreads.length = m.config.maxThreads := by
  have hle := length_loadedThreads_le m
  have hall :
      m.threads.findIdx? Option.isNone = none ↔ m.loadedThreads.length = m.threads.size := by
    rw [length_loadedThreads_eq, Array.findIdx?_eq_none_iff, Array.forall_mem_iff_forall_getElem]
    refine forall₂_congr fun id hid => ?_
    rw [thread?, Array.getElem?_eq_getElem hid, Option.join_some]
    cases m.threads[id] <;> simp
  simp only [freeSlot]
  split
  · rename_i hfind
    have hfree : m.loadedThreads.length ≠ m.threads.size := fun h => by
      rw [hall.2 h] at hfind
      cases hfind
    simp only [reduceCtorEq, false_iff, not_and]
    omega
  · rename_i hnone
    have hfull := hall.1 hnone
    split
    · simp only [reduceCtorEq, false_iff, not_and]
      omega
    · simp only [Except.error.injEq, eq_comm (a := e)]
      refine (and_iff_left ?_).symm
      omega

/-- The number of slots stays within what the configuration allows. -/
theorem Evolves.size (h : Evolves m m') (hsize : m.threads.size ≤ m.config.maxThreads) :
    m'.config = m.config ∧ m'.threads.size ≤ m.config.maxThreads := by
  induction h with
  | refl => exact ⟨rfl, hsize⟩
  | tail _ hchanges ih =>
    obtain ⟨hconfig, hle⟩ := ih
    obtain hdescends | ⟨programs, hloaded⟩ := hchanges
    · exact ⟨hdescends.config.trans hconfig, Nat.le_trans hdescends.size hle⟩
    · cases hloaded with
      | failed => exact ⟨hconfig, hle⟩
      | @placed slot t hslot _ _ =>
        rw [← hconfig] at hle ⊢
        have hlt := lt_of_freeSlot hle hslot
        unfold place
        simp only
        split
        · exact ⟨rfl, by rwa [size_setThread]⟩
        · rename_i hlast
          refine ⟨rfl, ?_⟩
          rw [Array.size_push]
          exact Nat.lt_of_le_of_lt (Nat.not_lt.1 hlast) hlt

/-- Every machine in the course of a program has evolved from the first one. -/
theorem evolves_of_mem_course {α : Type} {fuel : Nat} {program : HostProgram κ μ α} {q : Point κ μ}
    (hq : q ∈ program.course callbacks fuel m) : Evolves m q.machine := by
  refine (HostProgram.ensues_course callbacks fuel program m).induction
    (fun q => Evolves m q.machine) _ (fun _ _ hensues hp => hp.tail hensues.next.changes) ?_ q hq
  exact fun _ => Relation.ReflTransGen.refl

theorem Reachable.size_le (h : Reachable callbacks m) :
    m.threads.size ≤ m.config.maxThreads := by
  obtain ⟨config, clock, memory, hevolves⟩ := h.evolves
  obtain ⟨hconfig, hsize⟩ := hevolves.size (Nat.zero_le _)
  rwa [hconfig]

/-! ## New threads -/

/-- The thread that a machine makes of a program, at a priority of its own or at the program's. -/
def loadedThread (m : Machine κ μ) (program : Image) (priority : Option Priority)
    (digest : Option (List UInt8)) : Thread :=
  .loaded program (m.stackSize program) (priority.getD program.priority)
    (m.config.timeslice (priority.getD program.priority)) digest

theorem newThread_eq_ok {program : Image} {priority : Option Priority}
    (h : m.newThread program priority = .ok t) : t = m.loadedThread program priority none := by
  simp only [newThread] at h
  split at h
  · cases h
  obtain ⟨stack, hstack, h⟩ := bind_eq_ok.1 h
  cases hcreate : Thread.create program stack (priority.getD program.priority)
      (m.config.timeslice (priority.getD program.priority)) with
  | error fault =>
    rw [hcreate] at h
    cases h
  | ok u =>
    rw [hcreate] at h
    cases h
    obtain ⟨-, rfl⟩ := (Thread.create_eq_ok hstack).1 hcreate
    rfl

theorem newThread_ne_outOfThreads {program : Image} {priority : Option Priority} {limit : Nat} :
    m.newThread program priority ≠ .error (.outOfThreads limit) := by
  intro h
  simp only [newThread] at h
  split at h
  · cases h
  obtain h | ⟨stack, -, h⟩ := bind_eq_error.1 h
  · unfold Stack.create at h
    split at h <;> cases h
  · cases hcreate : Thread.create program stack (priority.getD program.priority)
        (m.config.timeslice (priority.getD program.priority)) with
    | error fault =>
      rw [hcreate] at h
      cases h
    | ok u =>
      rw [hcreate] at h
      cases h

theorem alters_place (h : m.freeSlot = .ok slot) (t : Thread) :
    Alters slot t m (m.place slot t) where
  thread := by rw [thread?_place_of_freeSlot h, if_pos rfl]
  other hj := by rw [thread?_place_of_freeSlot h, if_neg (Ne.symm hj)]
  rest := by
    simp only [place]
    split <;> rfl

/-! ## Loads -/

/-- A load of one of some programs either fails, and leaves the machine as it was, or puts a new
thread into the lowest free slot, and changes nothing else but the journal. It fails for want of
slots exactly if as many threads are loaded as the configuration allows, whatever is to be loaded.
-/
structure LoadsAtomically (programs : Image → Prop) (priority : Option Priority)
    (digest : Option (List UInt8)) (m : Machine κ μ)
    (r : Except LoadError ThreadId × Machine κ μ) : Prop where
  failed : ∀ {e : LoadError}, r.1 = .error e → r.2 = m
  outOfThreads : ∀ {limit : Nat}, r.1 = .error (.outOfThreads limit) ↔
    limit = m.config.maxThreads ∧ m.loadedThreads.length = m.config.maxThreads
  placed : ∀ {slot : ThreadId}, r.1 = .ok slot →
    m.thread? slot = none ∧ (∀ id < slot, (m.thread? id).isSome = true) ∧
      ∃ program, programs program ∧ Alters slot (m.loadedThread program priority digest) m r.2

/-- A load that fails is an error and the machine as it was. -/
theorem LoadsAtomically.eq_of_error {programs : Image → Prop} {priority : Option Priority}
    {digest : Option (List UInt8)} {r : Except LoadError ThreadId × Machine κ μ} {e : LoadError}
    (h : LoadsAtomically programs priority digest m r) (he : r.1 = .error e) : r = (.error e, m) :=
  Prod.ext he (h.failed he)

/-- The programs that are loaded may be told in other words. -/
theorem LoadsAtomically.imp {programs programs' : Image → Prop} {priority : Option Priority}
    {digest : Option (List UInt8)} {r : Except LoadError ThreadId × Machine κ μ}
    (h : LoadsAtomically programs priority digest m r)
    (hprograms : ∀ program, programs program → programs' program) :
    LoadsAtomically programs' priority digest m r where
  failed := h.failed
  outOfThreads := h.outOfThreads
  placed hslot := by
    obtain ⟨hfree, hlowest, program, hprogram, halters⟩ := h.placed hslot
    exact ⟨hfree, hlowest, program, hprograms program hprogram, halters⟩

section

variable (hsize : m.threads.size ≤ m.config.maxThreads)
include hsize

/-- A load takes a slot, examines what is to be loaded, makes a thread of it, and only then puts the
thread into the slot. -/
theorem loadsAtomically_of_examine {α : Type} (examine : Except LoadError α) (program : α → Image)
    (priority : Option Priority) (finish : Thread → Thread) (digest : Option (List UInt8))
    (hexamine : ∀ limit, examine ≠ .error (.outOfThreads limit))
    (hfinish : ∀ {program : Image} {t : Thread}, m.newThread program priority = .ok t →
      finish t = m.loadedThread program priority digest) :
    LoadsAtomically (fun image => ∃ a, examine = .ok a ∧ program a = image) priority digest m
      (m.answerLoad do
        let slot ← m.freeSlot
        let a ← examine
        let t ← m.newThread (program a) priority
        return (slot, m.place slot (finish t))) := by
  generalize hload : (do
      let slot ← m.freeSlot
      let a ← examine
      let t ← m.newThread (program a) priority
      return (slot, m.place slot (finish t)) : Except LoadError (ThreadId × Machine κ μ)) = load
  cases load with
  | error e =>
    refine ⟨fun _ => rfl, fun {limit} => ?_, (nomatch ·)⟩
    constructor
    · intro h
      cases h
      obtain hslot | ⟨slot, -, hload⟩ := bind_eq_error.1 hload
      · obtain ⟨he, hfull⟩ := (freeSlot_eq_error_iff hsize).1 hslot
        exact ⟨LoadError.outOfThreads.inj he, hfull⟩
      obtain hnone | ⟨a, -, hload⟩ := bind_eq_error.1 hload
      · exact absurd hnone (hexamine limit)
      obtain hnone | ⟨t, -, hload⟩ := bind_eq_error.1 hload
      · exact absurd hnone newThread_ne_outOfThreads
      · cases hload
    · rintro ⟨rfl, hfull⟩
      rw [(freeSlot_eq_error_iff hsize).2 ⟨rfl, hfull⟩] at hload
      cases hload
      rfl
  | ok r =>
    obtain ⟨slot, hslot, hload⟩ := bind_eq_ok.1 hload
    obtain ⟨a, ha, hload⟩ := bind_eq_ok.1 hload
    obtain ⟨t, ht, hload⟩ := bind_eq_ok.1 hload
    cases pure_eq_ok.1 hload
    refine ⟨(nomatch ·), fun {limit} => ⟨(nomatch ·), ?_⟩, fun h => ?_⟩
    · rintro ⟨-, hfull⟩
      cases hslot.symm.trans ((freeSlot_eq_error_iff hsize).2 ⟨rfl, hfull⟩)
    · cases h
      refine ⟨thread?_of_freeSlot hslot, fun id => isSome_of_lt_freeSlot hslot, program a,
        ⟨a, ha, rfl⟩, ?_⟩
      rw [← hfinish ht]
      exact alters_place hslot _

theorem loadsAtomically_load (image : Image) (priority : Option Priority) :
    LoadsAtomically (· = image) priority none m (m.answerLoad (m.load image priority)) := by
  have hload := loadsAtomically_of_examine hsize image.validate (fun _ => image) priority
    (fun t => t) none (fun limit h => ?_) newThread_eq_ok
  · exact hload.imp fun program ⟨_, _, h⟩ => h.symm
  · rw [Image.validate] at h
    split at h <;> cases h

theorem loadsAtomically_loadBytes (bytes : List UInt8) (priority : Option Priority) :
    LoadsAtomically (Executable.decode bytes = .ok ·) priority (some (Sha256.digest bytes)) m
      (m.answerLoad (m.loadBytes bytes priority)) := by
  have hload := loadsAtomically_of_examine hsize (Executable.decode bytes) (fun image => image)
    priority (fun t => { t with digest := some (Sha256.digest bytes) }) (some (Sha256.digest bytes))
    (fun limit h => ?_) fun ht => ?_
  · exact hload.imp fun program ⟨image, himage, h⟩ => h ▸ himage
  · obtain ⟨hbad, -⟩ | ⟨_, _, hbad, -⟩ | ⟨⟨_, hbad⟩, -⟩ := Executable.decode_error h <;> cases hbad
  · rw [newThread_eq_ok ht]
    rfl

end

/-- **Loads are atomic, and slots stable.** In every machine that a host can bring about, the load
of an image or of bytes, at any priority, has an answer. Either it is an error and the machine is as
it was, or the new thread is in the lowest free slot, and no other slot has changed, nor the
registry, the scheduler or anything else but the journal. The new thread is `Thread.loaded`: stopped
and not paused, all slots and the return value null, at the entry of main or at the first
instruction, with the top and the base above the globals and the frame of main. The answer is that
there is no free slot exactly if as many threads are loaded as the configuration allows, whatever is
to be loaded.

In the course of whatever the host and its callbacks do from then on, there are never more slots
than that, and a thread stays in its slot, with its program, stack size, priority, timeslice and
digest, until the host unloads it or shuts the machine down. -/
theorem loads_atomically (h : Reachable callbacks m) :
    (∀ fuel image priority, ∃ r,
      m.perform callbacks (fuel + 1) (.load image priority) = some r ∧
        LoadsAtomically (· = image) priority none m r) ∧
    (∀ fuel bytes priority, ∃ r,
      m.perform callbacks (fuel + 1) (.loadFile (.ok bytes) priority) = some r ∧
        LoadsAtomically (Executable.decode bytes = .ok ·) priority (some (Sha256.digest bytes)) m
          r) ∧
    ∀ {α : Type} (fuel : Nat) (program : HostProgram κ μ α),
      (∀ q ∈ program.course callbacks fuel m, q.machine.threads.size ≤ m.config.maxThreads) ∧
      ∀ before p since q after id t,
        program.course callbacks fuel m = before ++ p :: since ++ q :: after →
        p.machine.thread? id = some t →
        (∀ c ∈ p :: since, ∀ op, c.act = .begins op → ¬ op.Unloads id) →
        ∃ t', q.machine.thread? id = some t' ∧ t.Kin t' := by
  have hsize := h.size_le
  refine ⟨fun fuel image priority => ⟨_, rfl, loadsAtomically_load hsize image priority⟩,
    fun fuel bytes priority => ⟨_, rfl, loadsAtomically_loadBytes hsize bytes priority⟩,
    fun fuel program => ⟨fun q hq => ?_, ?_⟩⟩
  · exact ((evolves_of_mem_course hq).size hsize).2
  · intro before p since q after id t hcourse ht hkept
    obtain ⟨t', ht', hmoves⟩ :=
      exists_moves_of_isChain (HostProgram.stretch_of_course hcourse) ht hkept
    exact ⟨t', ht', hmoves.kin⟩

/-- After the run of one thread, another one is loaded into the next slot, from an image or from
bytes; that the configuration allows no third one is found before the image is looked at. An image
whose main function is missing and bytes that are cut short leave the machine as it was. -/
theorem loads_atomically_off_end :
    ∃ m m', (loadAndRun offEnd).run (perform (fun _ _ => .pure ()) 9)
        (create { maxThreads := 2 } (.ticking 0) ()) = some ((), m) ∧
      m.perform (fun _ _ => .pure ()) 1 (.load offEnd none) = some (.ok 1, m') ∧
      m.thread? 1 = none ∧ Alters 1 (m.loadedThread offEnd none none) m m' ∧
      (∀ image priority, ∃ r, m'.perform (fun _ _ => .pure ()) 1 (.load image priority) = some r ∧
        r.1 = .error (.outOfThreads 2)) ∧
      (∃ m', m.perform (fun _ _ => .pure ()) 1
          (.loadFile (.ok (Executable.encode offEnd)) none) = some (.ok 1, m') ∧
        Alters 1 (m.loadedThread offEnd none (some (Sha256.digest (Executable.encode offEnd)))) m
          m') ∧
      m.perform (fun _ _ => .pure ()) 1 (.load { offEnd with main := some 0 } none) =
        some (.error (.malformed (.mainOutOfRange 0 0)), m) ∧
      m.perform (fun _ _ => .pure ()) 1
          (.loadFile (.ok ((Executable.encode offEnd).take 30)) none) =
        some (.error (.malformed .unexpectedEnd), m) := by
  have hran : ((loadAndRun offEnd).run (perform (fun _ _ => .pure ()) 9)
      (create { maxThreads := 2 } (.ticking 0) ())).bind (fun r =>
        (r.2.perform (fun _ _ => .pure ()) 1 (.load offEnd none)).map fun r' =>
          (r'.1, r'.2.loadedThreads.length, r'.2.config.maxThreads)) = some (.ok 1, 2, 2) := by
    decide +kernel
  have hothers : ((loadAndRun offEnd).run (perform (fun _ _ => .pure ()) 9)
      (create { maxThreads := 2 } (.ticking 0) ())).map (fun r =>
        ((r.2.perform (fun _ _ => .pure ()) 1
          (.loadFile (.ok (Executable.encode offEnd)) none)).map Prod.fst,
        (r.2.perform (fun _ _ => .pure ()) 1
          (.load { offEnd with main := some 0 } none)).map Prod.fst,
        (r.2.perform (fun _ _ => .pure ()) 1
          (.loadFile (.ok ((Executable.encode offEnd).take 30)) none)).map Prod.fst)) =
      some (some (.ok 1), some (.error (.malformed (.mainOutOfRange 0 0))),
        some (.error (.malformed .unexpectedEnd))) := by
    decide +kernel
  obtain ⟨⟨⟨⟩, m⟩, hrun, hran⟩ := Option.bind_eq_some_iff.1 hran
  simp only [hrun, Option.map_some, Option.some.injEq, Prod.mk.injEq] at hothers
  obtain ⟨hbytes, hinvalid, hcut⟩ := hothers
  obtain ⟨⟨answer, m'⟩, hload, hanswer⟩ := Option.map_eq_some_iff.1 hran
  simp only [Prod.mk.injEq] at hanswer
  obtain ⟨rfl, hloaded, hlimit⟩ := hanswer
  have hreachable := (Reachable.create { maxThreads := 2 } (.ticking 0) ()).program hrun
  obtain ⟨himages, hfiles, -⟩ := loads_atomically hreachable
  obtain ⟨r, hr, hatomic⟩ := himages 0 offEnd none
  cases hload.symm.trans hr
  obtain ⟨hfree, -, program, rfl, halters⟩ := hatomic.placed rfl
  refine ⟨m, m', hrun, hload, hfree, halters, fun image priority => ?_, ?_, ?_, ?_⟩
  · obtain ⟨r, hr, hatomic⟩ := (loads_atomically (hreachable.perform hload)).1 0 image priority
    exact ⟨r, hr, hatomic.outOfThreads.2 ⟨hlimit.symm, hloaded.trans hlimit.symm⟩⟩
  · obtain ⟨⟨_, m₁⟩, hr, hatomic⟩ := hfiles 0 (Executable.encode offEnd) none
    rw [hr] at hbytes
    cases hbytes
    obtain ⟨-, -, program, hprogram, halters⟩ := hatomic.placed rfl
    have hdecode : Executable.decode (Executable.encode offEnd) = .ok offEnd := by
      decide +kernel
    cases hdecode.symm.trans hprogram
    exact ⟨m₁, hr, halters⟩
  · obtain ⟨r, hr, hatomic⟩ := himages 0 { offEnd with main := some 0 } none
    rw [hr] at hinvalid
    rw [hr, hatomic.eq_of_error (Option.some.inj hinvalid)]
  · obtain ⟨r, hr, hatomic⟩ := hfiles 0 ((Executable.encode offEnd).take 30) none
    rw [hr] at hcut
    rw [hr, hatomic.eq_of_error (Option.some.inj hcut)]

end Machine
end ScriptMachine
