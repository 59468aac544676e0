import Mathlib.Logic.Relation
import ScriptMachine.Proofs.Footprint
import ScriptMachine.Proofs.Threads

/-!
# What becomes of threads

`Thread.Born` says how a thread comes into being, and `Thread.Move` lists what can happen to it
from then on: what the host does to it, the instructions it executes, and the faults it meets.

No operation but a load makes a thread: after any other one, the thread in a slot is what has become
of the thread that was there before (`Machine.Descends`). A run of threads whose callbacks operate
on the machine is made of such steps and of loads (`Machine.Evolves`). So a property of threads that
holds at birth and survives every move holds of every thread of a machine, whatever is done to the
machine: by its host, by its scheduler, or by callbacks that operate on the machine while a thread
waits for them.
-/

namespace ScriptMachine

namespace Thread

/-- A thread as loading makes it: for a valid image, with the frames of its run opened. -/
inductive Born : Thread → Prop
  | load {image : Image} {capacity : Nat} {stack : Stack} {priority : Priority}
      {timeslice : UInt64} {t : Thread} (digest : Option (List UInt8)) :
      image.Valid → Stack.create capacity = .ok stack →
      Thread.create image stack priority timeslice = .ok t → Born { t with digest }

/-- What can happen to a thread. -/
inductive Move (t : Thread) : Thread → Prop
  | reset {t' : Thread} : t.reset = .ok t' → Move t t'
  /-- It is started, stopped, paused or woken, or gets a turn. -/
  | control (running paused : Bool) (wakeAt : UInt64) (stats : Stats) :
      Move t { t with running, paused, wakeAt, stats }
  | pass {v : HostValue} {s : Stack} : t.stack.push v.toValue = .ok s →
      Move t { t with stack := s }
  | answer (v : Option HostValue) :
      Move t { t with returnValue := (v.map HostValue.toValue).getD t.returnValue }
  | drop {n : Nat} : n ≤ t.stack.top → Move t { t with stack := t.stack.drop n }
  /-- The host drops more than the stack holds. -/
  | overdrawn : Move t (t.stopWith .stackUnderflow)
  /-- The host sets up a call. -/
  | enter {f entry : Nat} {sync : Bool} {t' : Thread} :
      t.call f t.ip sync = (.ok entry, t') → Move t { t' with ip := entry }
  | refused {f : Nat} {sync : Bool} {fault : Fault} {t' : Thread} :
      f < t.program.functions.size → t.call f t.ip sync = (.error fault, t') →
      Move t (t'.stopWith fault)
  /-- It executes an instruction of its own. -/
  | own {i : Instruction} {now : UInt64} {pinned : Bool} {flow : Flow} {t' : Thread} :
      t.instruction? t.ip = some i → i.op ≠ .callHost →
      t.execute i now pinned = (.ok flow, t') → Move t (t'.settle t.ip flow)
  | fault {i : Instruction} {now : UInt64} {pinned : Bool} {fault : Fault} {t' : Thread} :
      t.instruction? t.ip = some i → i.op ≠ .callHost →
      t.execute i now pinned = (.error fault, t') → Move t (t'.stopWith fault)
  | off : t.instruction? t.ip = none →
      Move t (t.stopWith (.instructionPointer t.ip t.program.instructions.size))
  /-- It begins a host call. -/
  | host {i : Instruction} : t.instruction? t.ip = some i → i.op = .callHost →
      Move t { t with ip := t.ip + 1 }
  | unnamed {i : Instruction} {fault : Fault} : t.instruction? t.ip = some i →
      i.op = .callHost → i.hostCallTarget 0 = .error fault → Move t (t.stopWith fault)
  | unresolved (name : String) : Move t (t.stopWith (.unresolvedHostCall name))

theorem capacity_openFrames {program : Image} {s s' : Stack} (h : openFrames program s = .ok s') :
    s'.capacity = s.capacity := by
  obtain ⟨s₁, hglobals, h⟩ := bind_eq_ok.1 h
  have hs₁ := Stack.capacity_pushFrame hglobals
  split at h
  · exact (Stack.capacity_pushFrame h).trans hs₁
  · cases pure_eq_ok.1 h
    exact hs₁

theorem kin_reset {t t' : Thread} (h : t.reset = .ok t') : t.Kin t' := by
  obtain ⟨s, hs, h⟩ := bind_eq_ok.1 h
  cases h
  exact ⟨rfl, (capacity_openFrames hs).trans (Stack.capacity_clear _), rfl, rfl, rfl⟩

/-- What happens to a thread leaves it its script. -/
theorem Move.kin {t t' : Thread} (h : Move t t') : t.Kin t' := by
  cases h with
  | reset hreset => exact kin_reset hreset
  | pass hpush => exact .of_capacity (Stack.capacity_push hpush)
  | drop _ => exact .of_capacity rfl
  | enter hcall => exact (kin_call hcall).trans ⟨rfl, rfl, rfl, rfl, rfl⟩
  | refused _ hcall => exact (kin_call hcall).trans ⟨rfl, rfl, rfl, rfl, rfl⟩
  | own _ _ hexec => exact (keeps_execute hexec).toKin.trans ⟨rfl, rfl, rfl, rfl, rfl⟩
  | fault _ _ hexec => exact (keeps_execute_error hexec).toKin.trans ⟨rfl, rfl, rfl, rfl, rfl⟩
  | _ => exact ⟨rfl, rfl, rfl, rfl, rfl⟩

/-- What has become of a thread, by any number of moves. -/
def Moves : Thread → Thread → Prop := Relation.ReflTransGen Move

/-- A property that holds of new threads and survives every move. -/
structure Invariant (P : Thread → Prop) : Prop where
  born : ∀ {t : Thread}, Born t → P t
  move : ∀ {t t' : Thread}, Move t t' → P t → P t'

/-- What survives every move survives any number of them. -/
theorem Moves.keeps {P : Thread → Prop} (hP : ∀ {t t' : Thread}, Move t t' → P t → P t')
    {t t' : Thread} (h : Moves t t') (ht : P t) : P t' := by
  induction h with
  | refl => exact ht
  | tail _ hmove ih => exact hP hmove ih

theorem Moves.kin {t t' : Thread} (h : Moves t t') : t.Kin t' :=
  h.keeps (fun hmove hkin => hkin.trans hmove.kin) (.refl t)

end Thread

namespace Machine

variable {κ μ : Type} {P : Thread → Prop} {m m' m'' : Machine κ μ} {id : ThreadId} {t t' : Thread}
  {now : UInt64} {invoke : Invoke κ μ}

/-! ## Slots -/

@[simp] theorem size_setThread (m : Machine κ μ) (id : ThreadId) (t : Option Thread) :
    (m.setThread id t).threads.size = m.threads.size := Array.size_setIfInBounds ..

@[simp] theorem size_modifyThread (m : Machine κ μ) (id : ThreadId) (f : Thread → Thread) :
    (m.modifyThread id f).threads.size = m.threads.size := Array.size_modify ..

@[simp] theorem size_log (m : Machine κ μ) (event : Event) :
    (m.log event).threads.size = m.threads.size := rfl

@[simp] theorem size_faultThread (m : Machine κ μ) (id : ThreadId) (fault : Fault) :
    (m.faultThread id fault).threads.size = m.threads.size := by
  unfold faultThread
  split <;> simp

@[simp] theorem size_printTrace (m : Machine κ μ) (id : ThreadId) (t : Thread) (i : Instruction) :
    (m.printTrace id t i).threads.size = m.threads.size := by
  unfold printTrace
  split <;> rfl

@[simp] theorem size_executeOwn (m : Machine κ μ) (id : ThreadId) (i : Instruction) (now : UInt64) :
    (m.executeOwn id i now).2.threads.size = m.threads.size := by
  cases ht : m.thread? id with
  | none => simp [executeOwn, takeThread, ht]
  | some t =>
    simp only [executeOwn, takeThread, ht]
    split <;> simp

/-- A thread that executes an instruction of its own makes no slots. -/
theorem size_step_own {i : Instruction} {r : Except Fault Flow} (ht : m.thread? id = some t)
    (hi : t.instruction? t.ip = some i) (hop : i.op ≠ .callHost)
    (h : m.step invoke id now = some (r, m')) : m'.threads.size = m.threads.size := by
  have hsize := size_executeOwn (m.printTrace id t i) id i now
  rw [size_printTrace] at hsize
  simp only [step, ht, hi, dispatch_own hop] at h
  split at h
  · cases h
  all_goals
    rename_i hown
    cases h
    rw [Option.some.inj hown] at hsize
    simpa using hsize

/-- Nor does the call of a host function without a callback. -/
theorem size_step_host {i : Instruction} {r : Except Fault Flow} (ht : m.thread? id = some t)
    (hi : t.instruction? t.ip = some i) (hop : i.op = .callHost)
    (hcall : ∀ call, i.hostCallTarget 0 = .ok call →
      m.registry.resolve? (t.hostCallName call) id = none)
    (h : m.step invoke id now = some (r, m')) : m'.threads.size = m.threads.size := by
  cases htarget : i.hostCallTarget 0 with
  | error fault =>
    simp only [step, ht, hi, dispatch, hop, htarget] at h
    cases h
    exact size_printTrace ..
  | ok call =>
    rw [step_host invoke now ht hi hop htarget, hcall call htarget] at h
    cases h
    exact size_printTrace ..

/-! ## Descent -/

/-- The threads of a machine are those it had before, and what has become of them. It may have lost
some, and it has no slots more. -/
structure Descends (m m' : Machine κ μ) : Prop where
  thread : ∀ {id : ThreadId} {t' : Thread}, m'.thread? id = some t' →
    ∃ t, m.thread? id = some t ∧ t.Moves t'
  size : m'.threads.size ≤ m.threads.size
  config : m'.config = m.config

namespace Descends

theorem trans (h : Descends m m') (h' : Descends m' m'') : Descends m m'' where
  thread ht := by
    obtain ⟨t₁, ht₁, hmoves'⟩ := h'.thread ht
    obtain ⟨t, ht, hmoves⟩ := h.thread ht₁
    exact ⟨t, ht, hmoves.trans hmoves'⟩
  size := Nat.le_trans h'.size h.size
  config := h'.config.trans h.config

/-- What changes no thread. -/
theorem same (hthreads : m'.threads = m.threads) (hconfig : m'.config = m.config) :
    Descends m m' where
  thread {id t'} ht := ⟨t', by rwa [thread?, hthreads] at ht, .refl⟩
  size := Nat.le_of_eq (congrArg Array.size hthreads)
  config := hconfig

theorem refl (m : Machine κ μ) : Descends m m := same rfl rfl

theorem alter (ht : m.thread? id = some t) (halters : Alters id t' m m')
    (hsize : m'.threads.size = m.threads.size) (hmoves : t.Moves t') : Descends m m' where
  thread {j u} hu := by
    by_cases hj : j = id
    · subst hj
      rw [halters.thread] at hu
      cases hu
      exact ⟨t, ht, hmoves⟩
    · rw [halters.other hj] at hu
      exact ⟨u, hu, .refl⟩
  size := Nat.le_of_eq hsize
  config := by rw [halters.rest]

theorem set (ht : m.thread? id = some t) (hmoves : t.Moves t') :
    Descends m (m.setThread id (some t')) :=
  alter ht (.setThread (lt_size_of_thread? ht) t') (size_setThread ..) hmoves

theorem fault (ht : m.thread? id = some t) {fault : Fault} (hmoves : t.Moves (t'.stopWith fault)) :
    Descends m ((m.setThread id (some t')).faultThread id fault) := by
  have hset := Alters.setThread (lt_size_of_thread? ht) t'
  exact alter ht (hset.trans (.faultThread hset.thread fault)) (by simp) hmoves

theorem modify {f : Thread → Thread} (hf : ∀ t, Thread.Move t (f t)) :
    Descends m (m.modifyThread id f) where
  thread {j u} hu := by
    rw [thread?_modifyThread] at hu
    split at hu
    · obtain ⟨t, ht, rfl⟩ := Option.map_eq_some_iff.1 hu
      exact ⟨t, ht, .single (hf t)⟩
    · exact ⟨u, hu, .refl⟩
  size := Nat.le_of_eq (size_modifyThread ..)
  config := rfl

theorem onThread {f : Thread → Except CallError Thread}
    (hf : ∀ {t t' : Thread}, f t = .ok t' → t.Move t') : Descends m (m.onThread id f).2 := by
  simp only [Machine.onThread]
  split
  · exact refl m
  · rename_i t ht
    split
    · rename_i t' ht'
      exact set ht (.single (hf ht'))
    · exact refl m

theorem logged {event : Event} {r : Except CallError Unit × Machine κ μ} (h : Descends m r.2) :
    Descends m (Machine.logged event r).2 := by
  simp only [Machine.logged]
  split
  · exact h.trans (same rfl rfl)
  · exact h

/-! ## What the host does -/

theorem unload (id : ThreadId) : Descends m (m.unload id) := by
  simp only [Machine.unload]
  split
  · exact refl m
  · refine ⟨fun {j u} hu => ?_, Nat.le_of_eq (size_setThread ..), rfl⟩
    change (m.setThread id none).thread? j = some u at hu
    rw [thread?_setThread] at hu
    split at hu
    · cases hu
    · exact ⟨u, hu, .refl⟩

theorem shutdown : Descends m m.shutdown where
  thread ht := by simp [Machine.shutdown, thread?, Machine.log, Machine.emit] at ht
  size := Nat.zero_le _
  config := by
    have hunloads (ids : List ThreadId) (m : Machine κ μ) :
        (ids.foldl Machine.unload m).config = m.config := by
      induction ids generalizing m with
      | nil => rfl
      | cons id ids ih => exact (ih (m.unload id)).trans (unload id).config
    exact hunloads m.loadedThreads m

theorem reset (id : ThreadId) : Descends m (m.reset id).2 := by
  refine (onThread fun {t t'} h => ?_).logged
  cases hreset : t.reset with
  | error fault =>
    rw [hreset] at h
    cases h
  | ok u =>
    rw [hreset] at h
    cases h
    exact .reset hreset

theorem start (id : ThreadId) : Descends m (m.start id).2 := by
  have hon : Descends m (m.onThread id fun t => .ok { t with running := true }).2 :=
    onThread fun {t t'} h => by
      cases h
      exact .control true _ _ _
  simp only [Machine.start]
  split
  · rename_i hr
    rw [hr] at hon
    exact hon
  · rename_i hr
    rw [hr] at hon
    split
    · exact hon.trans (same rfl rfl)
    · exact hon.trans (same rfl rfl)

theorem stop (id : ThreadId) : Descends m (m.stop id).2 :=
  (onThread fun {t t'} h => by
    cases h
    exact .control false _ _ _).logged

theorem pause (id : ThreadId) (ms : UInt64) : Descends m (m.pause id ms).2 := by
  have hread : Descends m m.now.2 := same rfl rfl
  exact hread.trans (onThread fun {t t'} h => by
    cases h
    exact .control _ true _ _)

theorem unpause (id : ThreadId) : Descends m (m.unpause id).2 :=
  onThread fun {t t'} h => by
    cases h
    exact .control _ false _ _

theorem pass (id : ThreadId) (v : HostValue) : Descends m (m.pass id v).2 := by
  refine onThread fun {t t'} h => ?_
  split at h
  · rename_i s hs
    cases h
    exact .pass hs
  · cases h

theorem hostReturn (id : ThreadId) (params : Nat) (v : Option HostValue) :
    Descends m (m.hostReturn id params v) := by
  unfold Machine.hostReturn
  split
  · exact refl m
  · rename_i t ht
    let answered : Thread :=
      { t with returnValue := (v.map HostValue.toValue).getD t.returnValue }
    have hanswer : t.Moves answered := .single (.answer v)
    simp only
    split
    · rename_i s hs
      obtain ⟨hle, rfl⟩ := Stack.popFrame_eq_ok.1 hs
      exact set ht (hanswer.tail (.drop (t := answered) hle))
    · rename_i hs
      obtain ⟨-, rfl⟩ := Stack.popFrame_eq_error.1 hs
      exact fault ht (hanswer.tail (.overdrawn (t := answered)))

/-! ## Calls -/

theorem beginCall (id : ThreadId) (name : String) (sync : Bool) :
    Descends m (m.beginCall id name sync).2 := by
  simp only [Machine.beginCall]
  split
  · exact refl m
  · rename_i t ht
    split
    · exact refl m
    · rename_i f hf
      split
      · rename_i hcall
        exact set ht (.single (.enter hcall))
      · rename_i hcall
        exact fault ht (.single (.refused (Image.lt_size_of_findFunction? hf) hcall))

theorem pin (id : ThreadId) : Descends m (m.pin id) :=
  (modify fun t => .control true t.paused t.wakeAt t.stats).trans (same rfl rfl)

theorem unpin (id : ThreadId) (saved : Scheduler) (wasRunning : Bool) (outcome : RunOutcome) :
    Descends m (m.unpin id saved wasRunning outcome).2 := by
  have hgiven : Descends m { m with scheduler := saved } := same rfl rfl
  simp only [Machine.unpin]
  split
  · exact hgiven.trans (modify fun t => .control wasRunning t.paused t.wakeAt t.stats)
  · exact hgiven

/-! ## Turns -/

theorem ready (id : ThreadId) (now : UInt64) : Descends m (m.ready id now).2 := by
  rcases ready_snd m id now with h | h
  · rw [h]
    exact refl m
  · rw [h]
    exact modify fun t => .control t.running false t.wakeAt t.stats

theorem beginTurn (first fallback : ThreadId) (now : UInt64) :
    Descends m (m.beginTurn first fallback now) := by
  refine trans (trans ?_ (modify fun t => ?_)) (same rfl rfl)
  · exact same rfl rfl
  · exact .control t.running t.paused t.wakeAt _

theorem schedule (runnable : ThreadId) (now : UInt64) :
    Descends m (m.schedule runnable now).2 := by
  rcases schedule_snd m runnable now with h | ⟨first, h⟩
  · rw [h]
    exact refl m
  · rw [h]
    exact beginTurn first runnable now

/-! ## Instructions -/

/-- At the beginning of a callback. -/
theorem entering {i : Instruction} (ht : m.thread? id = some t) (hi : t.instruction? t.ip = some i)
    (hop : i.op = .callHost) : Descends m (m.entering id t i) :=
  alter ht (entering_alters ht i) (by simp [Machine.entering]) (.single (.host hi hop))

theorem settle (id : ThreadId) (ip : Nat) : Descends m (m.modifyThread id (·.settle ip .stay)) :=
  modify fun t => .control t.running t.paused t.wakeAt _

/-- An instruction that calls no callback. -/
theorem step {flow : Flow} (h : m.step invoke id now = some (.ok flow, m'))
    (hown : ∀ t i call, m.thread? id = some t → t.instruction? t.ip = some i → i.op = .callHost →
      i.hostCallTarget 0 = .ok call → m.registry.resolve? (t.hostCallName call) id = none) :
    Descends m m' := by
  cases advances_of_step h with
  | unloaded _ => exact refl m
  | own ht hi hop hexec halters =>
    exact alter ht halters (size_step_own ht hi hop h) (.single (.own hi hop hexec))
  | host ht hi hop hcall hresolve _ =>
    rw [hown _ _ _ ht hi hop hcall] at hresolve
    cases hresolve

/-- An instruction that meets a fault. -/
theorem step_error {fault : Fault} (h : m.step invoke id now = some (.error fault, m')) :
    Descends m (m'.faultThread id fault) := by
  have alter {t t' : Thread} (ht : m.thread? id = some t) (halters : Alters id t' m m')
      (hsize : m'.threads.size = m.threads.size) (hmove : t.Move (t'.stopWith fault)) :
      Descends m (m'.faultThread id fault) :=
    .alter ht (halters.trans (.faultThread halters.thread fault)) (by simp [hsize]) (.single hmove)
  cases advances_of_step h with
  | off ht hi => exact alter ht (.refl ht) rfl (.off hi)
  | fault ht hi hop hexec halters =>
    exact alter ht halters (size_step_own ht hi hop h) (.fault hi hop hexec)
  | unnamed ht hi hop hcall halters =>
    refine alter ht halters (size_step_host ht hi hop (fun call hok => ?_) h)
      (.unnamed hi hop hcall)
    cases hcall.symm.trans hok
  | unresolved ht hi hop hcall hresolve halters =>
    refine alter ht halters (size_step_host ht hi hop (fun call hok => ?_) h) (.unresolved _)
    cases hcall.symm.trans hok
    exact hresolve

end Descends

/-! ## Loading -/

/-- A thread for a valid image is new, whatever digest it keeps. -/
theorem born_of_newThread {image : Image} {priority : Option Priority} (hvalid : image.Valid)
    (h : m.newThread image priority = .ok t) (digest : Option (List UInt8)) :
    Thread.Born { t with digest } := by
  unfold newThread at h
  simp only at h
  split at h
  · cases h
  obtain ⟨stack, hstack, h⟩ := bind_eq_ok.1 h
  cases hcreate : Thread.create image stack (priority.getD image.priority)
      (m.config.timeslice (priority.getD image.priority)) with
  | error fault =>
    rw [hcreate] at h
    cases h
  | ok t' =>
    rw [hcreate] at h
    cases h
    exact .load digest hvalid hstack hcreate

/-- A new thread has the image for its program. -/
theorem program_of_newThread {image : Image} {priority : Option Priority}
    (h : m.newThread image priority = .ok t) : t.program = image := by
  unfold newThread at h
  simp only at h
  split at h
  · cases h
  obtain ⟨stack, -, h⟩ := bind_eq_ok.1 h
  cases hcreate : Thread.create image stack (priority.getD image.priority)
      (m.config.timeslice (priority.getD image.priority)) with
  | error fault =>
    rw [hcreate] at h
    cases h
  | ok u =>
    rw [hcreate] at h
    cases h
    obtain ⟨s, -, hcreate⟩ := bind_eq_ok.1 hcreate
    cases hcreate
    rfl

/-- What an attempt to load one of some programs leaves: a new thread for it in the free slot, or
the machine as it was. -/
inductive Loaded (programs : Image → Prop) (m : Machine κ μ) : Machine κ μ → Prop
  | failed : Loaded programs m m
  | placed {slot : ThreadId} {t : Thread} : m.freeSlot = .ok slot → Thread.Born t →
      programs t.program → Loaded programs m (m.place slot t)

theorem loaded_load (m : Machine κ μ) (image : Image) (priority : Option Priority) :
    Loaded (· = image) m (m.answerLoad (m.load image priority)).2 := by
  cases hload : m.load image priority with
  | error e => exact .failed
  | ok r =>
    obtain ⟨slot, hslot, hload⟩ := bind_eq_ok.1 hload
    obtain ⟨_, hvalid, hload⟩ := bind_eq_ok.1 hload
    obtain ⟨t, ht, hload⟩ := bind_eq_ok.1 hload
    cases pure_eq_ok.1 hload
    exact .placed hslot (born_of_newThread (Image.validate_eq_ok.1 hvalid) ht t.digest)
      (program_of_newThread ht)

theorem loaded_loadFile (m : Machine κ μ) (contents : Except FileError (List UInt8))
    (priority : Option Priority) :
    Loaded (fun image => ∃ bytes, contents = .ok bytes ∧ Executable.decode bytes = .ok image) m
      (m.answerLoad (m.loadFile contents priority)).2 := by
  cases contents with
  | error e => exact .failed
  | ok bytes =>
    rw [loadFile]
    cases hload : m.loadBytes bytes priority with
    | error e => exact .failed
    | ok r =>
      obtain ⟨slot, hslot, hload⟩ := bind_eq_ok.1 hload
      obtain ⟨image, hdecode, hload⟩ := bind_eq_ok.1 hload
      obtain ⟨t, ht, hload⟩ := bind_eq_ok.1 hload
      cases pure_eq_ok.1 hload
      refine .placed hslot (born_of_newThread (Executable.decode_eq_ok.1 hdecode).2 ht _)
        ⟨bytes, rfl, ?_⟩
      rwa [← program_of_newThread ht] at hdecode

end Machine

/-! ## Programs of the host -/

/-- An operation that has no points within it: it runs no threads. -/
def HostOp.Atomic {κ : Type} : HostOp κ → Prop
  | run _ | call .. => False
  | _ => True

/-- An operation that may make a new thread. -/
def HostOp.Loads {κ : Type} : HostOp κ → Prop
  | load .. | loadFile .. => True
  | _ => False

/-- What every operation and every change of the host's memory keeps, a program keeps. -/
theorem HostProgram.run_keeps {κ μ α : Type} {Q : Machine κ μ → Prop}
    {carryOut : (op : HostOp κ) → Machine κ μ → Option (op.Answer × Machine κ μ)}
    (hop : ∀ (op : HostOp κ) (m : Machine κ μ) (a : op.Answer) (m' : Machine κ μ), Q m →
      carryOut op m = some (a, m') → Q m')
    (hremember : ∀ (f : μ → μ) (m : Machine κ μ), Q m → Q { m with memory := f m.memory })
    {p : HostProgram κ μ α} {m m' : Machine κ μ} {a : α} (h : Q m)
    (hrun : p.run carryOut m = some (a, m')) : Q m' := by
  induction p generalizing m with
  | pure b =>
    cases hrun
    exact h
  | perform op next ih =>
    simp only [HostProgram.run] at hrun
    split at hrun
    · cases hrun
    · rename_i b m₁ hcarry
      exact ih b (hop op m b m₁ h hcarry) hrun
  | inspect next ih => exact ih m h hrun
  | remember f next ih => exact ih (hremember f m h) hrun

namespace Machine

variable {κ μ : Type} {P : Thread → Prop} {m m' m'' : Machine κ μ} {id : ThreadId} {t t' : Thread}
  {now : UInt64} {invoke : Invoke κ μ} {callbacks : Callbacks κ μ} {fuel : Nat}

/-! ## Operations -/

/-- The threads of a machine descend from those before, or one is loaded. -/
def Changes (m m' : Machine κ μ) : Prop := Descends m m' ∨ ∃ programs, Loaded programs m m'

/-- An operation that neither runs threads nor loads one. -/
theorem descends_of_perform {op : HostOp κ} {answer : op.Answer} (hop : op.Atomic)
    (hload : ¬ op.Loads) (h : m.perform callbacks fuel op = some (answer, m')) : Descends m m' := by
  cases fuel with
  | zero => cases h
  | succ fuel =>
    have answered {α : Type} {r : α × Machine κ μ} {a : α} (hr : some r = some (a, m'))
        (hdescends : Descends m r.2) : Descends m m' := of_answer hr hdescends
    cases op with
    | load | loadFile => exact absurd trivial hload
    | unload id => exact answered h (.unload id)
    | reset id => exact answered h (.reset id)
    | start id => exact answered h (.start id)
    | stop id => exact answered h (.stop id)
    | pause id ms => exact answered h (.pause id ms)
    | unpause id => exact answered h (.unpause id)
    | run | call => exact hop.elim
    | invoke id name => exact answered h (.beginCall id name false)
    | pass id v => exact answered h (.pass id v)
    | hostReturn id params v => exact answered h (.hostReturn id params v)
    | shutdown => exact answered h .shutdown
    | _ => exact answered h (.same rfl rfl)

/-- An operation that runs no threads loads one at most. -/
theorem changes_of_perform {op : HostOp κ} {answer : op.Answer} (hop : op.Atomic)
    (h : m.perform callbacks fuel op = some (answer, m')) : Changes m m' := by
  by_cases hload : op.Loads
  · cases fuel with
    | zero => cases h
    | succ fuel =>
      cases op with
      | load image priority => exact of_answer h (.inr ⟨_, loaded_load m image priority⟩)
      | loadFile contents priority =>
        exact of_answer h (.inr ⟨_, loaded_loadFile m contents priority⟩)
      | _ => exact hload.elim
  · exact .inl (descends_of_perform hop hload h)

/-! ## Evolution -/

/-- One machine comes from another by changes in which at most one thread is loaded at a time. -/
def Evolves : Machine κ μ → Machine κ μ → Prop := Relation.ReflTransGen Changes

theorem Descends.evolves (h : Descends m m') : Evolves m m' := .single (.inl h)

namespace Evolves

theorem trans (h : Evolves m m') (h' : Evolves m' m'') : Evolves m m'' :=
  Relation.ReflTransGen.trans h h'

/-- Callbacks evolve the machine as their operations do. -/
theorem of_invoke
    (hop : ∀ (op : HostOp κ) (m m' : Machine κ μ) (a : op.Answer),
      m.perform callbacks fuel op = some (a, m') → Evolves m m')
    {callback : κ} (h : Machine.invoke callbacks fuel callback id m = some m') : Evolves m m' := by
  obtain ⟨r, hrun, rfl⟩ := Option.map_eq_some_iff.1 h
  exact HostProgram.run_keeps (Q := Evolves m)
    (fun op _ a _ h hperform => h.trans (hop op _ _ a hperform))
    (fun f m₁ h =>
      have hremember : Descends m₁ { m₁ with memory := f m₁.memory } := .same rfl rfl
      h.trans hremember.evolves) .refl hrun

section

variable (hinvoke : ∀ {callback : κ} {id : ThreadId} {m m' : Machine κ μ},
  invoke callback id m = some m' → Evolves m m')
include hinvoke

/-- An instruction, with the callback that it may call. -/
theorem step {flow : Flow} (h : m.step invoke id now = some (.ok flow, m')) : Evolves m m' := by
  cases advances_of_step h with
  | unloaded _ => exact .refl
  | own ht hi hop hexec halters =>
    exact (Descends.alter ht halters (size_step_own ht hi hop h)
      (.single (.own hi hop hexec))).evolves
  | host ht hi hop _ _ hcallback =>
    exact ((Descends.entering ht hi hop).evolves.trans (hinvoke hcallback)).trans
      (Descends.settle id _).evolves

theorem attempt {flow : Option Flow} (h : m.attempt invoke id now = some (flow, m')) :
    Evolves m m' := by
  have hready : Descends m (m.ready id now).2 := .ready id now
  obtain ⟨-, hr⟩ | ⟨m₁, hr, ⟨f, -, hstep⟩ | ⟨fault, m₂, -, hstep, rfl⟩⟩ := attempt_cases h
  · rw [hr] at hready
    exact hready.evolves
  · rw [hr] at hready
    exact hready.evolves.trans (step hinvoke hstep)
  · rw [hr] at hready
    exact (hready.trans (.step_error hstep)).evolves

theorem cycle {start : UInt64} {budget : Budget} {outcome : Option RunOutcome}
    (h : m.cycle invoke start budget = some (outcome, m')) : Evolves m m' := by
  obtain ⟨-, rfl, -⟩ | ⟨runnable, id, m₁, flow, -, hschedule, hattempt, -⟩ := cycle_cases h
  · exact .refl
  · have hread : Descends m m.now.2 := .same rfl rfl
    have hscheduled := hread.trans (.schedule runnable m.now.1)
    rw [hschedule] at hscheduled
    exact hscheduled.evolves.trans (attempt hinvoke hattempt)

theorem run {budget : Budget} {outcome : RunOutcome}
    (h : m.run invoke fuel budget = some (outcome, m')) : Evolves m m' := by
  have hread : Descends m m.now.2 := .same rfl rfl
  exact cycles_keep (Q := Evolves m) (fun h hcycle => h.trans (cycle hinvoke hcycle))
    hread.evolves h

theorem callFunction {name : String} {r : Except CallError Unit}
    (h : m.callFunction invoke fuel id name = some (r, m')) : Evolves m m' := by
  have hbegun : Descends m (m.beginCall id name true).2 := .beginCall id name true
  obtain ⟨e, -, hbegin⟩ | ⟨t, m₁, outcome, ended, -, hbegin, hrun, hended⟩ :=
    callFunction_eq_some h
  · rw [hbegin] at hbegun
    exact hbegun.evolves
  · rw [hbegin] at hbegun
    rw [show m' = _ from congrArg Prod.snd hended]
    exact ((hbegun.trans (.pin id)).evolves.trans (run hinvoke hrun)).trans
      (Descends.unpin id _ _ _).evolves

end

/-- Whatever the host does to a machine, the machine evolves, and so it does while callbacks operate
on it. -/
theorem perform (callbacks : Callbacks κ μ) (fuel : Nat) (op : HostOp κ) {answer : op.Answer}
    (h : m.perform callbacks fuel op = some (answer, m')) : Evolves m m' := by
  induction fuel generalizing op m m' with
  | zero => cases h
  | succ fuel ih =>
    have hinvoke {callback : κ} {id : ThreadId} {m m' : Machine κ μ}
        (h : Machine.invoke callbacks fuel callback id m = some m') : Evolves m m' :=
      of_invoke (fun op _ _ _ h => ih op h) h
    cases op with
    | run budget => exact run hinvoke h
    | call id name => exact callFunction hinvoke h
    | _ =>
      refine .single (changes_of_perform ?_ h)
      trivial

/-- So do callbacks. -/
theorem callback {f : κ} (h : Machine.invoke callbacks fuel f id m = some m') : Evolves m m' :=
  of_invoke (fun op _ _ _ h => perform callbacks fuel op h) h

end Evolves

/-! ## Invariants of threads -/

/-- Every thread of the machine has a property. -/
def Threads (P : Thread → Prop) (m : Machine κ μ) : Prop :=
  ∀ (id : ThreadId) (t : Thread), m.thread? id = some t → P t

namespace Threads

/-- What is left of the threads has the property that all had. -/
theorem subset (h : Threads P m) (hthread : ∀ {id : ThreadId} {t : Thread},
    m'.thread? id = some t → m.thread? id = some t) : Threads P m' :=
  fun id t ht => h id t (hthread ht)

theorem place (h : Threads P m) (ht : P t) : Threads P (m.place id t) := by
  intro j u hu
  simp only [Machine.place] at hu
  split at hu
  · rw [thread?_setThread] at hu
    split at hu
    · cases hu
      exact ht
    · exact h j u hu
  · simp only [thread?, Array.getElem?_push] at hu
    split at hu
    · cases hu
      exact ht
    · exact h j u hu

theorem unload (h : Threads P m) (id : ThreadId) : Threads P (m.unload id) := by
  simp only [Machine.unload]
  split
  · exact h
  · refine h.subset fun {j u} hu => ?_
    change (m.setThread id none).thread? j = some u at hu
    rw [thread?_setThread] at hu
    split at hu
    · cases hu
    · exact hu

/-- The threads of a machine keep an invariant as the machine evolves. -/
theorem evolves (hP : Thread.Invariant P) (h : Threads P m) (hevolves : Evolves m m') :
    Threads P m' := by
  induction hevolves with
  | refl => exact h
  | tail _ hstep ih =>
    obtain hdescends | ⟨programs, hloaded⟩ := hstep
    · intro id t' ht'
      obtain ⟨t, ht, hmoves⟩ := hdescends.thread ht'
      exact hmoves.keeps hP.move (ih id t ht)
    · cases hloaded with
      | failed => exact ih
      | placed _ ht _ => exact ih.place (hP.born ht)

end Threads
end Machine
end ScriptMachine
