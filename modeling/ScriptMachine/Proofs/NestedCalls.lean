import ScriptMachine.Proofs.CallTree

/-!
# Nested synchronous calls

Every call of a tree returns, and leaves its thread where the call was made: at the same
instruction, in the same frame, running if it was running, with the parameters taken off the
stack, and with the scheduler as it was. The induction over the tree carries three things along:
the open frames of every thread are as their calls left them (`Machine.Linked`), threads that are
not busy rest where they are (`Machine.Rests`), and the machine gets through what the tree
describes as soon as it has enough fuel (`Task.Done`).
-/

namespace ScriptMachine

open OpenFrame

variable {κ μ : Type}

/-! ## Threads at rest -/

/-- What is left of a thread when slots of it have been written. Unless it is busy, it is where it
was. -/
structure Thread.Rests (busy : Prop) (stored : Nat → Prop) (t t' : Thread) : Prop where
  program : t'.program = t.program
  running : t'.running = t.running
  slot : ∀ {j : Nat}, ¬stored j → t'.stack.slot j = t.stack.slot j
  ip : ¬busy → t'.ip = t.ip
  base : ¬busy → t'.stack.base = t.stack.base

/-- Every thread that is not busy rests, and so does the scheduler. -/
structure Machine.Rests (busy : ThreadId → Prop) (S : Stores) (m m' : Machine κ μ) : Prop where
  scheduler : m'.scheduler = m.scheduler
  thread : ∀ {x : ThreadId} {t : Thread}, m.thread? x = some t →
    ∃ t', m'.thread? x = some t' ∧ t.Rests (busy x) (fun j => (x, j) ∈ S) t'

namespace Thread.Rests

variable {busy busy' : Prop} {stored stored' : Nat → Prop} {t t' t'' : Thread}

theorem refl (t : Thread) : Rests busy stored t t :=
  ⟨rfl, rfl, fun _ => rfl, fun _ => rfl, fun _ => rfl⟩

theorem trans (h : Rests busy stored t t') (h' : Rests busy stored t' t'') :
    Rests busy stored t t'' where
  program := h'.program.trans h.program
  running := h'.running.trans h.running
  slot hj := (h'.slot hj).trans (h.slot hj)
  ip hb := (h'.ip hb).trans (h.ip hb)
  base hb := (h'.base hb).trans (h.base hb)

theorem mono (h : Rests busy stored t t') (hbusy : busy → busy')
    (hstored : ∀ j, stored j → stored' j) : Rests busy' stored' t t' where
  program := h.program
  running := h.running
  slot hj := h.slot fun hs => hj (hstored _ hs)
  ip hb := h.ip fun hs => hb (hbusy hs)
  base hb := h.base fun hs => hb (hbusy hs)

end Thread.Rests

namespace Machine

variable {m m' m'' : Machine κ μ} {id x : ThreadId} {t t' : Thread} {F F' : Frames}
  {S S' : Stores} {busy busy' : ThreadId → Prop} {invoke : Invoke κ μ} {now : UInt64}

/-- The open frames of every thread are as their calls left them. -/
def Linked (F : Frames) (m : Machine κ μ) : Prop :=
  ∀ x t, m.thread? x = some t → t.Linked (F x)

namespace Rests

theorem refl (m : Machine κ μ) : Rests busy S m m :=
  ⟨rfl, fun ht => ⟨_, ht, .refl _⟩⟩

theorem mono (h : Rests busy S m m') (hbusy : ∀ x, busy x → busy' x)
    (hstores : ∀ w ∈ S, w ∈ S') : Rests busy' S' m m' where
  scheduler := h.scheduler
  thread {x t} ht := by
    obtain ⟨t', ht', hrests⟩ := h.thread ht
    exact ⟨t', ht', hrests.mono (hbusy x) fun j hj => hstores _ hj⟩

theorem trans (h : Rests busy S m m') (h' : Rests busy S m' m'') : Rests busy S m m'' where
  scheduler := h'.scheduler.trans h.scheduler
  thread ht := by
    obtain ⟨t', ht', hrests⟩ := h.thread ht
    obtain ⟨t'', ht'', hrests'⟩ := h'.thread ht'
    exact ⟨t'', ht'', hrests.trans hrests'⟩

/-- One after the other, with the slots that are written in either. -/
theorem append (h : Rests busy S m m') (h' : Rests busy S' m' m'') :
    Rests busy (S ++ S') m m'' :=
  (h.mono (fun _ hb => hb) fun _ hw => List.mem_append_left _ hw).trans
    (h'.mono (fun _ hb => hb) fun _ hw => List.mem_append_right _ hw)

/-- A change of one thread. -/
theorem alter (ht : m.thread? id = some t) (halters : Alters id t' m m')
    (h : t.Rests (busy id) (fun j => (id, j) ∈ S) t') : Rests busy S m m' where
  scheduler := halters.scheduler
  thread {x u} hu := by
    by_cases hx : x = id
    · subst hx
      rw [ht] at hu
      cases hu
      exact ⟨t', halters.thread, h⟩
    · exact ⟨u, (halters.other hx).trans hu, .refl u⟩

end Rests

theorem Linked.alter (h : Linked F m) (halters : Alters id t' m m') {frames : List OpenFrame}
    (ht : t'.Linked frames) : Linked (Function.update F id frames) m' := by
  intro x u hu
  by_cases hx : x = id
  · subst hx
    rw [halters.thread] at hu
    cases hu
    rw [Function.update_self]
    exact ht
  · rw [halters.other hx] at hu
    rw [Function.update_of_ne hx]
    exact h x u hu

theorem Linked.alter_same (h : Linked F m) (halters : Alters id t' m m')
    (ht : t'.Linked (F id)) : Linked F m' := by
  have hlinked := h.alter halters ht
  rwa [Function.update_eq_self] at hlinked

theorem Linked.same (h : Linked F m) (hsame : m'.threads = m.threads) : Linked F m' := by
  intro x u hu
  rw [thread?, hsame] at hu
  exact h x u hu

theorem Rests.same (hsame : m'.threads = m.threads) (hscheduler : m'.scheduler = m.scheduler) :
    Rests busy S m m' where
  scheduler := hscheduler
  thread {x t} ht := by
    refine ⟨t, ?_, .refl t⟩
    rw [thread?, hsame]
    exact ht

/-- A machine in which one thread has come back to its open frames. -/
theorem Linked.of_others {frames : List OpenFrame} (h : Linked (Function.update F id frames) m)
    (hother : ∀ x, x ≠ id → m'.thread? x = m.thread? x) (ht' : m'.thread? id = some t')
    (hlinked : t'.Linked (F id)) : Linked F m' := by
  intro x u hu
  by_cases hx : x = id
  · subst hx
    rw [ht'] at hu
    cases hu
    exact hlinked
  · rw [hother x hx] at hu
    have hu := h x u hu
    rwa [Function.update_of_ne hx] at hu

/-- When the one thread that was busy rests again, all do. -/
theorem Rests.of_others {m₁ m₂ : Machine κ μ} (h : Rests (fun x => x = id) S m₁ m₂)
    (hbefore : ∀ x, x ≠ id → m₁.thread? x = m.thread? x)
    (hafter : ∀ x, x ≠ id → m'.thread? x = m₂.thread? x) (hscheduler : m'.scheduler = m.scheduler)
    (hstores : ∀ w ∈ S, w ∈ S') (ht : m.thread? id = some t) (ht' : m'.thread? id = some t')
    (hrests : t.Rests False (fun j => (id, j) ∈ S') t') : Rests (fun _ => False) S' m m' where
  scheduler := hscheduler
  thread {x u} hu := by
    by_cases hx : x = id
    · subst hx
      rw [ht] at hu
      cases hu
      exact ⟨t', ht', hrests⟩
    · obtain ⟨u', hu', hrests⟩ := h.thread ((hbefore x hx).trans hu)
      refine ⟨u', (hafter x hx).trans hu', ?_⟩
      exact hrests.mono (fun hb => absurd hb hx) fun j hj => hstores _ hj

/-! ## Cycles of a pinned thread -/

/-- A pinned thread executes an instruction in each cycle, paused or not. -/
theorem cycle_of_pinned {m₁ : Machine κ μ} {flow : Flow} (hmode : m.scheduler.mode = .pinned id)
    (ht : m.thread? id = some t) (hrunning : t.running = true)
    (hstep : m.now.2.step invoke id m.now.1 = some (.ok flow, m₁)) (start : UInt64) :
    m.cycle invoke start .unlimited =
      some (if m₁.syncDone id (some flow) then some .syncReturned else none, m₁) := by
  have hrunnable : m.runnable? = some id := by
    simp only [runnable?, hmode, isRunning, ht, Option.any_some, hrunning, if_true]
  have hmode' : m.now.2.scheduler.mode = .pinned id := hmode
  have hready : m.now.2.ready id m.now.1 = (true, m.now.2) := by
    rw [ready_of_pinned hmode', show m.now.2.thread? id = some t from ht, Option.isSome_some]
  simp only [cycle, hrunnable, schedule_of_pinned hmode', attempt, hready, hstep, Budget.isUp,
    Bool.false_eq_true, if_false]
  split <;> rfl

end Machine

namespace Thread.Step

variable {now : UInt64} {pinned : Bool} {frames frames' : List OpenFrame} {t t' : Thread}
  {stored : List Nat} {i : Instruction} {m : Machine κ μ} {id : ThreadId}

/-- The matching return of a frame that a call of the script opened goes on behind the call. -/
theorem ret_eq {F : OpenFrame} {flow : Flow} (h : Linked (F :: frames) t)
    (htop : t.stack.top = F.base) (hret : t.ret = (.ok flow, t')) :
    flow = returnFlow F.sync F.returnTo ∧ t'.running = t.running := by
  obtain ⟨callee, -, hresult⟩ := h.ret htop
  rw [hret] at hresult
  split at hresult
  · obtain ⟨hflow, rfl⟩ := Prod.mk.inj hresult
    cases hflow
    exact ⟨rfl, rfl⟩
  · cases hresult

theorem running (hstep : Step now pinned frames t stored frames' t') (h : Linked frames t)
    (hi : t.instruction? t.ip = some i) (hexit : i.op ≠ .exit) : t'.running = t.running := by
  cases hstep with
  | plain hi' _ hret _ hexec =>
    rw [hi] at hi'
    cases hi'
    exact (running_execute hexec hret hexit :)
  | call _ hop _ hexec =>
    exact (running_execute hexec (by rw [hop]; decide) (by rw [hop]; decide) :)
  | ret _ hop _ htop hexec =>
    rw [execute_ret hop] at hexec
    exact ((ret_eq h htop hexec).2 :)

/-- The machine carries out a bracketed instruction of a pinned thread, which does not leave a
synchronous call. -/
theorem advance (hstep : Step now true frames t stored frames' t') (h : Linked frames t)
    (ht : m.thread? id = some t) (hmode : m.scheduler.mode ≠ .roundRobin) :
    ∃ flow m', (∀ invoke, m.step invoke id now = some (.ok flow, m')) ∧
      Machine.Alters id t' m m' ∧ ∀ target, flow ≠ .syncReturn target := by
  have hpinned : decide (m.scheduler.mode ≠ .roundRobin) = true := decide_eq_true hmode
  cases hstep with
  | @plain _ _ t' i flow hi _ hret hhost hexec =>
    rw [← hpinned] at hexec
    obtain ⟨m', hm, halters⟩ := Machine.step_own ht hi hhost hexec
    exact ⟨flow, m', hm, halters, flow_execute hexec hret⟩
  | @call _ _ t' i flow f hi hop _ hexec =>
    rw [← hpinned] at hexec
    obtain ⟨m', hm, halters⟩ := Machine.step_own ht hi (by rw [hop]; decide) hexec
    exact ⟨flow, m', hm, halters, flow_execute hexec (by rw [hop]; decide)⟩
  | @ret F _ _ t' i flow hi hop hsync htop hexec =>
    have hret := hexec
    rw [execute_ret hop] at hret
    rw [← hpinned] at hexec
    obtain ⟨m', hm, halters⟩ := Machine.step_own ht hi (by rw [hop]; decide) hexec
    refine ⟨flow, m', hm, halters, ?_⟩
    rw [(ret_eq h htop hret).1, hsync]
    rintro target ⟨⟩

end Thread.Step

/-! ## What is carried out -/

namespace Task

/-- The threads that a task moves. -/
def busy : Task κ μ → ThreadId → Prop
  | call .. | program .. => fun _ => False
  | host id | body id => fun x => x = id

/-- A body is executed by a thread that runs and is pinned. -/
def Ready : Task κ μ → Machine κ μ → Prop
  | body id, m => m.scheduler.mode = .pinned id ∧ ∃ t, m.thread? id = some t ∧ t.running = true
  | _, _ => True

/-- The machine gets through a task, whatever more fuel it has than enough. -/
def Done (callbacks : Callbacks κ μ) : Task κ μ → Machine κ μ → Machine κ μ → Prop
  | call id name, m, m' =>
    ∃ n, ∀ fuel ≥ n, m.perform callbacks fuel (.call id name) = some (.ok (), m')
  | host id, m, m' =>
    ∀ now, ∃ n, ∀ fuel ≥ n,
      m.step (Machine.invoke callbacks fuel) id now = some (.ok .stay, m')
  | program _ p, m, m' =>
    ∃ n, ∀ fuel ≥ n, p.run (Machine.perform callbacks fuel) m = some ((), m')
  | body _, m, m' =>
    ∃ n cycles, ∀ fuel ≥ n, ∀ start more,
      Machine.cycles (Machine.invoke callbacks fuel) start .unlimited (cycles + more) m =
        Machine.cycles (Machine.invoke callbacks fuel) start .unlimited more m'

end Task

/-- What is known after a task. -/
structure Outcome (callbacks : Callbacks κ μ) (task : Task κ μ) (m : Machine κ μ) (S : Stores)
    (D : List (Deed κ μ)) (F' : Frames) (m' : Machine κ μ) : Prop where
  linked : m'.Linked F'
  rests : Machine.Rests task.busy S m m'
  done : task.Done callbacks m m'
  deeds : ∀ d ∈ D, d.Returns callbacks

namespace Outcome

variable {callbacks : Callbacks κ μ} {m m₁ m₂ m' : Machine κ μ} {id x : ThreadId}
  {F F' : Frames} {S S' : Stores} {D D' : List (Deed κ μ)} {t t₁ : Thread}

/-! ### Programs -/

/-- An operation of a callback, and what follows it. -/
theorem perform {op : HostOp κ} {answer : op.Answer}
    {next : op.Answer → HostProgram κ μ Unit}
    (hperform : ∃ n, ∀ fuel ≥ n, m.perform callbacks fuel op = some (answer, m₁))
    (hrests : Machine.Rests (fun _ => False) S m m₁) (hdeeds : ∀ d ∈ D, d.Returns callbacks)
    (h : Outcome callbacks (.program id (next answer)) m₁ S' D' F' m') :
    Outcome callbacks (.program id (.perform op next)) m (S ++ S') (D ++ D') F' m' where
  linked := h.linked
  rests := hrests.append h.rests
  done := by
    obtain ⟨n, hperform⟩ := hperform
    obtain ⟨n', hrun⟩ := h.done
    refine ⟨max n n', fun fuel hfuel => ?_⟩
    simp only [HostProgram.run, hperform fuel (by omega)]
    exact hrun fuel (by omega)
  deeds d hd := (List.mem_append.1 hd).elim (hdeeds d) (h.deeds d)

/-- Passing an argument writes above all open frames. -/
theorem pass (hl : m.Linked F) (x : ThreadId) (v : HostValue) :
    (m.pass x v).2.Linked F ∧
      Machine.Rests (fun _ => False) (m.topSlot x) m (m.pass x v).2 := by
  simp only [Machine.pass, Machine.onThread]
  cases ht : m.thread? x with
  | none => exact ⟨hl, .refl m⟩
  | some t =>
    cases hpush : t.stack.push v.toValue with
    | error fault => exact ⟨by simpa [hpush] using hl, by simpa [hpush] using .refl m⟩
    | ok s =>
      have halters := Machine.Alters.setThread (Machine.lt_size_of_thread? ht) { t with stack := s }
      simp only [hpush]
      refine ⟨hl.alter_same halters ((hl x t ht).push hpush), .alter ht halters ?_⟩
      obtain ⟨-, rfl⟩ := Stack.push_eq_ok.1 hpush
      refine ⟨rfl, rfl, fun {j} hj => ?_, fun _ => rfl, fun _ => rfl⟩
      have hne : t.stack.top ≠ j := fun he => hj (by simp [Machine.topSlot, ht, he])
      exact Stack.slot_setSlot_ne (s := t.stack) hne

theorem hostReturn (hl : m.Linked F) (ht : m.thread? id = some t) {params : Nat}
    (hparams : floor (F id) + params ≤ t.stack.top) (v : Option HostValue) :
    (m.hostReturn id params v).Linked F ∧
      Machine.Rests (fun _ => False) [] m (m.hostReturn id params v) := by
  have hpop : t.stack.popFrame params = .ok (t.stack.drop params) :=
    Stack.popFrame_eq_ok.2 ⟨by omega, rfl⟩
  have halters := Machine.Alters.setThread (Machine.lt_size_of_thread? ht)
    { t with
      returnValue := (v.map HostValue.toValue).getD t.returnValue
      stack := t.stack.drop params }
  simp only [Machine.hostReturn, ht, hpop]
  have hdropped := (hl id t ht).drop hparams
  refine ⟨hl.alter_same halters ?_, .alter ht halters ?_⟩
  · exact hdropped.of_slots rfl rfl hdropped.above fun _ _ _ _ => rfl
  · exact ⟨rfl, rfl, fun _ => rfl, fun _ => rfl, fun _ => rfl⟩

/-! ### Host calls -/

/-- When the callback is through, the thread stands behind its host call. -/
theorem host {i : Instruction} {call : Nat} {callback : κ} (hl : m.Linked F)
    (ht : m.thread? id = some t) (hi : t.instruction? t.ip = some i) (hop : i.op = .callHost)
    (hcall : i.hostCallTarget 0 = .ok call)
    (hresolve : m.registry.resolve? (t.hostCallName call) id = some callback)
    (h : (m.entering id t i).Linked F →
      Outcome callbacks (.program id (callbacks callback id)) (m.entering id t i) S D F m₁) :
    Outcome callbacks (.host id) m S
      (.host id S m (m₁.modifyThread id (·.settle t.ip .stay)) :: D) F
      (m₁.modifyThread id (·.settle t.ip .stay)) := by
  have hentering := Machine.entering_alters ht i
  have hlinked := hl id t ht
  have h := h (hl.alter_same hentering
    (hlinked.of_slots rfl rfl hlinked.above fun _ _ _ _ => rfl))
  obtain ⟨t₁, ht₁, hrests⟩ := h.rests.thread hentering.thread
  have halters := Machine.Alters.modifyThread ht₁ (·.settle t.ip .stay)
  have hdone : Task.Done callbacks (.host id) m (m₁.modifyThread id (·.settle t.ip .stay)) := by
    obtain ⟨n, hrun⟩ := h.done
    refine fun now => ⟨n, fun fuel hfuel => ?_⟩
    rw [Machine.step_host _ now ht hi hop hcall, hresolve]
    simp only [Machine.invoke, hrun fuel hfuel, Option.map_some]
  have hscheduler : (m₁.modifyThread id (·.settle t.ip .stay)).scheduler = m.scheduler :=
    h.rests.scheduler.trans hentering.scheduler
  have hip : t₁.ip = t.ip + 1 := hrests.ip not_false
  have hbase : t₁.stack.base = t.stack.base := hrests.base not_false
  have hbegun : Machine.Rests (fun x => x = id) S m (m.entering id t i) :=
    .alter ht hentering ⟨rfl, rfl, fun _ => rfl, fun hid => absurd rfl hid, fun _ => rfl⟩
  have hended : Machine.Rests (fun x => x = id) S m₁
      (m₁.modifyThread id (·.settle t.ip .stay)) :=
    .alter ht₁ halters ⟨rfl, rfl, fun _ => rfl, fun _ => rfl, fun _ => rfl⟩
  have hcallback : Machine.Rests (fun x => x = id) S (m.entering id t i) m₁ :=
    h.rests.mono (fun _ hb => hb.elim) fun _ hw => hw
  refine ⟨h.linked.alter_same halters ?_, (hbegun.trans hcallback).trans hended, hdone, ?_⟩
  · exact (h.linked id t₁ ht₁).settle
  · intro d hd
    rcases List.mem_cons.1 hd with rfl | hd
    · exact ⟨hdone, hscheduler, t, _, ht, halters.thread, hip, hbase, hrests.running,
        fun j hj => hrests.slot hj⟩
    · exact h.deeds d hd

/-! ### Bodies -/

/-- A cycle that the run of a body goes on after. -/
theorem cycle_body {S : Stores} (hready : (Task.body id : Task κ μ).Ready m)
    (hstep : ∃ n, ∀ fuel ≥ n, ∃ flow, (∀ target, flow ≠ .syncReturn target) ∧
      m.now.2.step (Machine.invoke callbacks fuel) id m.now.1 = some (.ok flow, m₁))
    (hrests : Machine.Rests (fun x => x = id) S m m₁) (hdeeds : ∀ d ∈ D, d.Returns callbacks)
    (h : (Task.body id : Task κ μ).Ready m₁ →
      Outcome callbacks (.body id) m₁ S' D' F' m') :
    Outcome callbacks (.body id) m (S ++ S') (D ++ D') F' m' := by
  obtain ⟨hmode, t, ht, hrunning⟩ := hready
  obtain ⟨t₁, ht₁, hthread⟩ := hrests.thread ht
  have h := h ⟨by rw [hrests.scheduler]; exact hmode, t₁, ht₁, hthread.running.trans hrunning⟩
  refine ⟨h.linked, hrests.append h.rests, ?_, fun d hd =>
    (List.mem_append.1 hd).elim (hdeeds d) (h.deeds d)⟩
  obtain ⟨n, hstep⟩ := hstep
  obtain ⟨n', cycles, hcycles⟩ := h.done
  refine ⟨max n n', cycles + 1, fun fuel hfuel start more => ?_⟩
  obtain ⟨flow, hflow, hstep⟩ := hstep fuel (by omega)
  have hnot : m₁.syncDone id (some flow) = false := by
    simp only [Machine.syncDone]
    split
    · rename_i target heq
      exact absurd (Option.some.inj heq) (hflow target)
    · rfl
  have hcycle := Machine.cycle_of_pinned hmode ht hrunning hstep start
  rw [hnot] at hcycle
  rw [show cycles + 1 + more = (cycles + more) + 1 by omega, Machine.cycles, hcycle]
  exact hcycles fuel (by omega) start more

/-! ### Synchronous calls -/

/-- A pinned machine in which the frame of a call has been opened. -/
theorem begin_call {name : String} {f : Nat} (hl : m.Linked F) (ht : m.thread? id = some t)
    (hf : t.program.findFunction? name = some f)
    (hbegin : m.beginCall id name true = (.ok (), m₁)) (ht₁ : m₁.thread? id = some t₁) :
    let frame := opened t f t.ip true t₁
    (m₁.pin id).now.2.Linked (Function.update F id (frame :: F id)) ∧
      (m₁.pin id).now.2.thread? id = some { t₁ with running := true } ∧
      (∀ x, x ≠ id → (m₁.pin id).now.2.thread? x = m.thread? x) ∧
      m₁.scheduler = m.scheduler ∧ t₁.program = t.program ∧
        ∀ j, j ≠ t.stack.top → j ≠ t₁.stack.base - 1 → t₁.stack.slot j = t.stack.slot j := by
  obtain ⟨u, g, entry, u', hu, hg, hcall, rfl⟩ := Machine.beginCall_eq_ok.1 hbegin
  rw [ht] at hu
  cases hu
  rw [hf] at hg
  cases hg
  have halters := Machine.Alters.setThread (Machine.lt_size_of_thread? ht) { u' with ip := entry }
  rw [halters.thread] at ht₁
  cases ht₁
  have hframed := (hl id t ht).call hcall
  have hpinned := Machine.Alters.modifyThread halters.thread fun u => { u with running := true }
  have hthread : Thread.Linked (opened t f t.ip true { u' with ip := entry } :: F id)
      { u' with ip := entry, running := true } :=
    hframed.of_slots rfl rfl hframed.above fun _ _ _ _ => rfl
  have hlinked := hl.alter (halters.trans hpinned) hthread
  obtain ⟨callee, -, -, -, hu'⟩ := Thread.call_eq_ok.1 hcall
  refine ⟨hlinked.same rfl, hpinned.thread, fun x hx => (halters.trans hpinned).other hx,
    halters.scheduler, by rw [hu'], fun j hbottom hmarker => ?_⟩
  simp only [hu', Stack.base_framed] at hmarker ⊢
  rw [Stack.slot_framed, Stack.slot_setSlot_ne (by omega), Stack.slot_setSlot_ne (by omega)]

/-- A thread that returns from its synchronous call. -/
theorem end_call {t₂ : Thread} {i : Instruction} {frame : OpenFrame} {frames : List OpenFrame}
    {callee : Function} {r : Except Fault Flow} {m₃ : Machine κ μ}
    (hl : t₂.Linked (frame :: frames)) (hsync : frame.sync = true)
    (hcallee : t₂.program.functions[frame.link.function]? = some callee)
    (hparams : floor frames + callee.params.toNat ≤ frame.bottom)
    (ht₂ : m₂.thread? id = some t₂) (hi : t₂.instruction? t₂.ip = some i) (hop : i.op = .ret)
    (htop : t₂.stack.top = frame.base)
    (hstep : ∀ invoke, m₂.now.2.step invoke id m₂.now.1 = some (r, m₃)) :
    ∃ t₃, r = .ok (.syncReturn frame.returnTo) ∧ Machine.Alters id t₃ m₂.now.2 m₃ ∧
      t₃.Linked frames ∧ t₃.program = t₂.program ∧ t₃.ip = frame.returnTo ∧
      t₃.stack.base = frame.link.callerBase ∧
      t₃.stack.top = frame.bottom - callee.params.toNat ∧
      ∀ j, t₃.stack.slot j = t₂.stack.slot j := by
  obtain ⟨callee', hcallee', hret⟩ := hl.ret htop
  rw [hcallee] at hcallee'
  cases hcallee'
  rw [if_pos (by omega), hsync] at hret
  have hexec : t₂.execute i m₂.now.1 (m₂.now.2.scheduler.mode ≠ .roundRobin) = _ :=
    (Thread.execute_ret hop).trans hret
  obtain ⟨m₃', hm₃, halters⟩ :=
    Machine.step_own (m := m₂.now.2) ht₂ hi (by rw [hop]; decide) hexec
  cases (hstep fun _ _ _ => none).symm.trans (hm₃ _)
  refine ⟨_, rfl, halters, ?_, rfl, rfl, rfl, rfl, fun j => rfl⟩
  refine (hl.of_ret htop hret ?_).settle
  show floor frames ≤ frame.bottom - callee.params.toNat
  omega

/-- A synchronous call comes back when its body has come to its return. -/
theorem call_done {name : String} {r : Except Fault Flow} {m₃ : Machine κ μ} {t₂ : Thread}
    {returnTo : Nat} (ht : m.thread? id = some t) (hbegin : m.beginCall id name true = (.ok (), m₁))
    (hscheduler : m₁.scheduler = m.scheduler)
    (hbody : (Task.body id).Done callbacks (m₁.pin id).now.2 m₂)
    (hmode : m₂.scheduler.mode = .pinned id) (ht₂ : m₂.thread? id = some t₂)
    (hrunning : t₂.running = true) (hr : r = .ok (.syncReturn returnTo))
    (hstep : ∀ invoke, m₂.now.2.step invoke id m₂.now.1 = some (r, m₃))
    (hmode₃ : m₃.scheduler.mode = .pinned id) :
    (Task.call id name).Done callbacks m
      (m₃.unpin id m.scheduler t.running .syncReturned).2 := by
  obtain ⟨n, cycles, hcycles⟩ := hbody
  refine ⟨max n (cycles + 1) + 1, fun fuel hfuel => ?_⟩
  obtain ⟨g, rfl⟩ : ∃ g, fuel = g + 1 := ⟨fuel - 1, by omega⟩
  obtain ⟨more, hmore⟩ : ∃ more, g = cycles + (more + 1) := ⟨g - cycles - 1, by omega⟩
  subst hr
  have hdone : m₃.syncDone id (some (.syncReturn returnTo)) = true := by
    simp only [Machine.syncDone, hmode₃, decide_true]
  have hcycle := Machine.cycle_of_pinned hmode ht₂ hrunning
    (hstep (Machine.invoke callbacks g)) (m₁.pin id).now.1
  rw [hdone, if_pos rfl] at hcycle
  have hrun : (m₁.pin id).run (Machine.invoke callbacks g) g .unlimited =
      some (.syncReturned, m₃) := by
    have hall := hcycles g (by omega) (m₁.pin id).now.1 (more + 1)
    rw [← hmore] at hall
    rw [Machine.run]
    simp only [hall, Machine.cycles, hcycle]
  show Machine.callFunction (Machine.invoke callbacks g) g id name m = _
  rw [Machine.callFunction, ht]
  simp only [hbegin, hrun, hscheduler]
  rfl

/-- The outcome of a synchronous call, given that of its body. -/
theorem call {name : String} {f : Nat} {t₂ : Thread} {i : Instruction} {r : Except Fault Flow}
    {m₃ : Machine κ μ} (hl : m.Linked F) (ht : m.thread? id = some t)
    (hf : t.program.findFunction? name = some f)
    (hparams : ∀ callee ∈ t.program.functions[f]?,
      floor (F id) + callee.params.toNat ≤ t.stack.top)
    (hbegin : m.beginCall id name true = (.ok (), m₁)) (ht₁ : m₁.thread? id = some t₁)
    (hbody : (m₁.pin id).now.2.Linked
        (Function.update F id (opened t f t.ip true t₁ :: F id)) →
      (Task.body id : Task κ μ).Ready (m₁.pin id).now.2 →
      Outcome callbacks (.body id) (m₁.pin id).now.2 S D
        (Function.update F id (opened t f t.ip true t₁ :: F id)) m₂)
    (ht₂ : m₂.thread? id = some t₂) (hi : t₂.instruction? t₂.ip = some i) (hop : i.op = .ret)
    (htop : t₂.stack.top = t₁.stack.base)
    (hstep : ∀ invoke, m₂.now.2.step invoke id m₂.now.1 = some (r, m₃)) :
    Outcome callbacks (.call id name) m ((id, t.stack.top) :: (id, t₁.stack.base - 1) :: S)
      (.call id name m (m₃.unpin id m.scheduler t.running .syncReturned).2 :: D) F
      (m₃.unpin id m.scheduler t.running .syncReturned).2 := by
  obtain ⟨hstart, hthread, hother, hscheduler, hprogram, hslots⟩ := begin_call hl ht hf hbegin ht₁
  have hbody := hbody hstart ⟨rfl, _, hthread, rfl⟩
  obtain ⟨u, hu, hrests⟩ := hbody.rests.thread hthread
  rw [ht₂] at hu
  cases hu
  have hlinked := hbody.linked id t₂ ht₂
  rw [Function.update_self] at hlinked
  have hprogram₂ : t₂.program = t.program := hrests.program.trans hprogram
  -- the callee has not changed, so the return finds the frame that the call has made
  obtain ⟨callee, hcallee, -⟩ := (hlinked.intact _ List.mem_cons_self).callee
  have hcallee' : t.program.functions[f]? = some callee := by
    rw [← hprogram₂]
    exact hcallee
  have hcount := hparams callee hcallee'
  obtain ⟨t₃, hr, halters, hlinked₃, hprogram₃, hip, hbase, htop₃, hslots₃⟩ :=
    end_call hlinked rfl hcallee hcount ht₂ hi hop htop hstep
  have hmode : m₂.scheduler.mode = .pinned id := by rw [hbody.rests.scheduler]; rfl
  have hmode₃ : m₃.scheduler.mode = .pinned id := by rw [halters.scheduler]; exact hmode
  have hdone := call_done ht hbegin hscheduler hbody.done hmode ht₂ hrests.running hr hstep hmode₃
  let given : Machine κ μ := { m₃ with scheduler := m.scheduler }
  have hgiven : given.thread? id = some t₃ := halters.thread
  have hended : Machine.Alters id { t₃ with running := t.running } given
      (m₃.unpin id m.scheduler t.running .syncReturned).2 :=
    Machine.Alters.modifyThread hgiven fun u => { u with running := t.running }
  have hafter : ∀ x, x ≠ id →
      (m₃.unpin id m.scheduler t.running .syncReturned).2.thread? x = m₂.thread? x :=
    fun x hx => (hended.other hx).trans (halters.other hx)
  have hkept : ∀ {j : Nat}, (id, j) ∉ (id, t.stack.top) :: (id, t₁.stack.base - 1) :: S →
      t₃.stack.slot j = t.stack.slot j := by
    intro j hj
    simp only [List.mem_cons, Prod.mk.injEq, true_and, not_or] at hj
    rw [hslots₃, hrests.slot hj.2.2]
    exact hslots j hj.1 hj.2.1
  refine ⟨hbody.linked.of_others hafter hended.thread ?_, ?_, hdone, ?_⟩
  · exact hlinked₃.of_slots rfl rfl hlinked₃.above fun _ _ _ _ => rfl
  · refine hbody.rests.of_others hother hafter rfl (fun w hw => ?_) ht hended.thread ?_
    · exact List.mem_cons_of_mem _ (List.mem_cons_of_mem _ hw)
    · exact ⟨hprogram₃.trans hprogram₂, rfl, hkept, fun _ => hip, fun _ => hbase⟩
  · intro d hd
    rcases List.mem_cons.1 hd with rfl | hd
    · have hcount' : floor (F id) + callee.params.toNat ≤ t.stack.top := hcount
      exact ⟨hdone, rfl, t, _, f, callee, ht, hended.thread, hf, hcallee', hip, hbase, rfl,
        by omega, htop₃⟩
    · exact hbody.deeds d hd

end Outcome

/-! ## Trees -/

/-- What a tree describes comes about. -/
theorem CallTree.outcome {callbacks : Callbacks κ μ} {task : Task κ μ} {F F' : Frames}
    {m m' : Machine κ μ} {S : Stores} {D : List (Deed κ μ)}
    (h : CallTree callbacks task F m S D F' m') (hl : m.Linked F) (hready : task.Ready m) :
    Outcome callbacks task m S D F' m' := by
  induction h with
  | call ht hf hparams hbegin ht₁ _ ht₂ hi hop htop hstep ih =>
    exact .call hl ht hf hparams hbegin ht₁ ih ht₂ hi hop htop hstep
  | host ht hi hop hcall hresolve _ ih =>
    exact .host hl ht hi hop hcall hresolve fun hl => ih hl trivial
  | finish => exact ⟨hl, .refl _, ⟨0, fun _ _ => rfl⟩, by simp⟩
  | inspect _ ih =>
    have h := ih hl trivial
    exact ⟨h.linked, h.rests, h.done, h.deeds⟩
  | @remember F m m' id g next S D _ ih =>
    have h := ih (hl.same rfl) trivial
    have hsame : Machine.Rests (fun _ => False) S m { m with memory := g m.memory } :=
      .same rfl rfl
    exact ⟨h.linked, hsame.trans h.rests, h.done, h.deeds⟩
  | @pass F m _ id x v next _ _ _ ih =>
    obtain ⟨hpassed, hrests⟩ := Outcome.pass hl x v
    refine Outcome.perform (D := []) ⟨1, fun fuel hfuel => ?_⟩ hrests (by simp)
      (ih hpassed trivial)
    obtain ⟨g, rfl⟩ : ∃ g, fuel = g + 1 := ⟨fuel - 1, by omega⟩
    rfl
  | @hostReturn F m _ id t params v next _ _ ht hparams _ ih =>
    obtain ⟨hreturned, hrests⟩ := Outcome.hostReturn hl ht hparams v
    refine Outcome.perform (D := []) ⟨1, fun fuel hfuel => ?_⟩ hrests (by simp)
      (ih hreturned trivial)
    obtain ⟨g, rfl⟩ : ∃ g, fuel = g + 1 := ⟨fuel - 1, by omega⟩
    rfl
  | nested _ _ ih ih' =>
    have h := ih hl trivial
    exact .perform h.done h.rests h.deeds (ih' h.linked trivial)
  | rest => exact ⟨hl, .refl _, ⟨0, 0, fun _ _ _ _ => by rw [Nat.zero_add]⟩, by simp⟩
  | @own F _ m m₁ _ id t t₁ i frames stored r S D ht hi hexit hstep hm _ ih =>
    have hlinked := hl id t ht
    have hmode : m.now.2.scheduler.mode ≠ .roundRobin := by
      rw [show m.now.2.scheduler.mode = _ from hready.1]
      rintro ⟨⟩
    obtain ⟨flow, m₁', hm', halters, hflow⟩ := hstep.advance (m := m.now.2) hlinked ht hmode
    cases (hm fun _ _ _ => none).symm.trans (hm' _)
    have hrests : Machine.Rests (fun x => x = id) (stored.map (id, ·)) m m₁ := by
      have hread : Machine.Rests (fun x => x = id) (stored.map (id, ·)) m m.now.2 :=
        .same rfl rfl
      refine hread.trans (.alter ht halters ?_)
      refine ⟨hstep.program, hstep.running hlinked hi hexit, fun {j} hj => hstep.slot fun hs => ?_,
        fun hid => absurd rfl hid, fun hid => absurd rfl hid⟩
      exact hj (List.mem_map.2 ⟨j, hs, rfl⟩)
    have hread : m.now.2.Linked F := hl.same rfl
    refine Outcome.cycle_body (D := []) hready ⟨0, fun fuel _ => ?_⟩ hrests (by simp)
      (ih (hread.alter halters (hstep.linked hlinked)))
    exact ⟨flow, hflow, hm _⟩
  | @away F _ m m₁ _ id S _ D _ _ _ ih ih' =>
    have h := ih (hl.same rfl) trivial
    have hrests : Machine.Rests (fun x => x = id) S m m₁ := by
      have hread : Machine.Rests (fun x => x = id) S m m.now.2 := .same rfl rfl
      exact hread.trans h.rests
    obtain ⟨n, hstep⟩ := h.done m.now.1
    refine Outcome.cycle_body hready ⟨n, fun fuel hfuel => ?_⟩ hrests h.deeds (ih' h.linked)
    exact ⟨.stay, fun _ => by rintro ⟨⟩, hstep fuel hfuel⟩

/-- **Nested calls return.** Every synchronous call in a tree comes back, with its thread at the
instruction, in the frame and in the state of running where the call was made, with the
parameters of the function off the stack, and with the scheduler as it was. Every host call in the
tree goes on at the next instruction, with all slots as they were that were not written in it. -/
theorem nested_calls_return {callbacks : Callbacks κ μ} {task : Task κ μ} {F' : Frames}
    {m m' : Machine κ μ} {S : Stores} {D : List (Deed κ μ)}
    (h : CallTree callbacks task (fun _ => []) m S D F' m') (hbody : ∀ id, task ≠ .body id) :
    ∀ d ∈ D, d.Returns callbacks := by
  have hl : m.Linked fun _ => [] := fun _ t _ =>
    ⟨by simp, List.isChain_nil, by simp, Nat.zero_le _⟩
  have hready : task.Ready m := by
    cases task with
    | body id => exact absurd rfl (hbody id)
    | _ => trivial
  exact (h.outcome hl hready).deeds

/-- A thread with a function that calls the host and one that returns at once. -/
def reentrant (ip top base executed : Nat) (slots : Array Value) : Thread where
  program :=
    { instructions := #[⟨.callHost, [.hostCallIndex 0]⟩, ⟨.ret, []⟩, ⟨.ret, []⟩]
      functions := #[⟨"outer", 0, 0, 0⟩, ⟨"inner", 2, 0, 0⟩]
      hostCalls := #["host"] }
  stack := { slots, top, base }
  priority := .low
  timeslice := 0
  ip
  running := true
  stats := { instructions := executed }

/-- A machine with that thread and the host function that it calls. -/
def callingBack (mode : Mode) (t : Thread) : Machine Unit Unit where
  threads := #[some t]
  registry := .linear ⟨[⟨"host", .global, ()⟩]⟩
  scheduler := { mode }
  clock := .ticking 0
  config := {}
  tracing := false
  memory := ()

/-- A callback that calls a function of the thread that called it. -/
def callInner : Callbacks Unit Unit := fun _ id =>
  .perform (.call id "inner") fun _ => .pure ()

theorem nested_calls_return_own_thread :
    ∃ S D F' m', CallTree callInner (.call 0 "outer") (fun _ => [])
        (callingBack .roundRobin (reentrant 2 0 0 0 #[.null, .null, .null, .null])) S D F' m' ∧
      D.length = 3 ∧ ∀ d ∈ D, d.Returns callInner := by
  let outermost : Array Value := #[.instrIndex 2, .stackBaseMarker ⟨0, 0⟩, .null, .null]
  let both : Array Value :=
    #[.instrIndex 2, .stackBaseMarker ⟨0, 0⟩, .instrIndex 1, .stackBaseMarker ⟨1, 2⟩]
  let idle := reentrant 2 0 0 0 #[.null, .null, .null, .null]
  let called := reentrant 0 2 2 0 outermost
  let waiting := reentrant 1 2 2 0 outermost
  let inside := reentrant 2 4 4 0 both
  let back := reentrant 1 2 2 1 both
  let resumed := reentrant 1 2 2 2 both
  let done := reentrant 2 0 0 3 both
  let F : Frames := Function.update (fun _ => []) 0 [opened idle 0 2 true called]
  have inner : ∃ S D, D.length = 1 ∧ CallTree callInner (.call 0 "inner") F
      (callingBack (.pinned 0) waiting) S D F (callingBack (.pinned 0) back) := by
    have hf : waiting.program.findFunction? "inner" = some 1 := by decide +kernel
    have hbegin : (callingBack (.pinned 0) waiting).beginCall 0 "inner" true =
        (.ok (), callingBack (.pinned 0) inside) :=
      Machine.beginCall_eq_ok.2 ⟨waiting, 1, 2, { inside with ip := 1 }, rfl, hf, rfl, rfl⟩
    have hret : ∀ invoke, (callingBack (.pinned 0) inside).now.2.step invoke 0 0 =
        some (.ok (.syncReturn 1), callingBack (.pinned 0) back) := fun _ => rfl
    exact ⟨_, _, rfl, .call rfl hf (by decide) hbegin rfl .rest rfl rfl rfl rfl hret⟩
  obtain ⟨S, D, hD, inner⟩ := inner
  have callback : CallTree callInner (.program 0 (callInner () 0)) F
      ((callingBack (.pinned 0) called).entering 0 called ⟨.callHost, [.hostCallIndex 0]⟩)
      (S ++ []) (D ++ []) F (callingBack (.pinned 0) back) :=
    .nested inner .finish
  have hresolve : (callingBack (.pinned 0) called).registry.resolve? "host" 0 = some () := by
    decide +kernel
  have host : CallTree callInner (.host 0) F (callingBack (.pinned 0) called).now.2 (S ++ [])
      _ F _ :=
    .host (t := called) rfl rfl rfl rfl hresolve callback
  have hsettle : (callingBack (.pinned 0) back).modifyThread 0 (·.settle called.ip .stay) =
      callingBack (.pinned 0) resumed := rfl
  rw [hsettle] at host
  have hf : idle.program.findFunction? "outer" = some 0 := by decide +kernel
  have hbegin : (callingBack .roundRobin idle).beginCall 0 "outer" true =
      (.ok (), callingBack .roundRobin called) :=
    Machine.beginCall_eq_ok.2 ⟨idle, 0, 0, { called with ip := 2 }, rfl, hf, rfl, rfl⟩
  have hret : ∀ invoke, (callingBack (.pinned 0) resumed).now.2.step invoke 0 0 =
      some (.ok (.syncReturn 2), callingBack (.pinned 0) done) := fun _ => rfl
  have outer : CallTree callInner (.call 0 "outer") (fun _ => []) (callingBack .roundRobin idle)
      _ _ _ (callingBack .roundRobin done) :=
    .call rfl hf (by decide) hbegin rfl (.away host .rest) rfl rfl rfl rfl hret
  exact ⟨_, _, _, _, outer, by simp [hD], nested_calls_return outer (by rintro _ ⟨⟩)⟩

end ScriptMachine
