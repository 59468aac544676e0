import ScriptMachine.Proofs.Frame

/-!
# Which slots an instruction writes

`Thread.stores` computes the slots that an instruction writes from its operands. Every other
slot keeps what it holds, and no instruction changes the program or the size of the stack.
-/

namespace ScriptMachine

/-- The slots that a location stands for. -/
def Location.slots : Location → List Nat
  | .slot i => [i]
  | .returnValue => []

namespace Thread

variable {t t' : Thread} {i : Instruction} {now : UInt64} {pinned : Bool} {flow : Flow}

/-- The slots that an instruction writes. A call writes the return address and the marker. -/
def stores (t : Thread) (i : Instruction) : List Nat :=
  match i.op with
  | .push => [t.stack.top]
  | .pop =>
    match t.stack.pop with
    | .error _ => []
    | .ok (_, s) =>
      match { t with stack := s }.destination i 0 with
      | .error _ => []
      | .ok l => l.slots
  | .call =>
    match i.funcTarget 0 with
    | .error _ => []
    | .ok f => [t.stack.top, (t.call f (t.ip + 1) false).2.stack.top - 1]
  | _ =>
    match t.computation i with
    | .ok (some (l, _)) => l.slots
    | _ => []

/-- Only the instructions that compute have something to write of their own. -/
theorem op_of_computation {l : Location} {v : Value} (h : t.computation i = .ok (some (l, v))) :
    i.op ≠ .push ∧ i.op ≠ .pop ∧ i.op ≠ .call ∧ i.op ≠ .ret ∧ i.op ≠ .callHost := by
  refine ⟨?_, ?_, ?_, ?_, ?_⟩ <;>
    (intro hop; rw [computation, hop] at h; cases h)

theorem stores_of_computation {l : Location} {v : Value}
    (h : t.computation i = .ok (some (l, v))) : t.stores i = l.slots := by
  obtain ⟨hpush, hpop, hcall, -⟩ := op_of_computation h
  unfold stores
  split
  · contradiction
  · contradiction
  · contradiction
  · rw [h]

theorem stores_of_ret (hop : i.op = .ret) : t.stores i = [] := by
  simp only [stores, hop, computation, pure, Except.pure]

theorem slot_store {l : Location} {v : Value} {j : Nat} (h : j ∉ l.slots) :
    (t.store l v).stack.slot j = t.stack.slot j := by
  cases l with
  | slot i =>
    have hne : i ≠ j := fun he => h (by simp [Location.slots, he])
    exact Stack.slot_setSlot_ne hne
  | returnValue => rfl

/-- An instruction writes the slots of `stores` and no others. -/
theorem slot_execute (h : t.execute i now pinned = (.ok flow, t')) {j : Nat}
    (hj : j ∉ t.stores i) : t'.stack.slot j = t.stack.slot j := by
  cases does_of_execute h with
  | nothing => rfl
  | jump _ _ => rfl
  | write hc =>
    rw [stores_of_computation hc] at hj
    exact slot_store hj
  | push hop _ hpush =>
    obtain ⟨-, rfl⟩ := Stack.push_eq_ok.1 hpush
    have hne : t.stack.top ≠ j := fun he => hj (by simp [stores, hop, he])
    exact Stack.slot_setSlot_ne (s := t.stack) hne
  | @pop v s l hop hpop hl =>
    have hj' : j ∉ l.slots := by simpa only [stores, hop, hpop, hl] using hj
    rw [slot_store hj']
    obtain ⟨-, -, rfl⟩ := Stack.pop_eq_ok.1 hpop
    rfl
  | call hop hf hc =>
    have hj' : j ∉ [t.stack.top, t'.stack.top - 1] := by
      simpa only [stores, hop, hf, hc] using hj
    obtain ⟨callee, -, -, -, rfl⟩ := call_eq_ok.1 hc
    simp only [Stack.top_framed, List.mem_cons, List.not_mem_nil, or_false, not_or] at hj'
    rw [Stack.slot_framed, Stack.slot_setSlot_ne (by omega), Stack.slot_setSlot_ne (by omega)]
  | ret _ hret =>
    rcases (ret_eq_ok hret).2 with ⟨-, -, rfl⟩ | ⟨sync, link, -, hclose⟩
    · rfl
    · obtain ⟨callee, target, -, -, -, -, rfl⟩ := close_eq_ok.1 hclose
      rfl
  | pause _ _ => rfl
  | exit _ _ => rfl

/-- Two threads agree in what was settled when their script was loaded. -/
structure Kin (t t' : Thread) : Prop where
  program : t'.program = t.program
  capacity : t'.stack.capacity = t.stack.capacity
  priority : t'.priority = t.priority
  timeslice : t'.timeslice = t.timeslice
  digest : t'.digest = t.digest

theorem Kin.refl (t : Thread) : t.Kin t := ⟨rfl, rfl, rfl, rfl, rfl⟩

theorem Kin.trans {t'' : Thread} (h : t.Kin t') (h' : t'.Kin t'') : t.Kin t'' where
  program := h'.program.trans h.program
  capacity := h'.capacity.trans h.capacity
  priority := h'.priority.trans h.priority
  timeslice := h'.timeslice.trans h.timeslice
  digest := h'.digest.trans h.digest

/-- A change of the stack that keeps its capacity. -/
theorem Kin.of_capacity {s : Stack} (h : s.capacity = t.stack.capacity) :
    t.Kin { t with stack := s } := ⟨rfl, h, rfl, rfl, rfl⟩

/-- A call keeps to the stack that there is, whether it fits or not. -/
theorem kin_call {f returnTo : Nat} {sync : Bool} {r : Except Fault Nat}
    (h : t.call f returnTo sync = (r, t')) : t.Kin t' := by
  cases r with
  | ok entry =>
    obtain ⟨callee, -, -, -, rfl⟩ := call_eq_ok.1 h
    exact .of_capacity (Stack.capacity_framed ..)
  | error fault =>
    obtain ⟨-, -, rfl⟩ | ⟨-, rfl | ⟨s, hpush, rfl⟩⟩ := call_eq_error h
    · exact .refl _
    · exact .refl _
    · exact .of_capacity (Stack.capacity_push hpush)

/-- What no instruction changes in its thread, and that none starts it. -/
structure Keeps (t t' : Thread) : Prop extends Kin t t' where
  stats : t'.stats = t.stats
  running : t'.running = true → t.running = true

theorem Keeps.refl (t : Thread) : t.Keeps t := ⟨.refl t, rfl, id⟩

theorem Keeps.of_capacity {s : Stack} (h : s.capacity = t.stack.capacity) :
    t.Keeps { t with stack := s } := ⟨.of_capacity h, rfl, id⟩

theorem keeps_store {s : Stack} (h : s.capacity = t.stack.capacity) (l : Location) (v : Value) :
    t.Keeps ({ t with stack := s }.store l v) := by
  cases l with
  | slot i => exact .of_capacity ((Stack.capacity_setSlot ..).trans h)
  | returnValue => exact ⟨⟨rfl, h, rfl, rfl, rfl⟩, rfl, id⟩

theorem keeps_execute (h : t.execute i now pinned = (.ok flow, t')) : t.Keeps t' := by
  cases does_of_execute h with
  | nothing => exact .refl _
  | jump _ _ => exact .refl _
  | write _ => exact keeps_store (s := t.stack) rfl _ _
  | push _ _ hpush => exact .of_capacity (Stack.capacity_push hpush)
  | pop _ hpop _ => exact keeps_store (Stack.capacity_pop hpop) _ _
  | call _ _ hcall =>
    have hkin := kin_call hcall
    obtain ⟨callee, -, -, -, rfl⟩ := call_eq_ok.1 hcall
    exact ⟨hkin, rfl, id⟩
  | ret _ hret =>
    rcases (ret_eq_ok hret).2 with ⟨-, -, rfl⟩ | ⟨sync, link, -, hclose⟩
    · exact ⟨⟨rfl, rfl, rfl, rfl, rfl⟩, rfl, (nomatch ·)⟩
    · obtain ⟨callee, target, -, -, -, -, rfl⟩ := close_eq_ok.1 hclose
      exact .of_capacity rfl
  | pause _ _ => exact ⟨⟨rfl, rfl, rfl, rfl, rfl⟩, rfl, id⟩
  | exit _ _ => exact ⟨⟨rfl, rfl, rfl, rfl, rfl⟩, rfl, (nomatch ·)⟩

theorem keeps_execute_error {fault : Fault}
    (h : t.execute i now pinned = (.error fault, t')) : t.Keeps t' := by
  cases fails_of_execute h with
  | popped _ hpop _ => exact .of_capacity (Stack.capacity_pop hpop)
  | call _ _ hcall =>
    have hkin := kin_call hcall
    rcases call_eq_error hcall with ⟨-, -, rfl⟩ | ⟨-, rfl | ⟨s, -, rfl⟩⟩ <;>
      exact ⟨hkin, rfl, id⟩
  | ret _ hret =>
    rcases (ret_eq_error hret).1 with rfl | ⟨-, rfl⟩
    · exact .refl _
    · exact .of_capacity rfl
  | _ => exact .refl _

/-- No instruction changes the program. -/
theorem program_execute (h : t.execute i now pinned = (.ok flow, t')) :
    t'.program = t.program := (keeps_execute h).program

theorem program_execute_error {fault : Fault}
    (h : t.execute i now pinned = (.error fault, t')) : t'.program = t.program :=
  (keeps_execute_error h).program

/-- No instruction counts a turn: that is the scheduler's part. -/
theorem stats_execute (h : t.execute i now pinned = (.ok flow, t')) : t'.stats = t.stats :=
  (keeps_execute h).stats

theorem stats_execute_error {fault : Fault}
    (h : t.execute i now pinned = (.error fault, t')) : t'.stats = t.stats :=
  (keeps_execute_error h).stats

/-- Only calls and returns move the base. -/
theorem base_execute (h : t.execute i now pinned = (.ok flow, t')) (hcall : i.op ≠ .call)
    (hret : i.op ≠ .ret) : t'.stack.base = t.stack.base := by
  cases does_of_execute h with
  | write _ => exact store_base _ _ _
  | push _ _ hpush =>
    obtain ⟨-, rfl⟩ := Stack.push_eq_ok.1 hpush
    rfl
  | pop _ hpop _ =>
    obtain ⟨-, -, rfl⟩ := Stack.pop_eq_ok.1 hpop
    exact store_base _ _ _
  | call hop _ _ => exact absurd hop hcall
  | ret hop _ => exact absurd hop hret
  | _ => rfl

/-- Only an exit, and the return from the frame that a run starts in, stop a thread. -/
theorem running_execute (h : t.execute i now pinned = (.ok flow, t')) (hret : i.op ≠ .ret)
    (hexit : i.op ≠ .exit) : t'.running = t.running := by
  cases does_of_execute h with
  | @write l v _ => cases l <;> rfl
  | @pop v s l _ _ _ => cases l <;> rfl
  | call _ _ hc =>
    obtain ⟨callee, -, -, -, rfl⟩ := call_eq_ok.1 hc
    rfl
  | ret hop _ => exact absurd hop hret
  | exit _ hop => exact absurd hop hexit
  | _ => rfl

/-- Only returns leave a synchronous call. -/
theorem flow_execute (h : t.execute i now pinned = (.ok flow, t')) (hret : i.op ≠ .ret)
    (target : Nat) : flow ≠ .syncReturn target := by
  cases does_of_execute h with
  | ret hop _ => exact absurd hop hret
  | _ => rintro ⟨⟩

end Thread
end ScriptMachine
