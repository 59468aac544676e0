import ScriptMachine.Proofs.NestedCalls

/-!
# Faults leave no traces

An instruction that meets a fault has changed nothing but, at most, the stack of its thread: other
threads, the registry, the scheduler and the clock are as they were, and so is everything else of
the thread. `Thread.Residue` lists what can have become of its stack. A pop and a return may have
taken the value off its top, and a call may have pushed the address to return to; no other
instruction has touched it (`Machine.fault_atomic`).
-/

namespace ScriptMachine

namespace Thread

variable {t t' : Thread} {i : Instruction} {now : UInt64} {pinned : Bool} {fault : Fault}
  {s : Stack}

/-- What an instruction that meets a fault can leave of the stack. -/
inductive Residue (t : Thread) (i : Instruction) : Stack → Prop
  | whole : Residue t i t.stack
  /-- The value that was to be popped, or the marker of the frame to return from, is gone. -/
  | taken : i.op = .pop ∨ i.op = .ret → 0 < t.stack.top → Residue t i (t.stack.drop 1)
  /-- There was room for the return address, but not for the frame. -/
  | pushed {s : Stack} : i.op = .call → t.stack.push (.instrIndex (t.ip + 1)) = .ok s →
      Residue t i s

theorem Residue.base (h : Residue t i s) : s.base = t.stack.base := by
  cases h with
  | whole => rfl
  | taken => rfl
  | pushed _ hpush =>
    obtain ⟨-, rfl⟩ := Stack.push_eq_ok.1 hpush
    rfl

theorem Residue.eq_stack (h : Residue t i s) (hpop : i.op ≠ .pop) (hcall : i.op ≠ .call)
    (hret : i.op ≠ .ret) : s = t.stack := by
  cases h with
  | whole => rfl
  | taken hop _ => exact (hop.elim hpop hret).elim
  | pushed hop _ => exact absurd hop hcall

/-- A fault changes nothing in its thread but the stack. -/
theorem residue_execute_error (h : t.execute i now pinned = (.error fault, t')) :
    ∃ s, Residue t i s ∧ t' = { t with stack := s } := by
  cases fails_of_execute h with
  | popped hop hpop _ =>
    obtain ⟨htop, -, rfl⟩ := Stack.pop_eq_ok.1 hpop
    exact ⟨_, .taken (.inl hop) htop, rfl⟩
  | call hop _ hcall =>
    obtain ⟨-, -, rfl⟩ | ⟨-, rfl | ⟨s, hpush, rfl⟩⟩ := call_eq_error hcall
    · exact ⟨_, .whole, rfl⟩
    · exact ⟨_, .whole, rfl⟩
    · exact ⟨s, .pushed hop hpush, rfl⟩
  | ret hop hret =>
    obtain rfl | ⟨htop, rfl⟩ := (ret_eq_error hret).1
    · exact ⟨_, .whole, rfl⟩
    · exact ⟨_, .taken (.inr hop) htop, rfl⟩
  | _ => exact ⟨_, .whole, rfl⟩

end Thread

namespace Machine

variable {κ μ : Type} {m m' : Machine κ μ} {id : ThreadId} {t : Thread} {now : UInt64}
  {invoke : Invoke κ μ} {fault : Fault}

/-- **Faults leave no traces.** If the next instruction of a thread meets a fault, the machine is as
it was, but for what it has printed and for the stack of the thread, of which the instruction has
left one of the listed residues. The base of the current frame is as it was too, and unless the
instruction is a pop, a call or a return, the whole stack is: also if there is no next
instruction. -/
theorem fault_atomic (ht : m.thread? id = some t)
    (h : m.step invoke id now = some (.error fault, m')) :
    ∃ s, Alters id { t with stack := s } m m' ∧
      (∀ i, t.instruction? t.ip = some i → t.Residue i s) ∧ s.base = t.stack.base ∧
      ((∀ i, t.instruction? t.ip = some i → i.op ≠ .pop ∧ i.op ≠ .call ∧ i.op ≠ .ret) →
        s = t.stack) := by
  cases advances_of_step h with
  | @off u hu _ =>
    cases ht.symm.trans hu
    exact ⟨t.stack, .refl ht, fun _ _ => .whole, rfl, fun _ => rfl⟩
  | @fault u u' i _ _ hu hi _ hexec halters =>
    cases ht.symm.trans hu
    obtain ⟨s, hresidue, rfl⟩ := Thread.residue_execute_error hexec
    refine ⟨s, halters, fun j hj => ?_, hresidue.base, fun hop => ?_⟩
    · cases hi.symm.trans hj
      exact hresidue
    · obtain ⟨hpop, hcall, hret⟩ := hop i hi
      exact hresidue.eq_stack hpop hcall hret
  | unnamed hu _ _ _ halters =>
    cases ht.symm.trans hu
    exact ⟨t.stack, halters, fun _ _ => .whole, rfl, fun _ => rfl⟩
  | unresolved hu _ _ _ _ halters =>
    cases ht.symm.trans hu
    exact ⟨t.stack, halters, fun _ _ => .whole, rfl, fun _ => rfl⟩

/-- A thread that is about to divide by zero. -/
def dividing : Thread where
  program := { instructions := #[⟨.div, [.register .returnValue, .int 0]⟩] }
  stack := { slots := #[.int 1, .null], top := 1, base := 0 }
  priority := .low
  timeslice := 0
  returnValue := .int 7
  running := true

theorem fault_atomic_dividing :
    ∃ m', (callingBack .roundRobin dividing).step (fun _ _ _ => none) 0 0 =
        some (.error .divisionByZero, m') ∧
      Alters 0 dividing (callingBack .roundRobin dividing) m' := by
  have hfault : ((callingBack .roundRobin dividing).step (fun _ _ _ => none) 0 0).map Prod.fst =
      some (.error .divisionByZero) := by
    decide +kernel
  obtain ⟨⟨_, m'⟩, hstep, rfl⟩ := Option.map_eq_some_iff.1 hfault
  obtain ⟨s, halters, -, -, hstack⟩ := fault_atomic rfl hstep
  have hop : ∀ i, dividing.instruction? dividing.ip = some i →
      i.op ≠ .pop ∧ i.op ≠ .call ∧ i.op ≠ .ret := by
    intro i hi
    cases hi
    decide
  rw [hstack hop] at halters
  exact ⟨m', hstep, halters⟩

end Machine
end ScriptMachine
