import ScriptMachine.Proofs.Frame
import ScriptMachine.Proofs.Threads

/-!
# Operations of the host that end in a fault

A host's operation on a thread may do a part of its work before it finds that the stack is too
small. What it has done by then stays: a call whose frame does not fit leaves the address to
return to on the stack, and a host call that drops more than there is has set its return value
already. The stack is as it was everywhere else, and so is the instruction pointer
(`host_fault_leaves`).
-/

namespace ScriptMachine

namespace Thread

/-- The thread after the set-up of a call for which its stack is too small. If there was a slot
for the address to return to, it is filled. -/
def overflown (t : Thread) : Thread :=
  if t.stack.top < t.stack.capacity then
    { t with stack :=
      { t.stack.setSlot t.stack.top (.instrIndex t.ip) with top := t.stack.top + 1 } }
  else t

/-- The thread after a host function gave its value back, if it has one. -/
def returning (t : Thread) (v : Option HostValue) : Thread :=
  { t with returnValue := (v.map HostValue.toValue).getD t.returnValue }

variable {t t' : Thread} {f : Nat} {sync : Bool} {fault : Fault}

/-- The call of a function that exists fails only if its frame does not fit. -/
theorem call_eq_overflown (hf : f < t.program.functions.size)
    (h : t.call f t.ip sync = (.error fault, t')) :
    fault = .stackOverflow t.stack.capacity ∧ t' = t.overflown := by
  simp only [call, Array.getElem?_eq_getElem hf] at h
  cases hpush : t.stack.push (.instrIndex t.ip) with
  | error e =>
    obtain ⟨hfull, rfl⟩ := Stack.push_eq_error.1 hpush
    rw [hpush] at h
    cases h
    exact ⟨rfl, (if_neg (Nat.not_lt.2 hfull)).symm⟩
  | ok s =>
    obtain ⟨hroom, rfl⟩ := Stack.push_eq_ok.1 hpush
    simp only [hpush] at h
    split at h
    · rename_i e hframe
      obtain ⟨-, rfl⟩ := Stack.pushFrame_eq_error.1 hframe
      cases h
      exact ⟨by rw [← Stack.capacity_push hpush], (if_pos hroom).symm⟩
    · cases h

end Thread

namespace Machine

variable {κ μ : Type} {m m' : Machine κ μ} {id : ThreadId} {t : Thread} {fault : Fault}

/-- An argument that does not fit is not passed. -/
theorem pass_overflows (ht : m.thread? id = some t) {v : HostValue}
    (h : m.pass id v = (.error (.fault fault), m')) :
    fault = .stackOverflow t.stack.capacity ∧ m' = m := by
  simp only [pass, onThread, ht] at h
  cases hpush : t.stack.push v.toValue with
  | error e =>
    obtain ⟨-, rfl⟩ := Stack.push_eq_error.1 hpush
    rw [hpush] at h
    cases h
    exact ⟨rfl, rfl⟩
  | ok s =>
    rw [hpush] at h
    cases h

/-- A call that cannot be set up stops its thread. -/
theorem beginCall_overflows (ht : m.thread? id = some t) {name : String} {sync : Bool}
    (h : m.beginCall id name sync = (.error (.fault fault), m')) :
    fault = .stackOverflow t.stack.capacity ∧ Alters id (t.overflown.stopWith fault) m m' := by
  simp only [beginCall, ht] at h
  split at h
  · cases h
  · rename_i f hfind
    split at h
    · cases h
    · rename_i e t' hcall
      cases h
      obtain ⟨hfault, rfl⟩ := Thread.call_eq_overflown (Image.lt_size_of_findFunction? hfind) hcall
      have hset := Alters.setThread (lt_size_of_thread? ht) t.overflown
      exact ⟨hfault, hset.trans (Alters.faultThread hset.thread fault)⟩

/-- A call that is waited for answers a fault only if it cannot be set up. -/
theorem callFunction_overflows (ht : m.thread? id = some t) {invoke : Invoke κ μ} {fuel : Nat}
    {name : String} (h : m.callFunction invoke fuel id name = some (.error (.fault fault), m')) :
    fault = .stackOverflow t.stack.capacity ∧ Alters id (t.overflown.stopWith fault) m m' := by
  rcases callFunction_eq_some h with ⟨e, he, hbegin⟩ | ⟨_, _, outcome, ended, -, -, -, hunpin⟩
  · cases he
    exact beginCall_overflows ht hbegin
  · simp only [unpin] at hunpin
    split at hunpin <;> cases hunpin

/-- A host call that drops more than there is stops its thread. -/
theorem hostReturn_underflows (ht : m.thread? id = some t) {params : Nat} (h : t.stack.top < params)
    (v : Option HostValue) :
    Alters id ((t.returning v).stopWith .stackUnderflow) m (m.hostReturn id params v) := by
  have hpop : t.stack.popFrame params = .error .stackUnderflow :=
    Stack.popFrame_eq_error.2 ⟨h, rfl⟩
  have hset := Alters.setThread (lt_size_of_thread? ht) (t.returning v)
  simp only [hostReturn, ht, hpop]
  exact hset.trans (Alters.faultThread hset.thread _)

/-- **What a fault of the host's operations leaves.** Passing an argument changes nothing then. A
call that cannot be set up has at most pushed the address to return to, and a host call that drops
more than there is has set the return value that it was given. Everything else is as it was, but
that the thread has stopped with the fault. -/
theorem host_fault_leaves (ht : m.thread? id = some t) :
    (∀ v fault m', m.pass id v = (.error (.fault fault), m') →
      fault = .stackOverflow t.stack.capacity ∧ m' = m) ∧
    (∀ name fault m', m.invokeFunction id name = (.error (.fault fault), m') →
      fault = .stackOverflow t.stack.capacity ∧
        Alters id (t.overflown.stopWith fault) m m') ∧
    (∀ invoke fuel name fault m',
      m.callFunction invoke fuel id name = some (.error (.fault fault), m') →
        fault = .stackOverflow t.stack.capacity ∧
          Alters id (t.overflown.stopWith fault) m m') ∧
    (∀ params v, t.stack.top < params →
      Alters id ((t.returning v).stopWith .stackUnderflow) m (m.hostReturn id params v)) :=
  ⟨fun _ _ _ h => pass_overflows ht h, fun _ _ _ h => beginCall_overflows ht h,
    fun _ _ _ _ _ h => callFunction_overflows ht h, fun _ v h => hostReturn_underflows ht h v⟩

/-- A program whose stack has one slot, too few for any call. -/
def cramped : Image where
  stackSize := 1
  instructions := #[⟨.ret, []⟩]
  functions := #[⟨"function", 0, 0, 0⟩]

/-- The thread that is loaded for it. -/
def crampedThread : Thread where
  program := cramped
  stack := { slots := #[.null] }
  priority := .medium
  timeslice := 40

/-- A machine that has loaded it. -/
def crampedMachine : Machine Unit Unit :=
  { create {} (.ticking 0) () with
    threads := #[some crampedThread]
    journal := #[.log (.loaded 0 1 1 1 .medium 40)] }

theorem invoke_cramped :
    crampedMachine.invokeFunction 0 "function" = (.error (.fault (.stackOverflow 1)),
      (crampedMachine.setThread 0 (some crampedThread.overflown)).faultThread 0
        (.stackOverflow 1)) := by
  have ht : crampedMachine.thread? 0 = some crampedThread := rfl
  have hf : crampedThread.program.findFunction? "function" = some 0 := by decide +kernel
  simp only [invokeFunction, beginCall, ht, hf]
  rfl

theorem host_fault_leaves_cramped :
    crampedMachine.thread? 0 = some crampedThread ∧
      (∃ m', crampedMachine.invokeFunction 0 "function" =
          (.error (.fault (.stackOverflow 1)), m') ∧
        Alters 0 (crampedThread.overflown.stopWith (.stackOverflow 1)) crampedMachine m') ∧
      Alters 0 ((crampedThread.returning (some (.int 7))).stopWith .stackUnderflow) crampedMachine
        (crampedMachine.hostReturn 0 1 (some (.int 7))) ∧
      ∃ full m', crampedMachine.pass 0 (.int 7) = (.ok (), full) ∧
        full.pass 0 (.int 8) = (.error (.fault (.stackOverflow 1)), m') ∧ m' = full := by
  have ht : crampedMachine.thread? 0 = some crampedThread := rfl
  have hfull : (crampedMachine.pass 0 (.int 7)).2.thread? 0 =
      some { crampedThread with stack := { slots := #[.int 7], top := 1 } } := rfl
  obtain ⟨-, hinvoke, -, hreturn⟩ := host_fault_leaves ht
  obtain ⟨hpass, -⟩ := host_fault_leaves hfull
  exact ⟨ht, ⟨_, invoke_cramped, (hinvoke _ _ _ invoke_cramped).2⟩, hreturn 1 _ (by decide),
    _, _, rfl, rfl, (hpass (.int 8) _ _ rfl).2⟩

/-- A call pushes the address to return to before its frame overflows the stack, and a host
function gives its value back before it drops more than there is. -/
theorem host_fault_changes :
    (create {} (.ticking 0) () : Machine Unit Unit).load cramped none =
        .ok (0, crampedMachine) ∧
      crampedMachine.thread? 0 = some crampedThread ∧
      (∃ m' u, crampedMachine.invokeFunction 0 "function" =
          (.error (.fault (.stackOverflow 1)), m') ∧ m'.thread? 0 = some u ∧
        u.stack.top ≠ crampedThread.stack.top ∧ u.stack.slot 0 ≠ crampedThread.stack.slot 0) ∧
      ∃ u, (crampedMachine.hostReturn 0 1 (some (.int 7))).thread? 0 = some u ∧
        u.fault = some .stackUnderflow ∧ u.returnValue ≠ crampedThread.returnValue := by
  have hload : (create {} (.ticking 0) () : Machine Unit Unit).load cramped none =
      .ok (0, crampedMachine) := by
    have hslot : (create {} (.ticking 0) () : Machine Unit Unit).freeSlot = .ok 0 := by
      simp [freeSlot, create]
    have hvalid : cramped.validate = .ok () := rfl
    have hthread : (create {} (.ticking 0) () : Machine Unit Unit).newThread cramped none =
        .ok crampedThread := rfl
    simp only [load, hslot, hvalid, hthread]
    rfl
  refine ⟨hload, rfl, ⟨_, crampedThread.overflown.stopWith (.stackOverflow 1), invoke_cramped, rfl,
    ?_, ?_⟩, (crampedThread.returning (some (.int 7))).stopWith .stackUnderflow, rfl, ?_, ?_⟩ <;>
    decide

end Machine
end ScriptMachine
