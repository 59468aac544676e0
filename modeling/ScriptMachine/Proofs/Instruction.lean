import ScriptMachine.Proofs.Stack
import ScriptMachine.Thread.Step

/-!
# What an instruction does

`Does` lists what executing an instruction can do to its thread, `Fails` the ways in which it
can meet a fault; every outcome of `Thread.execute` is one of them. What else is to be known
about instructions is read off these two, so that nothing below looks into `execute` again.

`Thread.stores` gives the slots that an instruction writes. All other slots keep what they
hold.
-/

namespace ScriptMachine.Thread

variable {t t' : Thread} {i : Instruction} {now : UInt64} {pinned : Bool}

/-! ## Outcomes -/

/-- What an instruction does to its thread when it meets no fault. -/
inductive Does (t : Thread) (i : Instruction) (now : UInt64) : Flow → Thread → Prop
  /-- Nothing, as a jump not taken, or arithmetic on a value of the wrong kind. -/
  | nothing : Does t i now .next t
  | jump {n target : Nat} : i.op.target? = some (n, .instrIndex) →
      i.instrTarget n = .ok target → Does t i now (.jump target) t
  | write {l : Location} {v : Value} : t.computation i = .ok (some (l, v)) →
      Does t i now .next (t.store l v)
  | push {v : Value} {s : Stack} : i.op = .push → t.value i 0 = .ok v →
      t.stack.push v = .ok s → Does t i now .next { t with stack := s }
  | pop {v : Value} {s : Stack} {l : Location} : i.op = .pop → t.stack.pop = .ok (v, s) →
      { t with stack := s }.destination i 0 = .ok l →
      Does t i now .next ({ t with stack := s }.store l v)
  | call {f entry : Nat} {t' : Thread} : i.op = .call → i.funcTarget 0 = .ok f →
      t.call f (t.ip + 1) false = (.ok entry, t') → Does t i now (.jump entry) t'
  | ret {flow : Flow} {t' : Thread} : i.op = .ret → t.ret = (.ok flow, t') → Does t i now flow t'
  | pause (wakeAt : UInt64) : i.op = .pause →
      Does t i now .next { t with paused := true, wakeAt }
  | exit (code : Int32) : i.op = .exit →
      Does t i now .next { t with exitCode := some code, running := false }

/-- How an instruction can meet a fault, and what it has done to its thread by then. -/
inductive Fails (t : Thread) (i : Instruction) : Fault → Thread → Prop
  | jump {n : Nat} {fault : Fault} : i.op.target? = some (n, .instrIndex) →
      i.instrTarget n = .error fault → Fails t i fault t
  /-- An operand cannot be read. -/
  | read {n : Nat} {fault : Fault} : n < i.op.operandCount → t.value i n = .error fault →
      Fails t i fault t
  | compute {fault : Fault} : t.computation i = .error fault → Fails t i fault t
  | push {v : Value} {fault : Fault} : i.op = .push → t.stack.push v = .error fault →
      Fails t i fault t
  | pop {fault : Fault} : i.op = .pop → t.stack.pop = .error fault → Fails t i fault t
  /-- The value is off the stack, and there is nowhere to put it. -/
  | popped {v : Value} {s : Stack} {fault : Fault} : i.op = .pop → t.stack.pop = .ok (v, s) →
      { t with stack := s }.destination i 0 = .error fault → Fails t i fault { t with stack := s }
  | callee {fault : Fault} : i.op = .call → i.funcTarget 0 = .error fault → Fails t i fault t
  | call {f : Nat} {fault : Fault} {t' : Thread} : i.op = .call → i.funcTarget 0 = .ok f →
      t.call f (t.ip + 1) false = (.error fault, t') → Fails t i fault t'
  | ret {fault : Fault} {t' : Thread} : i.op = .ret → t.ret = (.error fault, t') →
      Fails t i fault t'

theorem branch_eq_ok {flow : Flow} (h : t.branch i = .ok flow) :
    flow = .next ∨ ∃ target, i.instrTarget 2 = .ok target ∧ flow = .jump target := by
  simp only [branch] at h
  obtain ⟨a, -, h⟩ := bind_eq_ok.1 h
  obtain ⟨b, -, h⟩ := bind_eq_ok.1 h
  split at h
  · obtain ⟨target, ht, h⟩ := bind_eq_ok.1 h
    exact .inr ⟨target, ht, (pure_eq_ok.1 h).symm⟩
  · exact .inl (pure_eq_ok.1 h).symm

theorem branch_eq_error {fault : Fault} (h : t.branch i = .error fault) :
    t.value i 0 = .error fault ∨ t.value i 1 = .error fault ∨ i.instrTarget 2 = .error fault := by
  simp only [branch] at h
  rcases bind_eq_error.1 h with h | ⟨a, -, h⟩
  · exact .inl h
  · rcases bind_eq_error.1 h with h | ⟨b, -, h⟩
    · exact .inr (.inl h)
    · split at h
      · rcases bind_eq_error.1 h with h | ⟨target, -, h⟩
        · exact .inr (.inr h)
        · exact absurd h pure_ne_error
      · exact absurd h pure_ne_error

private theorem does_of_branch {flow : Flow} (ht : i.op.target? = some (2, .instrIndex))
    (h : t.branch i = .ok flow) : Does t i now flow t := by
  rcases branch_eq_ok h with rfl | ⟨target, htarget, rfl⟩
  · exact .nothing
  · exact .jump ht htarget

private theorem fails_of_branch {fault : Fault} (hn : 1 < i.op.operandCount)
    (ht : i.op.target? = some (2, .instrIndex)) (h : t.branch i = .error fault) :
    Fails t i fault t := by
  rcases branch_eq_error h with h | h | h
  · exact .read (by omega) h
  · exact .read hn h
  · exact .jump ht h

theorem execute_ret (hop : i.op = .ret) : t.execute i now pinned = t.ret := by
  simp only [execute, hop]

theorem execute_call_eq_ok {flow : Flow} (hop : i.op = .call) :
    t.execute i now pinned = (.ok flow, t') ↔
      ∃ f entry, i.funcTarget 0 = .ok f ∧ flow = .jump entry ∧
        t.call f (t.ip + 1) false = (.ok entry, t') := by
  simp only [execute, hop]
  constructor
  · intro h
    split at h
    · cases h
    · rename_i f hf
      split at h
      · cases h
      · rename_i entry t₁ hc
        cases h
        exact ⟨f, entry, hf, rfl, hc⟩
  · rintro ⟨f, entry, hf, rfl, hc⟩
    rw [hf]
    simp only [hc]

/-- An instruction that meets no fault does one of the listed things. -/
theorem does_of_execute {flow : Flow} (h : t.execute i now pinned = (.ok flow, t')) :
    Does t i now flow t' := by
  cases hop : i.op with
  | jmp =>
    simp only [execute, hop, keep, Prod.mk.injEq] at h
    obtain ⟨hj, rfl⟩ := h
    obtain ⟨target, htarget, rfl⟩ := map_eq_ok.1 hj
    exact .jump (by rw [hop]; rfl) htarget
  | je | jne | jg | jl | jge | jle =>
    simp only [execute, hop, keep, Prod.mk.injEq] at h
    obtain ⟨hb, rfl⟩ := h
    exact does_of_branch (by rw [hop]; rfl) hb
  | push =>
    simp only [execute, hop] at h
    split at h
    · cases h
    · rename_i v hv
      split at h
      · cases h
      · rename_i s hs
        cases h
        exact .push hop hv hs
  | pop =>
    simp only [execute, hop] at h
    split at h
    · cases h
    · rename_i v s hs
      split at h
      · cases h
      · rename_i l hl
        cases h
        exact .pop hop hs hl
  | call =>
    obtain ⟨f, entry, hf, rfl, hc⟩ := (execute_call_eq_ok hop).1 h
    exact .call hop hf hc
  | ret => exact .ret hop ((execute_ret hop).symm.trans h)
  | pause =>
    simp only [execute, hop] at h
    split at h
    · cases h
    · split at h
      · cases h
        exact .nothing
      · cases h
        exact .pause _ hop
  | exit =>
    simp only [execute, hop] at h
    split at h
    · cases h
    · cases h
      exact .exit _ hop
  | _ =>
    simp only [execute, hop] at h
    split at h
    · cases h
    · cases h
      exact .nothing
    · rename_i hc
      cases h
      exact .write hc

/-- An instruction that meets a fault does so in one of the listed ways. -/
theorem fails_of_execute {fault : Fault} (h : t.execute i now pinned = (.error fault, t')) :
    Fails t i fault t' := by
  cases hop : i.op with
  | jmp =>
    simp only [execute, hop, keep, Prod.mk.injEq] at h
    obtain ⟨hj, rfl⟩ := h
    exact .jump (by rw [hop]; rfl) (map_eq_error.1 hj)
  | je | jne | jg | jl | jge | jle =>
    simp only [execute, hop, keep, Prod.mk.injEq] at h
    obtain ⟨hb, rfl⟩ := h
    exact fails_of_branch (by rw [hop]; decide) (by rw [hop]; rfl) hb
  | push =>
    simp only [execute, hop] at h
    split at h
    · rename_i hv
      cases h
      exact .read (by rw [hop]; decide) hv
    · split at h
      · rename_i hs
        cases h
        exact .push hop hs
      · cases h
  | pop =>
    simp only [execute, hop] at h
    split at h
    · rename_i hs
      cases h
      exact .pop hop hs
    · rename_i v s hs
      split at h
      · rename_i hl
        cases h
        exact .popped hop hs hl
      · cases h
  | call =>
    simp only [execute, hop] at h
    split at h
    · rename_i hf
      cases h
      exact .callee hop hf
    · rename_i f hf
      split at h
      · rename_i hc
        cases h
        exact .call hop hf hc
      · cases h
  | ret => exact .ret hop ((execute_ret hop).symm.trans h)
  | pause =>
    simp only [execute, hop] at h
    split at h
    · rename_i hv
      cases h
      exact .read (by rw [hop]; decide) (map_eq_error.1 hv)
    · split at h <;> cases h
  | exit =>
    simp only [execute, hop] at h
    split at h
    · rename_i hv
      cases h
      exact .read (by rw [hop]; decide) (map_eq_error.1 hv)
    · cases h
  | _ =>
    simp only [execute, hop] at h
    split at h
    · rename_i hc
      cases h
      exact .compute hc
    · cases h
    · cases h

end ScriptMachine.Thread
