import ScriptMachine.Stack

/-!
# What the operations of a stack do

For each operation of a stack: when it succeeds, and what it leaves behind. Reading a slot
after a write is reading the written value or the old one, and an index that resolves names
a slot of the stack.
-/

namespace ScriptMachine

/-! ## Computations that may fail -/

section

variable {ε α β : Type}

theorem bind_eq_ok {x : Except ε α} {f : α → Except ε β} {b : β} :
    x >>= f = .ok b ↔ ∃ a, x = .ok a ∧ f a = .ok b := by
  cases x <;> simp [bind, Except.bind]

theorem bind_eq_error {x : Except ε α} {f : α → Except ε β} {e : ε} :
    x >>= f = .error e ↔ x = .error e ∨ ∃ a, x = .ok a ∧ f a = .error e := by
  cases x <;> simp [bind, Except.bind]

theorem map_eq_ok {x : Except ε α} {f : α → β} {b : β} :
    x.map f = .ok b ↔ ∃ a, x = .ok a ∧ f a = b := by
  cases x <;> simp [Except.map]

theorem map_eq_error {x : Except ε α} {f : α → β} {e : ε} :
    x.map f = .error e ↔ x = .error e := by
  cases x <;> simp [Except.map]

theorem pure_eq_ok {a b : α} : (pure a : Except ε α) = .ok b ↔ a = b := by
  simp [pure, Except.pure]

@[simp] theorem pure_ne_error {a : α} {e : ε} : (pure a : Except ε α) ≠ .error e := by
  simp [pure, Except.pure]

theorem throw_eq_error {e e' : ε} : (throw e : Except ε α) = .error e' ↔ e = e' := by
  simp [throw, throwThe, MonadExceptOf.throw]

end

namespace Stack

variable {s t : Stack} {v : Value} {i n : Nat}

/-! ## Slots -/

@[simp] theorem top_setSlot (s : Stack) (i : Nat) (v : Value) : (s.setSlot i v).top = s.top := rfl

@[simp] theorem base_setSlot (s : Stack) (i : Nat) (v : Value) :
    (s.setSlot i v).base = s.base := rfl

theorem slot_setSlot (s : Stack) (i j : Nat) (v : Value) :
    (s.setSlot i v).slot j = if i = j ∧ i < s.capacity then v else s.slot j := by
  simp only [slot, setSlot, capacity, Array.getD_eq_getD_getElem?,
    Array.getElem?_setIfInBounds]
  by_cases h : i = j
  · subst h
    by_cases hi : i < s.slots.size <;> simp [hi]
  · simp [h]

theorem slot_setSlot_self (h : i < s.capacity) : (s.setSlot i v).slot i = v := by
  simp [slot_setSlot, h]

theorem slot_setSlot_ne {j : Nat} (h : i ≠ j) : (s.setSlot i v).slot j = s.slot j := by
  simp [slot_setSlot, h]

theorem mem_slots_setSlot {x : Value} (h : x ∈ (s.setSlot i v).slots) :
    x = v ∨ x ∈ s.slots := by
  rcases Array.mem_or_eq_of_mem_setIfInBounds h with h | h
  · exact .inr h
  · exact .inl h

/-- A slot holds what the array of slots holds, or null. -/
theorem slot_mem_or_null (s : Stack) (i : Nat) : s.slot i ∈ s.slots ∨ s.slot i = .null := by
  simp only [slot, Array.getD_eq_getD_getElem?]
  by_cases h : i < s.slots.size
  · left
    simp [h]
  · right
    simp [h]

theorem mem_slots_clear {x : Value} (h : x ∈ s.clear.slots) : x = .null := by
  have := Array.mem_replicate.1 h
  exact this.2

/-! ## Indices -/

theorem lt_capacity_of_resolve {index : Int32} (h : s.resolve index = .ok i) :
    i < s.capacity := by
  simp only [resolve] at h
  split at h
  · rename_i hp
    cases h
    omega
  · cases h

/-! ## Pushing and popping -/

@[simp] theorem top_drop (s : Stack) (n : Nat) : (s.drop n).top = s.top - n := rfl

@[simp] theorem base_drop (s : Stack) (n : Nat) : (s.drop n).base = s.base := rfl

@[simp] theorem slot_drop (s : Stack) (n j : Nat) : (s.drop n).slot j = s.slot j := rfl

@[simp] theorem capacity_drop (s : Stack) (n : Nat) : (s.drop n).capacity = s.capacity := rfl

theorem push_eq_ok :
    s.push v = .ok t ↔ s.top < s.capacity ∧ t = { s.setSlot s.top v with top := s.top + 1 } := by
  simp only [push]
  by_cases h : s.top < s.capacity
  · rw [if_pos h]
    simp [h, eq_comm]
  · rw [if_neg h]
    simp [h]

theorem push_eq_error {f : Fault} :
    s.push v = .error f ↔ s.capacity ≤ s.top ∧ f = .stackOverflow s.capacity := by
  simp only [push]
  by_cases h : s.top < s.capacity
  · rw [if_pos h]
    simp [Nat.not_le.2 h]
  · rw [if_neg h]
    simp [Nat.not_lt.1 h, eq_comm]

theorem pop_eq_ok :
    s.pop = .ok (v, t) ↔ 0 < s.top ∧ v = s.slot (s.top - 1) ∧ t = s.drop 1 := by
  simp only [pop]
  by_cases h : s.top = 0
  · rw [if_pos h]
    simp [h]
  · rw [if_neg h]
    simp [Nat.pos_of_ne_zero h, eq_comm]

theorem pop_eq_error {f : Fault} : s.pop = .error f ↔ s.top = 0 ∧ f = .stackUnderflow := by
  simp only [pop]
  by_cases h : s.top = 0
  · rw [if_pos h]
    simp [h, eq_comm]
  · rw [if_neg h]
    simp [h]

theorem peek_eq_ok {depth : Nat} :
    s.peek depth = .ok v ↔ depth < s.top ∧ v = s.slot (s.top - 1 - depth) := by
  simp only [peek]
  by_cases h : depth < s.top
  · rw [if_pos h]
    simp [h, eq_comm]
  · rw [if_neg h]
    simp [h]

theorem peek_eq_error {depth : Nat} {f : Fault} :
    s.peek depth = .error f ↔ s.top ≤ depth ∧ f = .stackUnderflow := by
  simp only [peek]
  by_cases h : depth < s.top
  · rw [if_pos h]
    simp [Nat.not_le.2 h]
  · rw [if_neg h]
    simp [Nat.not_lt.1 h, eq_comm]

/-! ## Frames -/

theorem pushFrame_eq_ok :
    s.pushFrame n = .ok t ↔
      s.top + n ≤ s.capacity ∧ t = { s with top := s.top + n, base := s.top + n } := by
  simp only [pushFrame]
  by_cases h : s.top + n ≤ s.capacity
  · rw [if_pos h]
    simp [h, eq_comm]
  · rw [if_neg h]
    simp [h]

theorem pushFrame_eq_error {f : Fault} :
    s.pushFrame n = .error f ↔ s.capacity < s.top + n ∧ f = .stackOverflow s.capacity := by
  simp only [pushFrame]
  by_cases h : s.top + n ≤ s.capacity
  · rw [if_pos h]
    simp [Nat.not_lt.2 h]
  · rw [if_neg h]
    simp [Nat.not_le.1 h, eq_comm]

theorem popFrame_eq_ok :
    s.popFrame n = .ok t ↔ n ≤ s.top ∧ t = s.drop n := by
  simp only [popFrame]
  by_cases h : n ≤ s.top
  · rw [if_pos h]
    simp [h, eq_comm]
  · rw [if_neg h]
    simp [h]

theorem popFrame_eq_error {f : Fault} :
    s.popFrame n = .error f ↔ s.top < n ∧ f = .stackUnderflow := by
  simp only [popFrame]
  by_cases h : n ≤ s.top
  · rw [if_pos h]
    simp [Nat.not_lt.2 h]
  · rw [if_neg h]
    simp [Nat.not_le.1 h, eq_comm]

end Stack
end ScriptMachine
