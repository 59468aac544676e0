import ScriptMachine.Error

/-!
# Stacks

The value stack of a thread. `top` counts the live slots; `base` is what `top` was when the
current frame was opened. A nonnegative index names a slot by its position, a negative one
counts down from the base. Slots from `top` on keep what they held until they are written
again: only `clear` empties them.
-/

namespace ScriptMachine

/-- A value stack of fixed capacity. -/
structure Stack where
  slots : Array Value
  top : Nat := 0
  base : Nat := 0
deriving DecidableEq, Repr, Inhabited

namespace Stack

/-- The most slots that there is memory for. Where the reservation of memory really fails depends on
the host; this cutoff is chosen to stand for it, and no theorem depends on its value. -/
def maxCapacity : Nat := 0x7fffffff

/-- An empty stack, unless the memory for it cannot be reserved. -/
def create (capacity : Nat) : Except LoadError Stack :=
  if capacity ≤ maxCapacity then .ok { slots := Array.replicate capacity .null }
  else .error (.outOfMemory capacity)

def capacity (s : Stack) : Nat := s.slots.size

/-- The content of a slot, by its position. -/
def slot (s : Stack) (i : Nat) : Value := s.slots.getD i .null

/-- Write a slot, by its position. -/
def setSlot (s : Stack) (i : Nat) (v : Value) : Stack :=
  { s with slots := s.slots.setIfInBounds i v }

/-- The live slots, the bottom one first. -/
def live (s : Stack) : List Value := (s.slots.extract 0 s.top).toList

/-- The position that an index means, in range or not. Positions below the base are counted
in signed 64-bit numbers. -/
def position (s : Stack) (index : Int32) : Int :=
  if index < 0 then Int.bmod (s.base + index.toInt) 0x10000000000000000 else index.toInt

/-- The slot that an index means. -/
def resolve (s : Stack) (index : Int32) : Except Fault Nat :=
  let p := s.position index
  if 0 ≤ p ∧ p < s.capacity then .ok p.toNat
  else .error (.stackIndexOutOfRange p s.top s.capacity)

def get (s : Stack) (index : Int32) : Except Fault Value :=
  (s.resolve index).map s.slot

def set (s : Stack) (index : Int32) (v : Value) : Except Fault Stack :=
  (s.resolve index).map fun i => s.setSlot i v

@[inline] def push (s : Stack) (v : Value) : Except Fault Stack :=
  if s.top < s.capacity then .ok { s.setSlot s.top v with top := s.top + 1 }
  else .error (.stackOverflow s.capacity)

/-- Lower the top. The slots keep what they hold, and the base stays where it is. -/
@[inline] def drop (s : Stack) (n : Nat) : Stack := { s with top := s.top - n }

/-- Take the top value off; its slot keeps it. -/
@[inline] def pop (s : Stack) : Except Fault (Value × Stack) :=
  if s.top = 0 then .error .stackUnderflow else .ok (s.slot (s.top - 1), s.drop 1)

/-- The value `depth` slots below the top. -/
@[inline] def peek (s : Stack) (depth : Nat) : Except Fault Value :=
  if depth < s.top then .ok (s.slot (s.top - 1 - depth)) else .error .stackUnderflow

/-- Open a frame: `size` slots with what they happen to hold, and the base above them. -/
@[inline] def pushFrame (s : Stack) (size : Nat) : Except Fault Stack :=
  if s.top + size ≤ s.capacity then .ok { s with top := s.top + size, base := s.top + size }
  else .error (.stackOverflow s.capacity)

/-- Drop `size` slots. The base stays where it is. -/
@[inline] def popFrame (s : Stack) (size : Nat) : Except Fault Stack :=
  if size ≤ s.top then .ok (s.drop size) else .error .stackUnderflow

def setBase (s : Stack) (base : Nat) : Stack := { s with base := base }

/-- Empty the stack and every slot. -/
def clear (s : Stack) : Stack := { slots := Array.replicate s.capacity .null }

/-- For every base that is itself a position, counting down does not wrap. -/
theorem position_of_neg {s : Stack} {index : Int32} (hi : index < 0)
    (hb : s.base < 0x8000000000000000) :
    s.position index = s.base + index.toInt := by
  have h₁ := index.le_toInt
  have h₂ : index.toInt < 0 := Int32.lt_iff_toInt_lt.1 hi
  simp only [position, hi, if_true]
  exact Int.bmod_eq_of_le (by omega) (by omega)

theorem position_of_nonneg {s : Stack} {index : Int32} (hi : 0 ≤ index) :
    s.position index = index.toInt := by
  simp [position, Int32.not_lt.2 hi]

/-! ## What the operations do to the capacity -/

@[simp] theorem capacity_setSlot (s : Stack) (i : Nat) (v : Value) :
    (s.setSlot i v).capacity = s.capacity := by simp [setSlot, capacity]

@[simp] theorem capacity_setBase (s : Stack) (b : Nat) : (s.setBase b).capacity = s.capacity := rfl

@[simp] theorem capacity_clear (s : Stack) : s.clear.capacity = s.capacity := by
  simp [clear, capacity]

theorem capacity_push {s t : Stack} {v : Value} (h : s.push v = .ok t) :
    t.capacity = s.capacity := by
  unfold push at h
  split at h <;> cases h
  simp [setSlot, capacity]

theorem capacity_pop {s t : Stack} {v : Value} (h : s.pop = .ok (v, t)) :
    t.capacity = s.capacity := by
  unfold pop at h
  split at h <;> cases h
  rfl

theorem capacity_pushFrame {s t : Stack} {n : Nat} (h : s.pushFrame n = .ok t) :
    t.capacity = s.capacity := by
  unfold pushFrame at h
  split at h <;> cases h
  rfl

theorem capacity_popFrame {s t : Stack} {n : Nat} (h : s.popFrame n = .ok t) :
    t.capacity = s.capacity := by
  unfold popFrame at h
  split at h <;> cases h
  rfl

end Stack
end ScriptMachine
