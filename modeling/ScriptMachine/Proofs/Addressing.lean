import Mathlib.Algebra.Ring.Int.Defs
import Mathlib.Algebra.Ring.Nat
import ScriptMachine.Proofs.Stack
import ScriptMachine.Thread.Operand

/-!
# Indexed addresses

A relative index adds the integer in its offset slot to a base, and the sum is an index like any
other: a position, or the distance below the base of the frame if it is negative. Where it means no
slot of the stack it faults (`Thread.indexed_address`).

The sum is one of signed 32-bit numbers, as all sums of the machine are, and wraps. So a position
far beyond the stack can turn into a distance below the base, which may name a slot
(`Thread.far_index_names_slot`).
-/

namespace ScriptMachine

namespace Stack

variable {s : Stack} {index : Int32} {a : Nat}

/-- The numbers of a stack are words of 64 bits, and its slots fit into the memory. -/
structure Addressable (s : Stack) : Prop where
  base : s.base < 2 ^ 64
  capacity : s.capacity ≤ 2 ^ 63

/-- The position that a number means as an index. -/
def meant (s : Stack) (n : Int) : Int := if n < 0 then s.base + n else n

/-- Positions are counted in signed 64-bit numbers. -/
theorem position_eq (s : Stack) (index : Int32) :
    s.position index = (s.meant index.toInt).bmod (2 ^ 64) := by
  have hlt := index.toInt_lt
  simp only [position, meant, Int32.lt_iff_toInt_lt, Int32.toInt_zero]
  split
  · rfl
  · exact (Int.bmod_eq_of_le (by omega) (by omega)).symm

/-- Only a base that is not below half of all 64-bit numbers is taken for a negative number. -/
theorem Addressable.position_eq_or (hs : s.Addressable) (index : Int32) :
    s.position index = s.meant index.toInt ∨
      s.position index < 0 ∧ 2 ^ 63 ≤ s.meant index.toInt := by
  have hbase := hs.base
  have hlt := index.toInt_lt
  have hle := index.le_toInt
  have hbounds : -2 ^ 31 ≤ s.meant index.toInt ∧ s.meant index.toInt < 2 ^ 64 := by
    simp only [meant]
    split <;> omega
  rw [position_eq]
  by_cases hfar : s.meant index.toInt < 2 ^ 63
  · exact .inl (Int.bmod_eq_of_le (by omega) (by omega))
  · refine .inr ⟨?_, Int.not_lt.1 hfar⟩
    rw [Int.bmod_def, Int.emod_eq_of_lt (by omega) (by omega)]
    split <;> omega

theorem Addressable.resolve_eq_ok (hs : s.Addressable) :
    s.resolve index = .ok a ↔ a < s.capacity ∧ (a : Int) = s.meant index.toInt := by
  have hcapacity := hs.capacity
  have hposition := hs.position_eq_or index
  simp only [resolve]
  split
  · rw [Except.ok.injEq]
    omega
  · simp only [reduceCtorEq, false_iff]
    omega

theorem Addressable.resolve_eq_error (hs : s.Addressable)
    (hnone : ∀ a < s.capacity, (a : Int) ≠ s.meant index.toInt) :
    s.resolve index = .error
      (.stackIndexOutOfRange ((s.meant index.toInt).bmod (2 ^ 64)) s.top s.capacity) := by
  cases hresolve : s.resolve index with
  | ok a =>
    obtain ⟨hlt, hmeant⟩ := hs.resolve_eq_ok.1 hresolve
    exact absurd hmeant (hnone a hlt)
  | error fault =>
    rw [← position_eq]
    simp only [resolve] at hresolve
    split at hresolve
    · cases hresolve
    · exact hresolve.symm

end Stack

namespace Thread

variable {t : Thread} {base offset : Int32} {v : Value} {n : Int}

/-- A relative index is the index that its base and its offset add up to. -/
theorem location?_relStackIndex (hv : t.stack.get offset = .ok v) :
    t.location? (.relStackIndex base offset) =
      (t.stack.resolve (base + v.toInt)).map fun a => some (.slot a) := by
  have hlocation : t.location? (.relStackIndex base offset) =
      t.stack.get offset >>= fun distance => t.stack.resolve (base + distance.toInt) >>= fun a =>
        pure (some (.slot a)) := rfl
  rw [hlocation, hv]
  change (t.stack.resolve (base + v.toInt) >>= fun a => pure (some (Location.slot a))) = _
  cases t.stack.resolve (base + v.toInt) with
  | error fault => rfl
  | ok a => rfl

/-- **Indexed addresses.** Let `n` be the sum of the base of a relative index and the integer in its
offset slot, as a signed 32-bit number, which is the sum itself if it has room there. The relative
index names the slot at position `n`, or the slot `-n` below the base of the frame if `n` is
negative; and if there is no such slot, it faults with that position. -/
theorem indexed_address (hs : t.stack.Addressable) (hv : t.stack.get offset = .ok v)
    (hn : n = (base.toInt + v.toInt.toInt).bmod (2 ^ 32)) :
    (∀ a, t.location? (.relStackIndex base offset) = .ok (some (.slot a)) ↔
        a < t.stack.capacity ∧ (a : Int) = if n < 0 then t.stack.base + n else n) ∧
      ((∀ a < t.stack.capacity, (a : Int) ≠ if n < 0 then t.stack.base + n else n) →
        t.location? (.relStackIndex base offset) = .error (.stackIndexOutOfRange
          (Int.bmod (if n < 0 then t.stack.base + n else n) (2 ^ 64)) t.stack.top
          t.stack.capacity)) ∧
      (-2 ^ 31 ≤ base.toInt + v.toInt.toInt → base.toInt + v.toInt.toInt < 2 ^ 31 →
        n = base.toInt + v.toInt.toInt) := by
  have hsum : (base + v.toInt).toInt = n := by rw [Int32.toInt_add, hn]
  have hmeant : t.stack.meant (base + v.toInt).toInt = if n < 0 then t.stack.base + n else n := by
    rw [hsum, Stack.meant]
  rw [location?_relStackIndex hv, ← hmeant]
  refine ⟨fun a => ?_, fun hnone => ?_, fun hle hlt => ?_⟩
  · rw [← hs.resolve_eq_ok, map_eq_ok]
    simp
  · rw [hs.resolve_eq_error hnone]
    rfl
  · rw [hn]
    exact Int.bmod_eq_of_le (by omega) (by omega)

/-- A thread whose first slot holds an integer, with its base above three slots. -/
def holding (n : Int32) : Thread where
  program := {}
  stack := { slots := #[.int n, .null, .null, .null], top := 3, base := 3 }
  priority := .medium
  timeslice := 40

theorem addressable_holding (n : Int32) : (holding n).stack.Addressable :=
  ⟨by simp [holding], by simp [holding, Stack.capacity]⟩

/-- Four below and two on is two below the base. -/
theorem indexed_address_below_base :
    (holding 2).stack.Addressable ∧ (holding 2).stack.get 0 = .ok (.int 2) ∧
      (-2 : Int) = ((-4 : Int32).toInt + (Value.int 2).toInt.toInt).bmod (2 ^ 32) ∧
      (holding 2).location? (.relStackIndex (-4) 0) = .ok (some (.slot 1)) := by
  have hv : (holding 2).stack.get 0 = .ok (.int 2) := rfl
  have hn : (-2 : Int) = ((-4 : Int32).toInt + (Value.int 2).toInt.toInt).bmod (2 ^ 32) := by decide
  have hs := addressable_holding 2
  exact ⟨hs, hv, hn, ((indexed_address hs hv hn).1 1).2 (by decide)⟩

/-- A relative index whose sum is a position far beyond the stack can name a slot below the base. -/
theorem far_index_names_slot :
    (holding 0x7fffffff).stack.Addressable ∧
      (holding 0x7fffffff).stack.get 0 = .ok (.int 0x7fffffff) ∧
      (0x7fffffff : Int32).toInt + (Value.int 0x7fffffff).toInt.toInt = 0xfffffffe ∧
      (holding 0x7fffffff).stack.capacity = 4 ∧
      (holding 0x7fffffff).location? (.relStackIndex 0x7fffffff 0) = .ok (some (.slot 1)) :=
  ⟨addressable_holding _, rfl, by decide, rfl, rfl⟩

end Thread
end ScriptMachine
