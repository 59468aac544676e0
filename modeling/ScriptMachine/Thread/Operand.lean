import ScriptMachine.Thread.Basic

/-!
# Operands

What an operand of an instruction stands for: a location of the thread, or a value of its
own. Stack indices and registers are locations, everything else stands for itself.
-/

namespace ScriptMachine

/-- Operand `n` of an instruction. -/
def Instruction.operand (i : Instruction) (n : Nat) : Except Fault Value :=
  match i.operands[n]? with
  | some v => .ok v
  | none => .error (.missingOperand n)

/-- The instruction that operand `n` names. -/
def Instruction.instrTarget (i : Instruction) (n : Nat) : Except Fault Nat := do
  match ← i.operand n with
  | .instrIndex target => return target
  | v => throw (.operandKind n .instrIndex v.kind)

/-- The function that operand `n` names. -/
def Instruction.funcTarget (i : Instruction) (n : Nat) : Except Fault Nat := do
  match ← i.operand n with
  | .funcIndex target => return target
  | v => throw (.operandKind n .funcIndex v.kind)

/-- The host call that operand `n` names. -/
def Instruction.hostCallTarget (i : Instruction) (n : Nat) : Except Fault Nat := do
  match ← i.operand n with
  | .hostCallIndex target => return target
  | v => throw (.operandKind n .hostCallIndex v.kind)

/-- Where a thread keeps a value. -/
inductive Location where
  | slot (i : Nat)
  | returnValue
deriving DecidableEq, Repr

namespace Thread

/-- The value at a location. -/
def load (t : Thread) : Location → Value
  | .slot i => t.stack.slot i
  | .returnValue => t.returnValue

/-- Write a location. -/
def store (t : Thread) (l : Location) (v : Value) : Thread :=
  match l with
  | .slot i => { t with stack := t.stack.setSlot i v }
  | .returnValue => { t with returnValue := v }

/-- The location that a value names, if it is an address. A relative index adds the integer
held in its offset slot to its base; the sum wraps. -/
def location? (t : Thread) : Value → Except Fault (Option Location)
  | .stackIndex index => do return some (.slot (← t.stack.resolve index))
  | .relStackIndex base offset => do
    let distance ← t.stack.get offset
    return some (.slot (← t.stack.resolve (base + distance.toInt)))
  | .register .returnValue => return some .returnValue
  | _ => return none

/-- The location of operand `n`, if it is an address. -/
def source? (t : Thread) (i : Instruction) (n : Nat) : Except Fault (Option Location) := do
  t.location? (← i.operand n)

/-- The location that operand `n` has to be. -/
def destination (t : Thread) (i : Instruction) (n : Nat) : Except Fault Location := do
  let v ← i.operand n
  match ← t.location? v with
  | some l => return l
  | none => throw (.notAssignable n v.kind)

/-- The value that operand `n` stands for. -/
def value (t : Thread) (i : Instruction) (n : Nat) : Except Fault Value := do
  let v ← i.operand n
  match ← t.location? v with
  | some l => return t.load l
  | none => return v

/-- Operand `n` as an integer. -/
def intValue (t : Thread) (i : Instruction) (n : Nat) : Except Fault Int32 :=
  (t.value i n).map Value.toInt

/-- Operand `n` as a text. -/
def textValue (t : Thread) (i : Instruction) (n : Nat) : Except Fault String :=
  (t.value i n).map Value.toText

@[simp] theorem store_program (t : Thread) (l : Location) (v : Value) :
    (t.store l v).program = t.program := by cases l <;> rfl

@[simp] theorem store_ip (t : Thread) (l : Location) (v : Value) :
    (t.store l v).ip = t.ip := by cases l <;> rfl

@[simp] theorem store_top (t : Thread) (l : Location) (v : Value) :
    (t.store l v).stack.top = t.stack.top := by cases l <;> rfl

@[simp] theorem store_base (t : Thread) (l : Location) (v : Value) :
    (t.store l v).stack.base = t.stack.base := by cases l <;> rfl

@[simp] theorem store_capacity (t : Thread) (l : Location) (v : Value) :
    (t.store l v).stack.capacity = t.stack.capacity := by
  cases l <;> simp [store]

end Thread
end ScriptMachine
