import ScriptMachine.Thread.Operand

/-!
# Computation

The instructions that compute: each of them finds out a value and the location to write it
to, or that nothing is to be written, and changes nothing before that is known.

Arithmetic goes by the destination. If it holds a single, the source is read as a single;
otherwise both are read as integers, which wrap at 32 bits. The remainder and the bitwise
instructions do nothing unless the destination holds an integer, and the text instructions
nothing unless it holds a string.
-/

namespace ScriptMachine

/-! ## Integers -/

/-- The quotient toward zero. -/
def dividedInt (a b : Int32) : Except Fault Int32 :=
  if b = 0 then .error .divisionByZero else .ok (a / b)

/-- The remainder of the quotient toward zero. -/
def remainderInt (a b : Int32) : Except Fault Int32 :=
  if b = 0 then .error .divisionByZero else .ok (a % b)

/-- A power, cut off at the ends of the 32-bit range. A negative exponent leaves a fraction,
which counts as zero, except for the bases 1 and -1; zero to a negative power is the largest
integer. Exponents above 32 give the same as 32 or 33. -/
def powerInt (a b : Int32) : Int32 :=
  if 0 ≤ b then
    let n := b.toInt.toNat
    Int32.ofIntClamp (Int.pow a.toInt (if n ≤ 32 then n else 32 + n % 2))
  else if a = 0 then Int32.maxValue
  else if a = 1 ∨ (a = -1 ∧ b % 2 = 0) then 1
  else if a = -1 then -1
  else 0

/-! ## Values -/

namespace Value

/-- An arithmetic operation, on singles or on integers by what the destination holds. -/
def arithmetic (onFloats : Binary32 → Binary32 → Binary32)
    (onInts : Int32 → Int32 → Except Fault Int32) (d s : Value) : Except Fault Value :=
  match d with
  | .float x => .ok (.float (onFloats x s.toFloat))
  | d => (onInts d.toInt s.toInt).map .int

/-- A step by a single or by an integer. -/
def stepped (onFloat : Binary32 → Binary32) (onInt : Int32 → Int32) : Value → Value
  | .float x => .float (onFloat x)
  | d => .int (onInt d.toInt)

/-- The order of two values by the kind of the first: singles, strings, or integers. -/
def order? (a b : Value) : Option Ordering :=
  match a with
  | .float x => x.order? b.toFloat
  | .string s => some (compareOfLessAndEq s b.toText)
  | a => some (compareOfLessAndEq a.toInt b.toInt)

end Value

/-! ## Texts -/

/-- The character at a position, counted in characters. -/
def charAt (s : String) (index : Int32) : Except Fault Char :=
  let cs := s.toList
  match (if index < 0 then none else cs[index.toInt.toNat]?) with
  | some c => .ok c
  | none => .error (.stringIndexOutOfRange index cs.length)

/-- The text with another character at a position. -/
def setCharAt (s : String) (index : Int32) (c : Char) : Except Fault String :=
  let cs := s.toList
  if 0 ≤ index ∧ index.toInt.toNat < cs.length then
    .ok (String.ofList (cs.set index.toInt.toNat c))
  else .error (.stringIndexOutOfRange index cs.length)

/-! ## Branches -/

/-- Whether a conditional jump is taken. -/
def Opcode.takes (op : Opcode) (order : Option Ordering) : Bool :=
  match op with
  | je => order = some .eq
  | jne => order ≠ some .eq
  | jg => order = some .gt
  | jl => order = some .lt
  | jge => order = some .gt || order = some .eq
  | jle => order = some .lt || order = some .eq
  | _ => false

/-! ## Instructions -/

namespace Thread

/-- An arithmetic instruction. -/
def arithmetic (t : Thread) (i : Instruction) (onFloats : Binary32 → Binary32 → Binary32)
    (onInts : Int32 → Int32 → Except Fault Int32) : Except Fault (Option (Location × Value)) := do
  let d ← t.destination i 0
  let s ← t.value i 1
  return some (d, ← (t.load d).arithmetic onFloats onInts s)

/-- An instruction for integers only. -/
def integers (t : Thread) (i : Instruction) (onInts : Int32 → Int32 → Except Fault Int32) :
    Except Fault (Option (Location × Value)) := do
  let d ← t.destination i 0
  match t.load d with
  | .int a =>
    let b ← t.intValue i 1
    return some (d, .int (← onInts a b))
  | _ => return none

/-- An instruction on one operand. -/
def unary (t : Thread) (i : Instruction) (f : Value → Option Value) :
    Except Fault (Option (Location × Value)) := do
  let d ← t.destination i 0
  return (f (t.load d)).map fun v => (d, v)

/-- An instruction on the text that the destination holds. -/
def texts (t : Thread) (i : Instruction) (f : String → Except Fault (Option String)) :
    Except Fault (Option (Location × Value)) := do
  let d ← t.destination i 0
  match t.load d with
  | .string s => return (← f s).map fun s => (d, .string s)
  | _ => return none

/-- What a computing instruction writes, and where. Moving a location onto itself writes
nothing. -/
def computation (t : Thread) (i : Instruction) : Except Fault (Option (Location × Value)) :=
  match i.op with
  | .mov => do
    let d ← t.destination i 0
    if (← t.source? i 1) = some d then return none
    return some (d, ← t.value i 1)
  | .add => t.arithmetic i Binary32.add fun a b => .ok (a + b)
  | .sub => t.arithmetic i Binary32.sub fun a b => .ok (a - b)
  | .mul => t.arithmetic i Binary32.mul fun a b => .ok (a * b)
  | .div => t.arithmetic i Binary32.div dividedInt
  | .exp => t.arithmetic i Binary32.pow fun a b => .ok (powerInt a b)
  | .mod => t.integers i remainderInt
  | .and => t.integers i fun a b => .ok (a &&& b)
  | .or => t.integers i fun a b => .ok (a ||| b)
  | .xor => t.integers i fun a b => .ok (a ^^^ b)
  | .shl => t.integers i fun a b => .ok (a <<< b)
  | .shr => t.integers i fun a b => .ok (a >>> b)
  | .neg => t.unary i fun d => some (d.stepped Binary32.neg fun a => -a)
  | .inc => t.unary i fun d => some (d.stepped (·.add Binary32.one) (· + 1))
  | .dec => t.unary i fun d => some (d.stepped (·.sub Binary32.one) (· - 1))
  | .not => t.unary i fun
    | .int a => some (.int (~~~a))
    | _ => none
  | .concat => t.texts i fun s => do return some (s ++ (← t.textValue i 1))
  | .getChar => t.texts i fun _ => do
    let s ← t.textValue i 1
    let index ← t.intValue i 2
    return some (String.singleton (← charAt s index))
  | .setChar => t.texts i fun s => do
    let index ← t.intValue i 1
    match (← t.textValue i 2).toList with
    | [] => return none
    | c :: _ => return some (← setCharAt s index c)
  | _ => return none

end Thread
end ScriptMachine
