import ScriptMachine.Value

/-!
# The executable format

What writing and reading an executable have in common: the signature and version, numbers
with their low byte first, and the tags of operands.

An executable consists of these fields.

* the signature, then two bytes of version;
* stack size and size of the globals, four bytes each;
* one byte that is zero if there is no main, and its index in four bytes;
* one byte of priority, and four bytes of time for a user priority;
* the count of instructions, then each of them: two bytes of code, one byte with the count of
  operands, and the operands, each a tag and its payload;
* the count of strings, then each with its length in four bytes;
* the count of functions, then each of them: entry in four bytes, one byte with the count of
  parameters, the size of the locals in four bytes, and the name with its length in one byte;
* the count of host functions, then the name of each with its length in one byte.

Every count has four bytes. String operands hold an index into the table of strings.
-/

namespace ScriptMachine.Executable

/-- The bytes every executable starts with. -/
def signature : List UInt8 := [0x58, 0x53, 0x45, 0x30]

/-- The one version that is read and written. -/
def version : UInt8 × UInt8 := (0, 8)

/-- The lowest `width` bytes of a number, the low byte first. -/
def number : Nat → Nat → List UInt8
  | 0, _ => []
  | width + 1, n => UInt8.ofNat n :: number width (n / 256)

@[simp] theorem length_number (width n : Nat) : (number width n).length = width := by
  induction width generalizing n with
  | zero => rfl
  | succ width ih => simp [number, ih]

/-- The tags of operands. -/
inductive Tag where
  | int | float | string | stackIndex | relStackIndex | instrIndex | funcIndex | hostCallIndex
  | register
deriving DecidableEq, Repr

namespace Tag

/-- The byte of a tag. -/
def code : Tag → UInt8
  | int => 0
  | float => 1
  | string => 2
  | stackIndex => 3
  | relStackIndex => 4
  | instrIndex => 5
  | funcIndex => 6
  | hostCallIndex => 7
  | register => 8

/-- The tag of a byte. -/
def ofCode? : UInt8 → Option Tag
  | 0 => some int
  | 1 => some float
  | 2 => some string
  | 3 => some stackIndex
  | 4 => some relStackIndex
  | 5 => some instrIndex
  | 6 => some funcIndex
  | 7 => some hostCallIndex
  | 8 => some register
  | _ => none

@[simp] theorem ofCode?_code (t : Tag) : ofCode? t.code = some t := by
  cases t <;> rfl

/-- The tag of a value. Null and the frame markers have none: they are no operands. -/
def of? : Value → Option Tag
  | .int _ => some int
  | .float _ => some float
  | .string _ => some string
  | .stackIndex _ => some stackIndex
  | .relStackIndex _ _ => some relStackIndex
  | .instrIndex _ => some instrIndex
  | .funcIndex _ => some funcIndex
  | .hostCallIndex _ => some hostCallIndex
  | .register _ => some register
  | .null | .callMarker _ | .stackBaseMarker _ => none

end Tag

/-- The code of a register. -/
def registerCode : Register → Nat
  | .returnValue => 0

/-- The register of a code. -/
def register? : Nat → Option Register
  | 0 => some .returnValue
  | _ => none

@[simp] theorem register?_registerCode (r : Register) : register? (registerCode r) = some r := by
  cases r; rfl

end ScriptMachine.Executable
