import ScriptMachine.Opcode
import ScriptMachine.Text.Case
import ScriptMachine.Value

/-!
# Images

An image is a program as it is loaded: its instructions, its function table, the names of the
host functions it calls, and what it asks of the thread that runs it.
-/

namespace ScriptMachine

/-- An instruction with its operands. -/
structure Instruction where
  op : Opcode
  operands : List Value
deriving DecidableEq, Repr, Inhabited

/-- An entry of the function table. -/
structure Function where
  name : String
  entry : Nat
  params : UInt8
  locals : UInt32
deriving DecidableEq, Repr, Inhabited

/-- The slots that a return releases below the marker: parameters, return address, locals. -/
def Function.frameSize (f : Function) : Nat :=
  f.params.toNat + 1 + f.locals.toNat

/-- How long a thread's turns are: one of three configured tiers, or a time of its own. -/
inductive Priority where
  | user (ms : UInt32)
  | low
  | medium
  | high
deriving DecidableEq, Repr, Inhabited

namespace Priority

/-- The code of a priority in an executable. -/
def code : Priority → UInt8
  | user _ => 0
  | low => 1
  | medium => 2
  | high => 3

/-- The priority of a code; the time counts only for a user priority. -/
def ofCode? (code : UInt8) (ms : UInt32) : Option Priority :=
  match code with
  | 0 => some (user ms)
  | 1 => some low
  | 2 => some medium
  | 3 => some high
  | _ => none

/-- The time of a user priority, zero for a tier. -/
def userTimeslice : Priority → UInt32
  | user ms => ms
  | _ => 0

@[simp] theorem ofCode?_code (p : Priority) : ofCode? p.code p.userTimeslice = some p := by
  cases p <;> rfl

/-- A priority as listings show it. -/
def written : Priority → String
  | user ms => s!"user {ms.toNat}ms"
  | low => "low"
  | medium => "medium"
  | high => "high"

end Priority

/-- A program, independent of any machine. -/
structure Image where
  /-- The stack slots asked for; zero leaves the choice to the machine. -/
  stackSize : UInt32 := 0
  globals : UInt32 := 0
  main : Option Nat := none
  priority : Priority := .medium
  instructions : Array Instruction := #[]
  functions : Array Function := #[]
  hostCalls : Array String := #[]
deriving DecidableEq, Repr, Inhabited

/-- The equality of instructions in which singles compare as numbers. -/
def Instruction.same (a b : Instruction) : Bool :=
  a.op = b.op && a.operands.length = b.operands.length &&
    (a.operands.zip b.operands).all fun (v, w) => v.same w

namespace Image

/-- The index of the first function of a name. -/
def findFunction? (image : Image) (name : String) : Option Nat :=
  image.functions.findIdx? fun f => Text.sameName f.name name

theorem lt_size_of_findFunction? {image : Image} {name : String} {f : Nat}
    (h : image.findFunction? name = some f) : f < image.functions.size := by
  obtain ⟨hlt, -⟩ := Array.findIdx?_eq_some_iff_getElem.1 h
  exact hlt

/-- The function a thread starts in. -/
def mainFunction? (image : Image) : Option Function :=
  image.main.bind fun i => image.functions[i]?

/-- The equality of images in which singles compare as numbers. -/
def same (a b : Image) : Bool :=
  { a with instructions := #[] } = { b with instructions := #[] } &&
    a.instructions.size = b.instructions.size &&
    (a.instructions.zip b.instructions).all fun (i, j) => i.same j

end Image
end ScriptMachine
