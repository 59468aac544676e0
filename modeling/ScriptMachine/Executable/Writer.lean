import ScriptMachine.Executable.Format
import ScriptMachine.Image.Basic
import ScriptMachine.Text.Utf8

/-!
# Writing executables

Every image can be written. What a field has no room for is cut off: the high bytes of an
index or a count, and the bytes of a name from the 256th on. Operands without a tag are left
out.
-/

namespace ScriptMachine.Executable

/-- The operands of an instruction that have a written form. -/
def writable (operands : List Value) : List Value :=
  operands.filter fun v => (Tag.of? v).isSome

/-- The text of a string operand. -/
def text? : Value → Option String
  | .string s => some s
  | _ => none

/-- The table of strings: the texts of the string operands, each once, in the order in which
they first occur. -/
def strings (image : Image) : List String :=
  (image.instructions.toList.flatMap fun i => i.operands.filterMap text?).eraseDups

/-- The payload of an operand. -/
def payload (table : List String) : Value → List UInt8
  | .int n => number 4 n.toUInt32.toNat
  | .float x => number 4 x.bits.toNat
  | .string s => number 4 (table.idxOf s)
  | .stackIndex i => number 4 i.toUInt32.toNat
  | .relStackIndex base offset => number 4 base.toUInt32.toNat ++ number 4 offset.toUInt32.toNat
  | .instrIndex i | .funcIndex i | .hostCallIndex i => number 4 i
  | .register r => number 4 (registerCode r)
  | .null | .callMarker _ | .stackBaseMarker _ => []

/-- An operand: its tag and its payload. -/
def writeOperand (table : List String) (v : Value) : List UInt8 :=
  match Tag.of? v with
  | some t => t.code :: payload table v
  | none => []

/-- An instruction. -/
def writeInstruction (table : List String) (i : Instruction) : List UInt8 :=
  let operands := writable i.operands
  number 2 i.op.code ++ number 1 operands.length ++ operands.flatMap (writeOperand table)

/-- A string of the table. -/
def writeString (s : String) : List UInt8 :=
  let bytes := Text.utf8 s
  number 4 bytes.length ++ bytes

/-- A name. -/
def writeName (s : String) : List UInt8 :=
  let bytes := (Text.utf8 s).take 255
  number 1 bytes.length ++ bytes

/-- A function. -/
def writeFunction (f : Function) : List UInt8 :=
  number 4 f.entry ++ [f.params] ++ number 4 f.locals.toNat ++ writeName f.name

/-- The fields before the instructions. -/
def writeHeader (image : Image) : List UInt8 :=
  signature ++ [version.1, version.2] ++ number 4 image.stackSize.toNat ++
    number 4 image.globals.toNat ++ [if image.main.isSome then 1 else 0] ++
    number 4 (image.main.getD 0) ++ [image.priority.code] ++
    number 4 image.priority.userTimeslice.toNat

/-- A table: the count of its entries, and the entries. -/
def writeTable {α : Type} (write : α → List UInt8) (entries : List α) : List UInt8 :=
  number 4 entries.length ++ entries.flatMap write

/-- The executable of an image. -/
def encode (image : Image) : List UInt8 :=
  let table := strings image
  writeHeader image ++ writeTable (writeInstruction table) image.instructions.toList ++
    writeTable writeString table ++ writeTable writeFunction image.functions.toList ++
    writeTable writeName image.hostCalls.toList

end ScriptMachine.Executable
