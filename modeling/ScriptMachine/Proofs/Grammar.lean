import ScriptMachine.Image.Basic
import ScriptMachine.Text.Utf8

/-!
# The grammar of executables

Which bytes describe which image, said without a reader or a writer: each form relates the bytes
of a field to what the field stands for. A form does not see what follows its field, so an
executable may go on behind its last field.

The table of strings comes after the instructions that use it. So the forms of operands and of
instructions are given the strings, and the form of an image says that both use the same ones. A
string need not be used, may stand in the table twice, and may be used any number of times.
-/

namespace ScriptMachine.Executable.Grammar

/-- The number that bytes stand for, the low byte first. -/
def value : List UInt8 → Nat
  | [] => 0
  | low :: high => low.toNat + 256 * value high

/-- A number of `width` bytes. -/
structure IsNumber (width : Nat) (field : List UInt8) (n : Nat) : Prop where
  length : field.length = width
  value : value field = n

/-- A 32-bit integer in two's complement. -/
def IsInteger (field : List UInt8) (i : Int32) : Prop := IsNumber 4 field i.toUInt32.toNat

/-- A text with its length in `width` bytes before it. What is not UTF-8 in it is replaced. -/
inductive IsText (width : Nat) : List UInt8 → String → Prop
  | mk {length run : List UInt8} : IsNumber width length run.length →
      IsText width (length ++ run) (Text.ofUtf8 run)

/-- Entries one after the other. -/
inductive IsRun {α : Type} (IsEntry : List UInt8 → α → Prop) : List UInt8 → List α → Prop
  | nil : IsRun IsEntry [] []
  | cons {entry rest : List UInt8} {x : α} {xs : List α} :
      IsEntry entry x → IsRun IsEntry rest xs → IsRun IsEntry (entry ++ rest) (x :: xs)

/-- A table: the count of its entries, and exactly as many entries. -/
inductive IsTable {α : Type} (IsEntry : List UInt8 → α → Prop) : List UInt8 → List α → Prop
  | mk {count entries : List UInt8} {xs : List α} :
      IsNumber 4 count xs.length → IsRun IsEntry entries xs → IsTable IsEntry (count ++ entries) xs

/-- An operand: its tag and its payload. -/
inductive IsOperand (strings : List String) : List UInt8 → Value → Prop
  | int {p : List UInt8} {i : Int32} : IsInteger p i → IsOperand strings (0 :: p) (.int i)
  | float {p : List UInt8} {x : Binary32} :
      IsNumber 4 p x.bits.toNat → IsOperand strings (1 :: p) (.float x)
  /-- The payload is the index of the text. -/
  | string {p : List UInt8} {i : Nat} {s : String} :
      IsNumber 4 p i → strings[i]? = some s → IsOperand strings (2 :: p) (.string s)
  | stackIndex {p : List UInt8} {i : Int32} :
      IsInteger p i → IsOperand strings (3 :: p) (.stackIndex i)
  | relStackIndex {p q : List UInt8} {base offset : Int32} : IsInteger p base →
      IsInteger q offset → IsOperand strings (4 :: (p ++ q)) (.relStackIndex base offset)
  | instrIndex {p : List UInt8} {i : Nat} :
      IsNumber 4 p i → IsOperand strings (5 :: p) (.instrIndex i)
  | funcIndex {p : List UInt8} {i : Nat} :
      IsNumber 4 p i → IsOperand strings (6 :: p) (.funcIndex i)
  | hostCallIndex {p : List UInt8} {i : Nat} :
      IsNumber 4 p i → IsOperand strings (7 :: p) (.hostCallIndex i)
  /-- The only register has the code zero. -/
  | register {p : List UInt8} :
      IsNumber 4 p 0 → IsOperand strings (8 :: p) (.register .returnValue)

/-- An instruction: the code of what it does, the count of its operands, and its operands. -/
inductive IsInstruction (strings : List String) : List UInt8 → Instruction → Prop
  | mk {code count operands : List UInt8} {op : Opcode} {vs : List Value} :
      IsNumber 2 code op.code → IsNumber 1 count vs.length →
      IsRun (IsOperand strings) operands vs →
      IsInstruction strings (code ++ count ++ operands) ⟨op, vs⟩

/-- A function: its entry, its parameters, the size of its locals, and its name. -/
inductive IsFunction : List UInt8 → Function → Prop
  | mk {entry locals name : List UInt8} {f : Function} :
      IsNumber 4 entry f.entry → IsNumber 4 locals f.locals.toNat → IsText 1 name f.name →
      IsFunction (entry ++ [f.params] ++ locals ++ name) f

/-- Main: whether there is one, and its index, which is there in any case. -/
inductive IsMain : List UInt8 → Option Nat → Prop
  | absent {index : List UInt8} : index.length = 4 → IsMain (0 :: index) none
  | present {flag : UInt8} {index : List UInt8} {i : Nat} :
      flag ≠ 0 → IsNumber 4 index i → IsMain (flag :: index) (some i)

/-- The priority: its code and a time, which is there in any case but counts only for a priority
of the user's own. -/
inductive IsPriority : List UInt8 → Priority → Prop
  | user {time : List UInt8} {ms : UInt32} :
      IsNumber 4 time ms.toNat → IsPriority (0 :: time) (.user ms)
  | low {time : List UInt8} : time.length = 4 → IsPriority (1 :: time) .low
  | medium {time : List UInt8} : time.length = 4 → IsPriority (2 :: time) .medium
  | high {time : List UInt8} : time.length = 4 → IsPriority (3 :: time) .high

/-- What every executable starts with. -/
def magic : List UInt8 := [0x58, 0x53, 0x45, 0x30]

/-- An executable of version 0.8. -/
inductive IsImage : List UInt8 → Image → Prop
  | mk {stackSize globals main priority code texts functions hostCalls : List UInt8} {x : Image}
      {strings : List String} :
      IsNumber 4 stackSize x.stackSize.toNat → IsNumber 4 globals x.globals.toNat →
      IsMain main x.main → IsPriority priority x.priority →
      IsTable (IsInstruction strings) code x.instructions.toList →
      IsTable (IsText 4) texts strings →
      IsTable IsFunction functions x.functions.toList →
      IsTable (IsText 1) hostCalls x.hostCalls.toList →
      IsImage (magic ++ [0, 8] ++ stackSize ++ globals ++ main ++ priority ++ code ++ texts ++
        functions ++ hostCalls) x

/-- Bytes that begin with an executable of an image. -/
def Describes (bytes : List UInt8) (x : Image) : Prop :=
  ∃ executable, executable <+: bytes ∧ IsImage executable x

end ScriptMachine.Executable.Grammar
