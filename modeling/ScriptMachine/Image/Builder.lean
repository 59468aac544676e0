import ScriptMachine.Image.Basic

/-!
# Building images

An `Image.Builder` assembles an image one instruction at a time. The steps that make
something answer with its index, which stays valid in the finished image.
-/

namespace ScriptMachine.Image

/-- An image under construction, and whether its main function was chosen. -/
structure Builder where
  image : Image := {}
  choseMain : Bool := false
deriving DecidableEq, Repr, Inhabited

namespace Builder

/-- The name of the function that becomes main when none was chosen. -/
def mainName : String := "_Main"

def setStackSize (b : Builder) (slots : UInt32) : Builder :=
  { b with image.stackSize := slots }

def setGlobals (b : Builder) (slots : UInt32) : Builder :=
  { b with image.globals := slots }

def setPriority (b : Builder) (p : Priority) : Builder :=
  { b with image.priority := p }

/-- Choose the main function, or that there is none. -/
def setMain (b : Builder) (main : Option Nat) : Builder :=
  { b with image.main := main, choseMain := true }

/-- The index of the next instruction. -/
def here (b : Builder) : Nat := b.image.instructions.size

/-- Start a function at the next instruction. -/
def function (b : Builder) (name : String) (params : UInt8) (locals : UInt32) : Nat × Builder :=
  (b.image.functions.size,
    { b with image.functions := b.image.functions.push ⟨name, b.here, params, locals⟩ })

/-- The index of a host function's name, which enters the table when it is first asked for. -/
def hostCall (b : Builder) (name : String) : Nat × Builder :=
  match b.image.hostCalls.findIdx? fun known => Text.sameName known name with
  | some i => (i, b)
  | none => (b.image.hostCalls.size, { b with image.hostCalls := b.image.hostCalls.push name })

/-- Append an instruction. -/
def emit (b : Builder) (op : Opcode) (operands : List Value) : Nat × Builder :=
  (b.here, { b with image.instructions := b.image.instructions.push ⟨op, operands⟩ })

/-- Replace an operand of an instruction; indices out of range change nothing. -/
def patch (b : Builder) (instr operand : Nat) (v : Value) : Builder :=
  { b with image.instructions :=
      b.image.instructions.modify instr fun i => { i with operands := i.operands.set operand v } }

/-- The finished image. -/
def build (b : Builder) : Image :=
  if b.choseMain then b.image else { b.image with main := b.image.findFunction? mainName }

end Builder
end ScriptMachine.Image
