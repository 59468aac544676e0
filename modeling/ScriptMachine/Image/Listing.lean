import ScriptMachine.Image.Basic

/-!
# Listings

The written form of instructions, and the listing of a whole image. Function and host-call
operands are shown by name.
-/

namespace ScriptMachine

/-- Lines with a line end after each. -/
def unlines (lines : List String) : String :=
  lines.foldl (fun text line => text ++ line ++ "\n") ""

namespace Image

/-- An operand; an index without an entry in its table shows as an index. -/
def writtenOperand (image : Image) : Value → String
  | .funcIndex i => ((image.functions[i]?).map (·.name)).getD (Value.written (.funcIndex i))
  | .hostCallIndex i => (image.hostCalls[i]?).getD (Value.written (.hostCallIndex i))
  | v => v.written

/-- An instruction with its operands. -/
def writtenInstruction (image : Image) (i : Instruction) : String :=
  let operands := ", ".intercalate (i.operands.map image.writtenOperand)
  if operands.isEmpty then i.op.mnemonic else i.op.mnemonic ++ " " ++ operands

/-- The headings before an instruction: an empty line and a label for each function that
starts there. -/
def labels (image : Image) (ip : Nat) : List String :=
  (image.functions.toList.zipIdx.filter fun (f, _) => f.entry = ip).flatMap fun (f, i) =>
    ["", s!"{f.name}: ; func#{i} params={f.params.toNat} locals={f.locals.toNat}"]

/-- An instruction pointer as listings and traces show it. -/
def writtenPointer (ip : Nat) : String := String.ofList (paddedDecimal 4 ip)

/-- The listing of an image. -/
def listing (image : Image) : String :=
  let main := (image.mainFunction?.map (·.name)).getD "none"
  let header :=
    [s!"stack_size: {image.stackSize.toNat}", s!"globals: {image.globals.toNat}",
      s!"main: {main}", s!"priority: {image.priority.written}"]
  unlines <| header ++ image.instructions.toList.zipIdx.flatMap fun (i, ip) =>
    image.labels ip ++ [writtenPointer ip ++ " " ++ image.writtenInstruction i]

end Image
end ScriptMachine
