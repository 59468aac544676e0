import ScriptMachine.Error
import ScriptMachine.Image.Basic

/-!
# Valid images

An image is valid if every index in it points into its table, every instruction has as many
operands as it takes, and every jump and call names its target directly. `Image.defect?`
finds what is wrong first: with main, then with the functions, then with the instructions in
their order. `defect?_eq_none_iff` says that it finds nothing exactly in valid images.
-/

namespace ScriptMachine

/-- The operand that a jump or call takes for its target, and the kind it has to have. -/
def Opcode.target? : Opcode → Option (Nat × Kind)
  | jmp => some (0, .instrIndex)
  | je | jne | jg | jl | jge | jle => some (2, .instrIndex)
  | call => some (0, .funcIndex)
  | callHost => some (0, .hostCallIndex)
  | _ => none

/-- Whether a jump or call names its target directly. -/
def Instruction.namesTarget (i : Instruction) : Bool :=
  match i.op.target? with
  | none => true
  | some (n, kind) => (i.operands[n]?).map Value.kind = some kind

namespace Image

/-- Whether an operand points into its table. -/
def admits (image : Image) : Value → Bool
  | .instrIndex i => i < image.instructions.size
  | .funcIndex i => i < image.functions.size
  | .hostCallIndex i => i < image.hostCalls.size
  | _ => true

/-- Every index points into its table, and every instruction has the operands it takes. -/
structure Valid (image : Image) : Prop where
  main : ∀ i ∈ image.main, i < image.functions.size
  entry : ∀ f ∈ image.functions, f.entry < image.instructions.size
  count : ∀ i ∈ image.instructions, i.operands.length = i.op.operandCount
  operand : ∀ i ∈ image.instructions, ∀ v ∈ i.operands, image.admits v = true
  target : ∀ i ∈ image.instructions, i.namesTarget = true

/-- What is wrong with the main function. -/
def mainDefect? (image : Image) : Option Malformation :=
  match image.main with
  | some i =>
    if i < image.functions.size then none else some (.mainOutOfRange i image.functions.size)
  | none => none

/-- What is wrong with a function. -/
def functionDefect? (image : Image) (f : Function) (index : Nat) : Option Malformation :=
  if f.entry < image.instructions.size then none
  else some (.entryOutOfRange index f.name f.entry image.instructions.size)

/-- What is wrong with an instruction: the count of its operands, the first operand out of
range, or its target. -/
def instructionDefect? (image : Image) (i : Instruction) (ip : Nat) : Option Malformation :=
  if i.operands.length = i.op.operandCount then
    match i.operands.find? fun v => !image.admits v with
    | some v => some (.operandOutOfRange ip i.op v)
    | none => if i.namesTarget then none else some (.wrongTarget ip i.op)
  else some (.operandCount ip i.op i.op.operandCount i.operands.length)

/-- What is wrong first. -/
def defect? (image : Image) : Option Malformation :=
  image.mainDefect? <|>
    (image.functions.toList.zipIdx.findSome? fun (f, index) => image.functionDefect? f index) <|>
    (image.instructions.toList.zipIdx.findSome? fun (i, ip) => image.instructionDefect? i ip)

/-- Refuse an image that is not valid. -/
def validate (image : Image) : Except LoadError Unit :=
  match image.defect? with
  | none => .ok ()
  | some reason => .error (.malformed reason)

theorem mainDefect?_eq_none_iff {image : Image} :
    image.mainDefect? = none ↔ ∀ i ∈ image.main, i < image.functions.size := by
  cases h : image.main <;> simp [mainDefect?, h]

theorem functionDefect?_eq_none_iff {image : Image} {f : Function} {index : Nat} :
    image.functionDefect? f index = none ↔ f.entry < image.instructions.size := by
  simp [functionDefect?]

theorem instructionDefect?_eq_none_iff {image : Image} {i : Instruction} {ip : Nat} :
    image.instructionDefect? i ip = none ↔
      i.operands.length = i.op.operandCount ∧ (∀ v ∈ i.operands, image.admits v = true) ∧
        i.namesTarget = true := by
  unfold instructionDefect?
  split
  · rename_i hc
    split
    · rename_i v hv
      have := List.find?_some hv
      have := List.mem_of_find?_eq_some hv
      grind
    · rename_i hv
      simp only [List.find?_eq_none, Bool.not_eq_true, Bool.not_eq_false'] at hv
      grind
  · simp_all

private theorem findSome?_zipIdx_eq_none_iff {α β : Type} {xs : List α} {f : α × Nat → Option β}
    {p : α → Prop} (h : ∀ x n, f (x, n) = none ↔ p x) :
    xs.zipIdx.findSome? f = none ↔ ∀ x ∈ xs, p x := by
  simp only [List.findSome?_eq_none_iff, Prod.forall]
  constructor
  · intro all x hx
    obtain ⟨n, hn, rfl⟩ := List.mem_iff_getElem.1 hx
    exact (h _ n).1 (all _ n (by simp [List.mem_zipIdx_iff_getElem?, hn]))
  · intro all x n hx
    exact (h x n).2 (all x (List.fst_mem_of_mem_zipIdx hx))

/-- Nothing is found wrong exactly in a valid image. -/
theorem defect?_eq_none_iff {image : Image} : image.defect? = none ↔ image.Valid := by
  have hf : (image.functions.toList.zipIdx.findSome? fun (f, index) =>
      image.functionDefect? f index) = none ↔
      ∀ f ∈ image.functions.toList, f.entry < image.instructions.size :=
    findSome?_zipIdx_eq_none_iff fun _ _ => functionDefect?_eq_none_iff
  have hi : (image.instructions.toList.zipIdx.findSome? fun (i, ip) =>
      image.instructionDefect? i ip) = none ↔
      ∀ i ∈ image.instructions.toList, i.operands.length = i.op.operandCount ∧
        (∀ v ∈ i.operands, image.admits v = true) ∧ i.namesTarget = true :=
    findSome?_zipIdx_eq_none_iff fun _ _ => instructionDefect?_eq_none_iff
  simp only [defect?, Option.orElse_eq_orElse, Option.orElse_eq_or, Option.or_eq_none_iff,
    mainDefect?_eq_none_iff, hf, hi, Array.mem_toList_iff]
  constructor
  · rintro ⟨hm, hf, hi⟩
    exact ⟨hm, hf, fun i h => (hi i h).1, fun i h => (hi i h).2.1, fun i h => (hi i h).2.2⟩
  · intro v
    exact ⟨v.main, v.entry, fun i h => ⟨v.count i h, v.operand i h, v.target i h⟩⟩

theorem validate_eq_ok {image : Image} : image.validate = .ok () ↔ image.Valid := by
  rw [← defect?_eq_none_iff, validate]
  cases image.defect? <;> simp

end Image
end ScriptMachine
