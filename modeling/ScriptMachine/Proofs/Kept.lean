import Mathlib.Algebra.Ring.Nat
import ScriptMachine.Executable.Writer
import ScriptMachine.Proofs.Reader
import ScriptMachine.Proofs.Utf8

/-!
# What an executable keeps of an image

A field of an executable has room for so much. Of an index it keeps the low 32 bits, of a name the
first 255 bytes, and of the operands those that have a tag. `kept` is the image that is left then.
It loses nothing more when it is written itself (`kept_kept`).
-/

namespace ScriptMachine.Executable

/-- What is left of a name. A last character that is cut is replaced. -/
def keptName (s : String) : String := Text.ofUtf8 ((Text.utf8 s).take 255)

/-- What is left of an operand that has a tag. -/
def keptValue : Value → Value
  | .instrIndex n => .instrIndex (n % 2 ^ 32)
  | .funcIndex n => .funcIndex (n % 2 ^ 32)
  | .hostCallIndex n => .hostCallIndex (n % 2 ^ 32)
  | v => v

/-- What is left of an instruction. -/
def keptInstruction (i : Instruction) : Instruction :=
  { i with operands := (writable i.operands).map keptValue }

/-- What is left of a function. -/
def keptFunction (f : Function) : Function :=
  { f with name := keptName f.name, entry := f.entry % 2 ^ 32 }

/-- What is left of an image. -/
def kept (x : Image) : Image :=
  { x with
    main := x.main.map (· % 2 ^ 32)
    instructions := x.instructions.map keptInstruction
    functions := x.functions.map keptFunction
    hostCalls := x.hostCalls.map keptName }

variable {x : Image} {i : Instruction} {v : Value} {s : String}

/-! ## Names -/

theorem keptName_eq (s : String) : keptName s = String.ofList (Text.clip 255 s.toList) :=
  Text.ofUtf8_take_utf8 255 s

/-- A short name is left as it is. -/
theorem keptName_of_length_le (h : (Text.utf8 s).length ≤ 255) : keptName s = s := by
  rw [keptName, List.take_of_length_le h, Text.ofUtf8_utf8]

@[simp] theorem keptName_keptName (s : String) : keptName (keptName s) = keptName s := by
  simp only [keptName_eq, String.toList_ofList, Text.clip_clip]

/-! ## Operands -/

@[simp] theorem of?_keptValue (v : Value) : Tag.of? (keptValue v) = Tag.of? v := by
  cases v <;> rfl

@[simp] theorem keptValue_keptValue (v : Value) : keptValue (keptValue v) = keptValue v := by
  cases v <;> simp [keptValue]

/-- What is left of the operands has a tag. -/
theorem writable_kept (i : Instruction) :
    writable (keptInstruction i).operands = (keptInstruction i).operands := by
  refine List.filter_eq_self.2 fun v hv => ?_
  obtain ⟨w, hw, rfl⟩ := List.mem_map.1 hv
  rw [of?_keptValue]
  exact (List.mem_filter.1 hw).2

@[simp] theorem keptInstruction_keptInstruction (i : Instruction) :
    keptInstruction (keptInstruction i) = keptInstruction i := by
  rw [keptInstruction, writable_kept]
  simp [keptInstruction, Function.comp_def]

/-- Every operand with a text has a written form. -/
theorem filterMap_text?_writable (vs : List Value) :
    (writable vs).filterMap text? = vs.filterMap text? := by
  rw [writable, List.filterMap_filter]
  congr 1
  funext v
  cases v <;> rfl

/-- The operands with a text are left. -/
theorem filterMap_text?_kept (i : Instruction) :
    (keptInstruction i).operands.filterMap text? = i.operands.filterMap text? := by
  rw [keptInstruction, List.filterMap_map, ← filterMap_text?_writable i.operands]
  congr 1
  funext v
  cases v <;> rfl

/-! ## Images -/

@[simp] theorem strings_kept (x : Image) : strings (kept x) = strings x := by
  simp only [strings, kept, Array.toList_map, List.flatMap_map, filterMap_text?_kept]

@[simp] theorem kept_kept (x : Image) : kept (kept x) = kept x := by
  simp [kept, Function.comp_def, keptFunction]

/-- What is left of an image that has room for all but its names. -/
def keptNames (x : Image) : Image :=
  { x with
    functions := x.functions.map fun f => { f with name := keptName f.name }
    hostCalls := x.hostCalls.map keptName }

/-- An instruction is left as it is if all its operands have a tag and its indices have room. -/
theorem keptInstruction_eq_self (htagged : ∀ v ∈ i.operands, (Tag.of? v).isSome = true)
    (hindex : ∀ n, .instrIndex n ∈ i.operands ∨ .funcIndex n ∈ i.operands ∨
      .hostCallIndex n ∈ i.operands → n < 2 ^ 32) : keptInstruction i = i := by
  have hvalue : ∀ v ∈ i.operands, keptValue v = v := by
    intro v hv
    cases v with
    | instrIndex n => exact congrArg _ (Nat.mod_eq_of_lt (hindex n (.inl hv)))
    | funcIndex n => exact congrArg _ (Nat.mod_eq_of_lt (hindex n (.inr (.inl hv))))
    | hostCallIndex n => exact congrArg _ (Nat.mod_eq_of_lt (hindex n (.inr (.inr hv))))
    | _ => rfl
  have hwritable : writable i.operands = i.operands := List.filter_eq_self.2 htagged
  rw [keptInstruction, hwritable, List.map_congr_left hvalue, List.map_id']

theorem kept_eq_keptNames (htagged : x.Tagged)
    (hindex : ∀ i ∈ x.instructions, ∀ n, .instrIndex n ∈ i.operands ∨
      .funcIndex n ∈ i.operands ∨ .hostCallIndex n ∈ i.operands → n < 2 ^ 32)
    (hmain : ∀ f ∈ x.main, f < 2 ^ 32) (hentry : ∀ f ∈ x.functions, f.entry < 2 ^ 32) :
    kept x = keptNames x := by
  have hmain' : x.main.map (· % 2 ^ 32) = x.main := by
    cases hf : x.main with
    | none => rfl
    | some f => exact congrArg some (Nat.mod_eq_of_lt (hmain f hf))
  have hinstructions : x.instructions.map keptInstruction = x.instructions :=
    (Array.map_congr_left fun i hi => keptInstruction_eq_self (htagged i hi) (hindex i hi)).trans
      (Array.map_id' _)
  have hfunctions : x.functions.map keptFunction =
      x.functions.map fun f => { f with name := keptName f.name } := by
    refine Array.map_congr_left fun f hf => ?_
    rw [keptFunction, Nat.mod_eq_of_lt (hentry f hf)]
  rw [kept, keptNames, hmain', hinstructions, hfunctions]

theorem keptNames_eq_self (hfunction : ∀ f ∈ x.functions, keptName f.name = f.name)
    (hhostCall : ∀ name ∈ x.hostCalls, keptName name = name) : keptNames x = x := by
  have hfunctions : (x.functions.map fun f => { f with name := keptName f.name }) = x.functions :=
    (Array.map_congr_left fun f hf => by rw [hfunction f hf]).trans (Array.map_id' _)
  have hhostCalls : x.hostCalls.map keptName = x.hostCalls :=
    (Array.map_congr_left hhostCall).trans (Array.map_id' _)
  rw [keptNames, hfunctions, hhostCalls]

end ScriptMachine.Executable
