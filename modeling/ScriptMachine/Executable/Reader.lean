import ScriptMachine.Executable.Format
import ScriptMachine.Image.Valid
import ScriptMachine.Text.Utf8

/-!
# Reading executables

An executable is read field by field, and the first field that is missing or wrong decides
the error. What follows the last field is ignored. Texts that are not UTF-8 are read with
replacement characters. The image that results is validated.
-/

namespace ScriptMachine.Executable

/-- A reader takes its field from the front of the remaining bytes. -/
abbrev Reader := StateT (List UInt8) (Except LoadError)

namespace Reader

/-- Refuse the executable as malformed. -/
def malformed {α : Type} (reason : Malformation) : Reader α :=
  throw (.malformed reason)

/-- One byte. -/
def byte : Reader UInt8 := do
  match ← get with
  | b :: rest => set rest; return b
  | [] => malformed .unexpectedEnd

/-- A number of `width` bytes, the low byte first. -/
def number : Nat → Reader Nat
  | 0 => return 0
  | width + 1 => do
    let low ← byte
    let high ← number width
    return low.toNat + 256 * high

/-- A 32-bit word. -/
def word : Reader UInt32 := return UInt32.ofNat (← number 4)

/-- A 32-bit integer. -/
def int : Reader Int32 := return (← word).toInt32

/-- A run of `n` bytes. -/
def bytes (n : Nat) : Reader (List UInt8) := do
  let rest ← get
  let run := rest.take n
  if run.length = n then
    set (rest.drop n)
    return run
  else malformed .unexpectedEnd

/-- A text with its length in `width` bytes before it. -/
def text (width : Nat) : Reader String := do
  let run ← bytes (← number width)
  return Text.ofUtf8 run

/-- A run of `n` fields of one kind, added to those read before. -/
def fields {α : Type} (read : Nat → Reader α) : Nat → Array α → Reader (Array α)
  | 0, done => return done
  | n + 1, done => do
    let x ← read done.size
    fields read n (done.push x)

/-- A table: the count of its entries, and the entries, each read knowing its index. -/
def table {α : Type} (read : Nat → Reader α) : Reader (Array α) := do
  fields read (← number 4) #[]

/-- The signature; an executable too short to hold it is none. -/
def signature : Reader Unit := do
  let rest ← get
  if rest.take 4 = Executable.signature then set (rest.drop 4) else throw .badMagic

/-- The version. -/
def version : Reader Unit := do
  let major ← byte
  let minor ← byte
  if (major, minor) = Executable.version then return () else
    throw (.unsupportedVersion major minor)

/-- An operand as it stands in the file: a value, or an index into the table of strings,
which is read later. -/
inductive RawOperand where
  | value (v : Value)
  | string (index : Nat)
deriving DecidableEq, Repr

/-- An operand of instruction `ip`. -/
def operand (ip : Nat) : Reader RawOperand := do
  let code ← byte
  match Tag.ofCode? code with
  | none => malformed (.unknownTag ip code)
  | some .int => return .value (.int (← int))
  | some .float => return .value (.float ⟨← word⟩)
  | some .string => return .string (← number 4)
  | some .stackIndex => return .value (.stackIndex (← int))
  | some .relStackIndex => do
    let base ← int
    let offset ← int
    return .value (.relStackIndex base offset)
  | some .instrIndex => return .value (.instrIndex (← number 4))
  | some .funcIndex => return .value (.funcIndex (← number 4))
  | some .hostCallIndex => return .value (.hostCallIndex (← number 4))
  | some .register => do
    let code ← number 4
    match register? code with
    | some r => return .value (.register r)
    | none => malformed (.unknownRegister ip code)

/-- Instruction `ip` with its operands as they stand in the file. -/
def instruction (ip : Nat) : Reader (Opcode × Array RawOperand) := do
  let code ← number 2
  match Opcode.ofCode? code with
  | none => malformed (.unknownOpcode ip code)
  | some op => do
    let count ← number 1
    let operands ← fields (fun _ => operand ip) count #[]
    return (op, operands)

/-- A function. -/
def function : Reader Function := do
  let entry ← number 4
  let params ← byte
  let locals ← word
  let name ← text 1
  return { name, entry, params, locals }

/-- The value of an operand of instruction `ip`, once the strings are known. -/
def resolve (strings : Array String) (ip : Nat) : RawOperand → Except LoadError Value
  | .value v => .ok v
  | .string i =>
    match strings[i]? with
    | some s => .ok (.string s)
    | none => .error (.malformed (.stringOutOfRange ip i strings.size))

/-- The instructions with their operands resolved; the first that fails decides. -/
def resolveAll (strings : Array String) (raw : Array (Opcode × Array RawOperand)) :
    Except LoadError (Array Instruction) :=
  (raw.mapIdx fun ip i => (ip, i)).mapM fun (ip, op, operands) => do
    let operands ← operands.toList.mapM (resolve strings ip)
    return { op, operands }

/-- The priority, by its code and its time. -/
def priority : Reader Priority := do
  let code ← byte
  let ms ← word
  match Priority.ofCode? code ms with
  | some p => return p
  | none => malformed (.unknownPriority code)

/-- The image that the fields of an executable describe. -/
def image : Reader Image := do
  signature
  version
  let stackSize ← word
  let globals ← word
  let hasMain ← byte
  let main ← number 4
  let priority ← priority
  let raw ← table instruction
  let strings ← table fun _ => text 4
  let instructions ← resolveAll strings raw
  let functions ← table fun _ => function
  let hostCalls ← table fun _ => text 1
  return {
    stackSize, globals, priority, instructions, functions, hostCalls
    main := if hasMain = 0 then none else some main }

end Reader

/-- The valid image of an executable. -/
def decode (bytes : List UInt8) : Except LoadError Image := do
  let (image, _) ← Reader.image.run bytes
  image.validate
  return image

/-- An image that was read is validated. -/
theorem decode_of_run {bytes rest : List UInt8} {image : Image}
    (h : Reader.image.run bytes = .ok (image, rest)) :
    decode bytes = image.validate.map fun _ => image := by
  rw [decode, h]
  cases hvalid : image.validate <;> simp [bind, Except.bind, hvalid, Except.map, pure, Except.pure]

theorem decode_eq_ok {bytes : List UInt8} {image : Image} :
    decode bytes = .ok image ↔
      (∃ rest, Reader.image.run bytes = .ok (image, rest)) ∧ image.Valid := by
  cases hread : Reader.image.run bytes with
  | error e => simp [decode, hread, bind, Except.bind]
  | ok r =>
    rw [decode_of_run hread, ← Image.validate_eq_ok]
    constructor
    · intro h
      cases hvalid : r.1.validate with
      | error e =>
        rw [hvalid] at h
        cases h
      | ok u =>
        rw [hvalid] at h
        cases h
        exact ⟨⟨_, rfl⟩, hvalid⟩
    · rintro ⟨⟨rest, h⟩, hvalid⟩
      cases h
      rw [hvalid]
      rfl

end ScriptMachine.Executable
