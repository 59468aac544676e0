/-!
# Instruction codes

The thirty-three instructions, in the order of their codes in an executable.
-/

namespace ScriptMachine

/-- The instructions of the machine. -/
inductive Opcode where
  | mov | add | sub | mul | div | mod | exp | neg | inc | dec
  | and | or | xor | not | shl | shr
  | concat | getChar | setChar
  | jmp | je | jne | jg | jl | jge | jle
  | push | pop | call | ret | callHost | pause | exit
deriving DecidableEq, Repr, Inhabited

namespace Opcode

/-- Every instruction, in the order of the codes. -/
def all : List Opcode :=
  [mov, add, sub, mul, div, mod, exp, neg, inc, dec, and, or, xor, not, shl, shr, concat,
    getChar, setChar, jmp, je, jne, jg, jl, jge, jle, push, pop, call, ret, callHost, pause, exit]

/-- The code of an instruction. -/
def code (op : Opcode) : Nat := op.ctorIdx

/-- The instruction of a code. -/
def ofCode? (n : Nat) : Option Opcode := all[n]?

@[simp] theorem ofCode?_code (op : Opcode) : ofCode? op.code = some op := by
  cases op <;> rfl

private theorem code_getElem : ∀ i : Fin all.length, all[i].code = i.1 := by decide

theorem code_of_ofCode? {n : Nat} {op : Opcode} (h : ofCode? n = some op) : op.code = n := by
  obtain ⟨hn, rfl⟩ := List.getElem?_eq_some_iff.1 h
  exact code_getElem ⟨n, hn⟩

/-- How many operands the instruction takes. -/
def operandCount : Opcode → Nat
  | ret => 0
  | neg | inc | dec | not | jmp | push | pop | call | callHost | pause | exit => 1
  | getChar | setChar | je | jne | jg | jl | jge | jle => 3
  | mov | add | sub | mul | div | mod | exp | and | or | xor | shl | shr | concat => 2

/-- The instruction's name in listings. -/
def mnemonic : Opcode → String
  | mov => "MOV"
  | add => "ADD"
  | sub => "SUB"
  | mul => "MUL"
  | div => "DIV"
  | mod => "MOD"
  | exp => "EXP"
  | neg => "NEG"
  | inc => "INC"
  | dec => "DEC"
  | and => "AND"
  | or => "OR"
  | xor => "XOR"
  | not => "NOT"
  | shl => "SHL"
  | shr => "SHR"
  | concat => "CONCAT"
  | getChar => "GETCHAR"
  | setChar => "SETCHAR"
  | jmp => "JMP"
  | je => "JE"
  | jne => "JNE"
  | jg => "JG"
  | jl => "JL"
  | jge => "JGE"
  | jle => "JLE"
  | push => "PUSH"
  | pop => "POP"
  | call => "CALL"
  | ret => "RET"
  | callHost => "CALLHOST"
  | pause => "PAUSE"
  | exit => "EXIT"

end Opcode
end ScriptMachine
