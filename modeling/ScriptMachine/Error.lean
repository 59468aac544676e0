import ScriptMachine.Opcode
import ScriptMachine.Value

/-!
# Errors

Three layers of failure. A `Fault` stops the one thread that meets it. A `CallError` is the
answer to a host operation on a thread that could not be carried out. A `LoadError` says why
an image did not become a thread. Each is a cause; its wording is in its `message`.
-/

namespace ScriptMachine

/-- The position of a thread among the machine's thread slots. -/
abbrev ThreadId := Nat

/-! ## Faults -/

/-- Why a thread was stopped. -/
inductive Fault where
  | stackIndexOutOfRange (index : Int) (top capacity : Nat)
  | stackOverflow (capacity : Nat)
  | stackUnderflow
  /-- A destination operand that names no location. -/
  | notAssignable (operand : Nat) (kind : Kind)
  | missingOperand (operand : Nat)
  | operandKind (operand : Nat) (expected found : Kind)
  /-- A call of a function that the table does not have. -/
  | noSuchFunction
  | unresolvedHostCall (name : String)
  | divisionByZero
  | stringIndexOutOfRange (index : Int32) (length : Nat)
  /-- A return that finds something else than a frame's linkage. -/
  | badReturn (found : Kind)
  /-- A return through a marker whose function the table does not have. -/
  | danglingReturn
  | instructionPointer (ip length : Nat)
deriving DecidableEq, Repr

/-- The wording of a fault. -/
def Fault.message : Fault → String
  | stackIndexOutOfRange index top capacity =>
    s!"stack index {index} out of range (top {top}, capacity {capacity})"
  | stackOverflow capacity => s!"stack overflow (capacity {capacity})"
  | stackUnderflow => "stack underflow"
  | notAssignable operand kind =>
    s!"operand {operand} ({kind.name}) is not an assignable location"
  | missingOperand operand => s!"operand {operand} is missing"
  | operandKind operand expected found =>
    s!"operand {operand}: expected {expected.name}, found {found.name}"
  | noSuchFunction => "operand 0: expected function index, found out-of-range index"
  | unresolvedHostCall name => "no host function `" ++ name ++ "` visible to this thread"
  | divisionByZero => "integer division by zero"
  | stringIndexOutOfRange index length =>
    s!"string index {index.toInt} out of range for length {length}"
  | badReturn found => s!"return without a call frame marker (found {found.name})"
  | danglingReturn => "return without a call frame marker (found dangling function index)"
  | instructionPointer ip length =>
    s!"instruction pointer {ip} past end of stream ({length} instructions)"

/-! ## Failed host operations -/

/-- Why a host operation on a thread failed. -/
inductive CallError where
  | invalidThread (id : ThreadId)
  | unknownFunction (name : String)
  /-- The thread stopped before its synchronous call returned. -/
  | aborted
  | fault (fault : Fault)
deriving DecidableEq, Repr

/-- The wording of a failed operation; a fault speaks for itself. -/
def CallError.message : CallError → String
  | invalidThread id => s!"thread {id} is not loaded"
  | unknownFunction name => "function `" ++ name ++ "` not found"
  | aborted => "thread stopped before the call returned"
  | fault f => f.message

/-! ## Failed loads -/

/-- Why a file could not be read. -/
inductive FileError where
  | notFound
  | isDirectory
  | notDirectory
  | permissionDenied
  /-- The bytes of a text file are not UTF-8. -/
  | notText
  | other (message : String)
deriving DecidableEq, Repr

/-- The wording of a file error. -/
def FileError.message : FileError → String
  | notFound => "No such file or directory (os error 2)"
  | isDirectory => "Is a directory (os error 21)"
  | notDirectory => "Not a directory (os error 20)"
  | permissionDenied => "Permission denied (os error 13)"
  | notText => "stream did not contain valid UTF-8"
  | other text => text

/-- What is wrong with an image. -/
inductive Malformation where
  | unexpectedEnd
  | unknownPriority (code : UInt8)
  | unknownOpcode (ip code : Nat)
  | unknownTag (ip : Nat) (tag : UInt8)
  | unknownRegister (ip code : Nat)
  | stringOutOfRange (ip index count : Nat)
  | mainOutOfRange (main count : Nat)
  | entryOutOfRange (index : Nat) (name : String) (entry count : Nat)
  | operandCount (ip : Nat) (op : Opcode) (expected found : Nat)
  | operandOutOfRange (ip : Nat) (op : Opcode) (operand : Value)
  | wrongTarget (ip : Nat) (op : Opcode)
  /-- The frames of the globals and of main do not fit the stack. -/
  | initialFrames (fault : Fault)
deriving DecidableEq, Repr

/-- The wording of a malformation. -/
def Malformation.message : Malformation → String
  | unexpectedEnd => "unexpected end of image"
  | unknownPriority code => s!"unknown priority type {code.toNat}"
  | unknownOpcode ip code => s!"instruction {ip}: opcode {code}"
  | unknownTag ip tag => s!"instruction {ip}: operand tag {tag.toNat}"
  | unknownRegister ip code => s!"instruction {ip}: register {code}"
  | stringOutOfRange ip index count =>
    s!"instruction {ip}: string index {index} out of range ({count} strings)"
  | mainOutOfRange main count => s!"_Main index {main} out of range ({count} functions)"
  | entryOutOfRange index name entry count =>
    s!"function #{index} `" ++ name ++
      s!"` entry point {entry} out of range ({count} instructions)"
  | operandCount ip op expected found =>
    s!"instruction {ip} {op.mnemonic}: expected {expected} operands, found {found}"
  | operandOutOfRange ip op operand =>
    s!"instruction {ip} {op.mnemonic}: operand {operand.written} out of range"
  | wrongTarget ip op => s!"instruction {ip} {op.mnemonic}: wrong target operand kind"
  | initialFrames fault => s!"initial frames: {fault.message}"

/-- Why an image did not become a thread. -/
inductive LoadError where
  | file (error : FileError)
  | badMagic
  | unsupportedVersion (major minor : UInt8)
  | malformed (reason : Malformation)
  | outOfMemory (requested : Nat)
  | outOfThreads (limit : Nat)
deriving DecidableEq, Repr

/-- The wording of a failed load. -/
def LoadError.message : LoadError → String
  | file error => s!"i/o error: {error.message}"
  | badMagic => "invalid format: missing XSE0 magic"
  | unsupportedVersion major minor => s!"unsupported version {major.toNat}.{minor.toNat}"
  | malformed reason => s!"malformed image: {reason.message}"
  | outOfMemory requested => s!"out of memory: {requested} stack slots requested"
  | outOfThreads limit => s!"out of threads: all {limit} thread slots are in use"

/-- The status code of a failed load. -/
inductive LoadCode where
  | fileIo | invalidFormat | unsupportedVersion | outOfMemory | outOfThreads
deriving DecidableEq, Repr

def LoadError.code : LoadError → LoadCode
  | file _ => .fileIo
  | badMagic | malformed _ => .invalidFormat
  | unsupportedVersion _ _ => .unsupportedVersion
  | outOfMemory _ => .outOfMemory
  | outOfThreads _ => .outOfThreads

/-- The name of a status code. -/
def LoadCode.name : LoadCode → String
  | fileIo => "FileIo"
  | invalidFormat => "InvalidFormat"
  | unsupportedVersion => "UnsupportedVersion"
  | outOfMemory => "OutOfMemory"
  | outOfThreads => "OutOfThreads"

end ScriptMachine
