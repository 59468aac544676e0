import ScriptMachine.Config.Basic
import ScriptMachine.Error
import ScriptMachine.Json.Reader

/-!
# Configurations in JSON

A configuration is written as an object of its fields, in any order, or as an array of their
values in order. Missing fields keep their defaults, members of other names are skipped, and
a field may be given only once.
-/

namespace ScriptMachine.Config

open Json (Reader)

/-- The fields of a configuration. -/
inductive Field where
  | maxThreads | defaultStackSize | maxStackSize | timesliceLow | timesliceMedium | timesliceHigh
  | trace
deriving DecidableEq, Repr

namespace Field

/-- The fields, in the order of an array. -/
def all : List Field :=
  [maxThreads, defaultStackSize, maxStackSize, timesliceLow, timesliceMedium, timesliceHigh, trace]

/-- The name of a field. -/
def name : Field → String
  | maxThreads => "max_threads"
  | defaultStackSize => "default_stack_size"
  | maxStackSize => "max_stack_size"
  | timesliceLow => "timeslice_low_ms"
  | timesliceMedium => "timeslice_medium_ms"
  | timesliceHigh => "timeslice_high_ms"
  | trace => "trace"

/-- The field of a name; case matters. -/
def ofName? (s : String) : Option Field := all.find? fun f => f.name = s

/-- A count, which has 64 bits. -/
def count : Reader Nat := Reader.natural 0xffffffffffffffff

/-- A time, which has 32 bits. -/
def time : Reader UInt32 := return UInt32.ofNat (← Reader.natural 0xffffffff)

/-- Read the value of a field into a configuration. -/
def read (c : Config) : Field → Reader Config
  | maxThreads => return { c with maxThreads := ← count }
  | defaultStackSize => return { c with defaultStackSize := ← count }
  | maxStackSize => return { c with maxStackSize := ← count }
  | timesliceLow => return { c with timesliceLow := ← time }
  | timesliceMedium => return { c with timesliceMedium := ← time }
  | timesliceHigh => return { c with timesliceHigh := ← time }
  | trace => return { c with trace := ← Reader.bool }

end Field

/-- The elements of an array, for the fields that are left. -/
def readElements : List Field → Bool → Config → Reader Config
  | [], _, c => do
    Reader.endArray
    return c
  | f :: fs, first, c => do
    if ← Reader.nextElement first then readElements fs false (← f.read c)
    else
      Reader.endArray
      return c

/-- The members of an object, after those already seen; `fuel` bounds the length of the text
that is left, and so the number of members. -/
def readMembers : Nat → List Field → Bool → Config → Reader Config
  | 0, _, _, _ => Reader.fail .incomplete
  | fuel + 1, seen, first, c => do
    if ← Reader.nextMember first then
      Reader.skip
      match Field.ofName? (← Reader.string fuel) with
      | some f =>
        if seen.contains f then Reader.fail .mismatch
        Reader.colon
        readMembers fuel (f :: seen) false (← f.read c)
      | none =>
        Reader.colon
        Reader.skipValue fuel
        readMembers fuel seen false c
    else
      Reader.skip
      return c

/-- A configuration and nothing else. -/
def reader : Reader Config := do
  let c ← match ← Reader.peekToken? with
    | none => Reader.fail .incomplete
    | some '[' => Reader.skip; readElements Field.all true {}
    | some '\x7b' => Reader.skip; readMembers ((← get).length + 1) [] true {}
    | some _ => Reader.wrongKind
  Reader.endOfText
  return c

/-- The configuration that a JSON text describes. -/
def ofJson (text : String) : Except Json.ReadError Config :=
  (reader.run text.toList).map Prod.fst

/-- Why a configuration file was not read. -/
inductive FileReadError where
  | file (error : FileError)
  | json (error : Json.ReadError)
deriving DecidableEq, Repr

/-- The wording of a failure. -/
def FileReadError.message : FileReadError → String
  | file error => error.message
  | json .incomplete => "EOF while parsing a value"
  | json .malformed => "malformed JSON"
  | json .mismatch => "invalid value in JSON"

/-- The configuration that a file describes, given its bytes. -/
def ofFile (contents : Except FileError (List UInt8)) : Except FileReadError Config := do
  let bytes ← contents.mapError .file
  match String.fromUTF8? ⟨bytes.toArray⟩ with
  | none => throw (.file .notText)
  | some text => (ofJson text).mapError .json

end ScriptMachine.Config
