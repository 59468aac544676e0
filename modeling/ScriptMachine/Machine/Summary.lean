import ScriptMachine.Digest
import ScriptMachine.Json.Printer
import ScriptMachine.Machine.Basic

/-!
# Summaries

What can be said about a loaded thread in a few lines.
-/

namespace ScriptMachine

/-- The summary of a loaded thread. -/
structure Summary where
  id : ThreadId
  priority : Priority
  timeslice : UInt64
  stackSize : Nat
  globals : UInt32
  main : Option String
  functions : List String
  hostCalls : List String
  instructions : Nat
  running : Bool
  paused : Bool
  stats : Stats
  /-- The digest of the bytes it was loaded from, in hexadecimal. -/
  digest : Option String
deriving DecidableEq, Repr

/-- The summary of a thread. -/
def Thread.summary (t : Thread) (id : ThreadId) : Summary where
  id
  priority := t.priority
  timeslice := t.timeslice
  stackSize := t.stack.capacity
  globals := t.program.globals
  main := t.program.mainFunction?.map (·.name)
  functions := t.program.functions.toList.map (·.name)
  hostCalls := t.program.hostCalls.toList
  instructions := t.program.instructions.size
  running := t.running
  paused := t.paused
  stats := t.stats
  digest := t.digest.map Sha256.hex

/-- A priority as JSON: the name of a tier, or an object with the time. -/
def Priority.toJson : Priority → JsonValue
  | .user ms => .object [("user", .number ms.toNat)]
  | p => .string p.written

namespace Summary

/-- A text as JSON, null if there is none. -/
def optional (s : Option String) : JsonValue :=
  (s.map JsonValue.string).getD .null

/-- A summary as JSON. -/
def toJson (s : Summary) : JsonValue :=
  .object [
    ("thread", .number s.id),
    ("priority", s.priority.toJson),
    ("timeslice_ms", .number s.timeslice.toNat),
    ("stack_size", .number s.stackSize),
    ("global_data_size", .number s.globals.toNat),
    ("main", optional s.main),
    ("functions", .array (s.functions.map .string)),
    ("host_calls", .array (s.hostCalls.map .string)),
    ("instructions", .number s.instructions),
    ("running", .bool s.running),
    ("paused", .bool s.paused),
    ("stats", .object [
      ("turns", .number s.stats.turns), ("instructions", .number s.stats.instructions)]),
    ("sha256", optional s.digest)]

end Summary

/-- The summary of a loaded thread. -/
def Machine.summary? {κ μ : Type} (m : Machine κ μ) (id : ThreadId) : Option Summary :=
  (m.thread? id).map (·.summary id)

end ScriptMachine
