import ScriptMachine.Image.Basic

/-!
# Configuration

The limits of a machine and the lengths of its timeslices.
-/

namespace ScriptMachine

/-- What a machine is configured with. -/
structure Config where
  maxThreads : Nat := 1024
  /-- The stack slots of an image that asks for none in particular. -/
  defaultStackSize : Nat := 1024
  maxStackSize : Nat := 1048576
  timesliceLow : UInt32 := 20
  timesliceMedium : UInt32 := 40
  timesliceHigh : UInt32 := 80
  /-- Whether instructions are traced from the start. -/
  trace : Bool := false
deriving DecidableEq, Repr, Inhabited

/-- The timeslice of a priority, in milliseconds. -/
def Config.timeslice (c : Config) (p : Priority) : UInt64 :=
  match p with
  | .user ms => ms.toUInt64
  | .low => c.timesliceLow.toUInt64
  | .medium => c.timesliceMedium.toUInt64
  | .high => c.timesliceHigh.toUInt64

end ScriptMachine
