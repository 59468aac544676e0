import Std.Data.HashMap
import ScriptMachine.Registry.Scope
import ScriptMachine.Text.Case

/-!
# The hashed registry

Host functions by name and scope. Each entry keeps the number of its registration, so that of
the two entries a thread can call the earlier one wins. Numbers have 64 bits and wrap.
-/

namespace ScriptMachine.Registry

/-- The registered host functions with their numbers, and the next number. -/
structure Hashed (κ : Type) where
  entries : Std.HashMap (String × Scope) (UInt64 × κ) := {}
  next : UInt64 := 0

namespace Hashed

variable {κ : Type}

/-- Register a callback, or replace the one registered under this name in this scope. -/
def register (r : Hashed κ) (scope : Scope) (name : String) (callback : κ) : Hashed κ :=
  let key := (Text.caseKey name, scope)
  match r.entries[key]? with
  | some (number, _) => { r with entries := r.entries.insert key (number, callback) }
  | none => ⟨r.entries.insert key (r.next, callback), r.next + 1⟩

/-- The callback that a thread reaches by a name. -/
def resolve? (r : Hashed κ) (name : String) (id : ThreadId) : Option κ :=
  let key := Text.caseKey name
  match r.entries[(key, Scope.thread id)]?, r.entries[(key, Scope.global)]? with
  | some (m, f), some (n, g) => some (if m < n then f else g)
  | some (_, f), none | none, some (_, f) => some f
  | none, none => none

/-- Drop what is registered for one thread. -/
def removeThread (r : Hashed κ) (id : ThreadId) : Hashed κ :=
  { r with entries := r.entries.filter fun key _ => key.2 ≠ .thread id }

/-- Drop everything. Numbers go on from where they were. -/
def clear (r : Hashed κ) : Hashed κ := { r with entries := {} }

def size (r : Hashed κ) : Nat := r.entries.size

end Hashed
end ScriptMachine.Registry
