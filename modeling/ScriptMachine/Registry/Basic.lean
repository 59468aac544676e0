import ScriptMachine.Registry.Hashed
import ScriptMachine.Registry.Linear

/-!
# Registries of host functions

The host functions that scripts can call, in one of two forms with the same answers. Names
are compared ignoring ASCII case. Of a callback registered for every thread and one for the
calling thread, the one registered earlier is called.
-/

namespace ScriptMachine

/-- The two forms of a registry. -/
inductive RegistryKind where
  | linear
  | hashed
deriving DecidableEq, Repr

/-- The host functions that scripts can call. -/
inductive Registry (κ : Type) where
  | linear (r : Registry.Linear κ)
  | hashed (r : Registry.Hashed κ)

namespace Registry

variable {κ : Type}

/-- A registry without functions. -/
def empty : RegistryKind → Registry κ
  | .linear => linear {}
  | .hashed => hashed {}

/-- A form alone stands for the registry of this form without functions. -/
instance : Coe RegistryKind (Registry κ) := ⟨empty⟩

/-- Register a callback, or replace the one registered under this name in this scope. -/
def register (r : Registry κ) (scope : Scope) (name : String) (callback : κ) : Registry κ :=
  match r with
  | linear r => linear (r.register scope name callback)
  | hashed r => hashed (r.register scope name callback)

/-- The callback that a thread reaches by a name. -/
def resolve? (r : Registry κ) (name : String) (id : ThreadId) : Option κ :=
  match r with
  | linear r => r.resolve? name id
  | hashed r => r.resolve? name id

/-- Drop what is registered for one thread. -/
def removeThread (r : Registry κ) (id : ThreadId) : Registry κ :=
  match r with
  | linear r => linear (r.removeThread id)
  | hashed r => hashed (r.removeThread id)

/-- Drop everything. -/
def clear : Registry κ → Registry κ
  | linear _ => linear {}
  | hashed r => hashed r.clear

/-- How many functions are registered. -/
def size : Registry κ → Nat
  | linear r => r.size
  | hashed r => r.size

def isEmpty (r : Registry κ) : Bool := r.size = 0

end Registry
end ScriptMachine
