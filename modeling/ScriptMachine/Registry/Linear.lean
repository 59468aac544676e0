import ScriptMachine.Registry.Scope
import ScriptMachine.Text.Case
import ScriptMachine.Text.Quoted

/-!
# The linear registry

Host functions in the order of their registration. A name is looked up from the front, so of
two registrations that a thread can call the earlier one wins. Registering a name again in
its scope replaces the callback and keeps the place.
-/

namespace ScriptMachine.Registry

/-- A registered host function. -/
structure Entry (κ : Type) where
  name : String
  scope : Scope
  callback : κ
deriving DecidableEq, Repr

/-- The registered host functions, the first one first. -/
structure Linear (κ : Type) where
  entries : List (Entry κ) := []
deriving DecidableEq, Repr

namespace Linear

variable {κ : Type}

/-- Register a callback, or replace the one registered under this name in this scope. -/
def register (r : Linear κ) (scope : Scope) (name : String) (callback : κ) : Linear κ :=
  match r.entries.findIdx? fun e => e.scope = scope && Text.sameName e.name name with
  | some i => ⟨r.entries.modify i fun e => { e with callback }⟩
  | none => ⟨r.entries ++ [{ name, scope, callback }]⟩

/-- The callback that a thread reaches by a name. -/
def resolve? (r : Linear κ) (name : String) (id : ThreadId) : Option κ :=
  (r.entries.find? fun e => e.scope.admits id && Text.sameName e.name name).map (·.callback)

/-- Drop what is registered for one thread. -/
def removeThread (r : Linear κ) (id : ThreadId) : Linear κ :=
  ⟨r.entries.filter fun e => e.scope ≠ .thread id⟩

def size (r : Linear κ) : Nat := r.entries.length

/-- The names and scopes, in order. -/
def written (r : Linear κ) : String :=
  let entries := r.entries.map fun e =>
    "(" ++ Text.quoted e.name ++ ", " ++ e.scope.written ++ ")"
  "[" ++ ", ".intercalate entries ++ "]"

end Linear
end ScriptMachine.Registry
