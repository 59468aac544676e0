import ScriptMachine.Error

/-!
# Scopes

A host function is registered for every thread or for one.
-/

namespace ScriptMachine

/-- Which threads can call a host function. -/
inductive Scope where
  | global
  | thread (id : ThreadId)
deriving DecidableEq, Repr, Hashable

/-- Whether a thread can call what is registered in a scope. -/
def Scope.admits (s : Scope) (id : ThreadId) : Bool :=
  match s with
  | .global => true
  | .thread owner => owner = id

/-- A scope as the debugging form of a registry shows it. -/
def Scope.written : Scope → String
  | .global => "Global"
  | .thread id => s!"Thread(ThreadHandle({id}))"

end ScriptMachine
