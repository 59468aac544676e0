import Mathlib.Logic.Function.Basic
import ScriptMachine.Proofs.Bracket
import ScriptMachine.Proofs.Threads

/-!
# Trees of synchronous calls

A synchronous call runs the body of its function. The body calls host functions, their callbacks
make synchronous calls again, on whatever threads they like, and so on. `CallTree` describes such
a tree from its leaves up: what is carried out, the frames that are open on every thread and the
machine, before and after. It says nothing about how the scheduler gets there, and asks of the
bodies no more than the discipline of `Thread.Step`.
-/

namespace ScriptMachine

open OpenFrame Thread

/-- The open frames of every thread, the innermost one first. -/
abbrev Frames := ThreadId → List OpenFrame

/-- Slots that were written, each with its thread. -/
abbrev Stores := List (ThreadId × Nat)

/-- What is carried out in a tree of calls. -/
inductive Task (κ μ : Type) where
  /-- A synchronous call of the host. -/
  | call (id : ThreadId) (name : String)
  /-- The call of a host function by a thread. -/
  | host (id : ThreadId)
  /-- A callback that a thread waits for, or the rest of one. -/
  | program (id : ThreadId) (p : HostProgram κ μ Unit)
  /-- A function that a pinned thread executes, or a part of one. -/
  | body (id : ThreadId)

/-- A call that occurs in a tree, with the machine before and after. -/
inductive Deed (κ μ : Type) where
  | call (id : ThreadId) (name : String) (before after : Machine κ μ)
  | host (id : ThreadId) (stored : Stores) (before after : Machine κ μ)

/-- The slots that passing an argument to a thread writes. -/
def Machine.topSlot {κ μ : Type} (m : Machine κ μ) (id : ThreadId) : Stores :=
  match m.thread? id with
  | some t => [(id, t.stack.top)]
  | none => []

/-- A tree of synchronous calls, with the open frames and the machine before and after it, the
slots that are written in it, and the calls that occur in it. -/
inductive CallTree {κ μ : Type} (callbacks : Callbacks κ μ) :
    Task κ μ → Frames → Machine κ μ → Stores → List (Deed κ μ) → Frames → Machine κ μ → Prop
  /-- The function is called, its body runs to the return from the frame that the call opened,
  and the return is executed. The parameters are on the stack, above any frame that is open. -/
  | call {F : Frames} {m m₁ m₂ m₃ : Machine κ μ} {id : ThreadId} {name : String} {f : Nat}
      {t t₁ t₂ : Thread} {i : Instruction} {r : Except Fault Flow} {S : Stores}
      {D : List (Deed κ μ)} :
      m.thread? id = some t → t.program.findFunction? name = some f →
      (∀ callee ∈ t.program.functions[f]?,
        floor (F id) + callee.params.toNat ≤ t.stack.top) →
      m.beginCall id name true = (.ok (), m₁) → m₁.thread? id = some t₁ →
      CallTree callbacks (.body id)
        (Function.update F id (opened t f t.ip true t₁ :: F id)) (m₁.pin id).now.2 S D
        (Function.update F id (opened t f t.ip true t₁ :: F id)) m₂ →
      m₂.thread? id = some t₂ → t₂.instruction? t₂.ip = some i → i.op = .ret →
      t₂.stack.top = t₁.stack.base →
      (∀ invoke, m₂.now.2.step invoke id m₂.now.1 = some (r, m₃)) →
      CallTree callbacks (.call id name) F m
        ((id, t.stack.top) :: (id, t₁.stack.base - 1) :: S)
        (.call id name m (m₃.unpin id m.scheduler t.running .syncReturned).2 :: D) F
        (m₃.unpin id m.scheduler t.running .syncReturned).2
  /-- The callback of a host function runs, and the thread goes on. -/
  | host {F : Frames} {m m₁ : Machine κ μ} {id : ThreadId} {t : Thread} {i : Instruction}
      {call : Nat} {callback : κ} {S : Stores} {D : List (Deed κ μ)} :
      m.thread? id = some t → t.instruction? t.ip = some i → i.op = .callHost →
      i.hostCallTarget 0 = .ok call →
      m.registry.resolve? (t.hostCallName call) id = some callback →
      CallTree callbacks (.program id (callbacks callback id)) F (m.entering id t i) S D F m₁ →
      CallTree callbacks (.host id) F m S
        (.host id S m (m₁.modifyThread id (·.settle t.ip .stay)) :: D) F
        (m₁.modifyThread id (·.settle t.ip .stay))
  | finish {F : Frames} {m : Machine κ μ} {id : ThreadId} :
      CallTree callbacks (.program id (.pure ())) F m [] [] F m
  /-- The callback reads its parameters, or anything else. -/
  | inspect {F : Frames} {m m' : Machine κ μ} {id : ThreadId}
      {next : Machine κ μ → HostProgram κ μ Unit} {S : Stores} {D : List (Deed κ μ)} :
      CallTree callbacks (.program id (next m)) F m S D F m' →
      CallTree callbacks (.program id (.inspect next)) F m S D F m'
  | remember {F : Frames} {m m' : Machine κ μ} {id : ThreadId} {g : μ → μ}
      {next : HostProgram κ μ Unit} {S : Stores} {D : List (Deed κ μ)} :
      CallTree callbacks (.program id next) F { m with memory := g m.memory } S D F m' →
      CallTree callbacks (.program id (.remember g next)) F m S D F m'
  /-- The callback passes an argument to a thread. -/
  | pass {F : Frames} {m m' : Machine κ μ} {id x : ThreadId} {v : HostValue}
      {next : Except CallError Unit → HostProgram κ μ Unit} {S : Stores} {D : List (Deed κ μ)} :
      CallTree callbacks (.program id (next (m.pass x v).1)) F (m.pass x v).2 S D F m' →
      CallTree callbacks (.program id (.perform (.pass x v) next)) F m (m.topSlot x ++ S) D F m'
  /-- The callback drops the parameters that its thread has passed, and sets the return value. -/
  | hostReturn {F : Frames} {m m' : Machine κ μ} {id : ThreadId} {t : Thread} {params : Nat}
      {v : Option HostValue} {next : Unit → HostProgram κ μ Unit} {S : Stores}
      {D : List (Deed κ μ)} :
      m.thread? id = some t → floor (F id) + params ≤ t.stack.top →
      CallTree callbacks (.program id (next ())) F (m.hostReturn id params v) S D F m' →
      CallTree callbacks (.program id (.perform (.hostReturn id params v) next)) F m S D F m'
  /-- The callback makes a synchronous call, on its own thread or on another one. -/
  | nested {F : Frames} {m m₁ m' : Machine κ μ} {id x : ThreadId} {name : String}
      {next : Except CallError Unit → HostProgram κ μ Unit} {S S' : Stores}
      {D D' : List (Deed κ μ)} :
      CallTree callbacks (.call x name) F m S D F m₁ →
      CallTree callbacks (.program id (next (.ok ()))) F m₁ S' D' F m' →
      CallTree callbacks (.program id (.perform (.call x name) next)) F m (S ++ S') (D ++ D') F m'
  | rest {F : Frames} {m : Machine κ μ} {id : ThreadId} :
      CallTree callbacks (.body id) F m [] [] F m
  /-- The thread executes an instruction of its own that keeps to the discipline of calls. -/
  | own {F F' : Frames} {m m₁ m' : Machine κ μ} {id : ThreadId} {t t₁ : Thread}
      {i : Instruction} {frames : List OpenFrame} {stored : List Nat} {r : Except Fault Flow}
      {S : Stores} {D : List (Deed κ μ)} :
      m.thread? id = some t → t.instruction? t.ip = some i → i.op ≠ .exit →
      Step m.now.1 true (F id) t stored frames t₁ →
      (∀ invoke, m.now.2.step invoke id m.now.1 = some (r, m₁)) →
      CallTree callbacks (.body id) (Function.update F id frames) m₁ S D F' m' →
      CallTree callbacks (.body id) F m (stored.map (id, ·) ++ S) D F' m'
  | away {F F' : Frames} {m m₁ m' : Machine κ μ} {id : ThreadId} {S S' : Stores}
      {D D' : List (Deed κ μ)} :
      CallTree callbacks (.host id) F m.now.2 S D F m₁ →
      CallTree callbacks (.body id) F m₁ S' D' F' m' →
      CallTree callbacks (.body id) F m (S ++ S') (D ++ D') F' m'

/-! ## What the calls of a tree do -/

/-- A call gives what it is made for: it comes back, and leaves its thread where it was. -/
def Deed.Returns {κ μ : Type} (callbacks : Callbacks κ μ) : Deed κ μ → Prop
  | .call id name before after =>
    (∃ n, ∀ fuel ≥ n, before.perform callbacks fuel (.call id name) = some (.ok (), after)) ∧
      after.scheduler = before.scheduler ∧
      ∃ t t' f callee, before.thread? id = some t ∧ after.thread? id = some t' ∧
        t.program.findFunction? name = some f ∧ t.program.functions[f]? = some callee ∧
        t'.ip = t.ip ∧ t'.stack.base = t.stack.base ∧ t'.running = t.running ∧
        callee.params.toNat ≤ t.stack.top ∧ t'.stack.top = t.stack.top - callee.params.toNat
  | .host id stored before after =>
    (∀ now, ∃ n, ∀ fuel ≥ n,
        before.step (Machine.invoke callbacks fuel) id now = some (.ok .stay, after)) ∧
      after.scheduler = before.scheduler ∧
      ∃ t t', before.thread? id = some t ∧ after.thread? id = some t' ∧ t'.ip = t.ip + 1 ∧
        t'.stack.base = t.stack.base ∧ t'.running = t.running ∧
        ∀ j, (id, j) ∉ stored → t'.stack.slot j = t.stack.slot j

end ScriptMachine
