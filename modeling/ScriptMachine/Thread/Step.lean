import ScriptMachine.Thread.Computation
import ScriptMachine.Thread.Frame

/-!
# Single instructions

What an instruction does to its thread, for every instruction but the call of a host
function. A fault leaves the thread as it was, except that a pop, a call or a return may
already have moved the top of the stack.
-/

namespace ScriptMachine.Thread

/-- Leave the thread as it is. -/
def keep (t : Thread) (flow : Except Fault Flow) : Except Fault Flow × Thread := (flow, t)

/-- A conditional jump. -/
def branch (t : Thread) (i : Instruction) : Except Fault Flow := do
  let a ← t.value i 0
  let b ← t.value i 1
  if i.op.takes (a.order? b) then return .jump (← i.instrTarget 2) else return .next

/-- Execute an instruction at the time `now`. A pinned thread does not pause. -/
def execute (t : Thread) (i : Instruction) (now : UInt64) (pinned : Bool) :
    Except Fault Flow × Thread :=
  match i.op with
  | .jmp => t.keep ((i.instrTarget 0).map .jump)
  | .je | .jne | .jg | .jl | .jge | .jle => t.keep (t.branch i)
  | .push =>
    match t.value i 0 with
    | .error fault => (.error fault, t)
    | .ok v =>
      match t.stack.push v with
      | .error fault => (.error fault, t)
      | .ok s => (.ok .next, { t with stack := s })
  | .pop =>
    match t.stack.pop with
    | .error fault => (.error fault, t)
    | .ok (v, s) =>
      let t := { t with stack := s }
      match t.destination i 0 with
      | .error fault => (.error fault, t)
      | .ok d => (.ok .next, t.store d v)
  | .call =>
    match i.funcTarget 0 with
    | .error fault => (.error fault, t)
    | .ok f =>
      match t.call f (t.ip + 1) false with
      | (.error fault, t) => (.error fault, t)
      | (.ok entry, t) => (.ok (.jump entry), t)
  | .ret => t.ret
  | .pause =>
    match t.intValue i 0 with
    | .error fault => (.error fault, t)
    | .ok ms =>
      if pinned then (.ok .next, t)
      else (.ok .next, { t with paused := true, wakeAt := now + UInt64.ofNat ms.toInt.toNat })
  | .exit =>
    match t.intValue i 0 with
    | .error fault => (.error fault, t)
    | .ok code => (.ok .next, { t with exitCode := some code, running := false })
  | _ =>
    match t.computation i with
    | .error fault => (.error fault, t)
    | .ok none => (.ok .next, t)
    | .ok (some (l, v)) => (.ok .next, t.store l v)

/-- Count an executed instruction and move the instruction pointer. -/
def settle (t : Thread) (ip : Nat) (flow : Flow) : Thread :=
  { t with
    stats := { t.stats with instructions := t.stats.instructions + 1 }
    ip := match flow with
      | .next => ip + 1
      | .jump target | .syncReturn target => target
      | .stay => t.ip }

/-- Stop the thread with a fault. -/
def stopWith (t : Thread) (fault : Fault) : Thread :=
  { t with running := false, fault := some fault }

end ScriptMachine.Thread
