import ScriptMachine.Thread.Basic

/-!
# Call frames

A call pushes the address to return to and a frame of the callee's locals with a marker on
top, which remembers the callee and the caller's base. A return takes the marker, finds the
return address below the locals, and drops the frame together with the callee's parameters,
which the caller had pushed before.
-/

namespace ScriptMachine

/-- How the instruction pointer moves after an instruction. -/
inductive Flow where
  | next
  | jump (target : Nat)
  /-- It was settled already. -/
  | stay
  /-- A return out of a synchronous call of the host. -/
  | syncReturn (target : Nat)
deriving DecidableEq, Repr

namespace Thread

/-- The marker a call writes: one kind for calls of the script, one for synchronous calls. -/
def marker (sync : Bool) (link : FrameLink) : Value :=
  if sync then .stackBaseMarker link else .callMarker link

/-- Open the frame of a function; the answer is its entry. If the frame does not fit, the
return address may have been pushed already. -/
def call (t : Thread) (f returnTo : Nat) (sync : Bool) : Except Fault Nat × Thread :=
  match t.program.functions[f]? with
  | none => (.error .noSuchFunction, t)
  | some callee =>
    let link := { function := f, callerBase := t.stack.base }
    match t.stack.push (.instrIndex returnTo) with
    | .error fault => (.error fault, t)
    | .ok s =>
      match s.pushFrame (callee.locals.toNat + 1) with
      | .error fault => (.error fault, { t with stack := s })
      | .ok s => (.ok callee.entry, { t with stack := s.setSlot (s.top - 1) (marker sync link) })

/-- Close the frame of a function, once its marker is off the stack. -/
def unwind (s : Stack) (callee : Function) (link : FrameLink) : Except Fault (Nat × Stack) := do
  match ← s.peek callee.locals.toNat with
  | .instrIndex target => return (target, (← s.popFrame callee.frameSize).setBase link.callerBase)
  | v => throw (.badReturn v.kind)

/-- How a run goes on after the return from a frame. -/
def returnFlow (sync : Bool) (target : Nat) : Flow :=
  if sync then .syncReturn target else .jump target

/-- Return through a marker that was taken off the stack. -/
def close (t : Thread) (sync : Bool) (link : FrameLink) : Except Fault Flow × Thread :=
  match t.program.functions[link.function]? with
  | none => (.error .danglingReturn, t)
  | some callee =>
    match unwind t.stack callee link with
    | .error fault => (.error fault, t)
    | .ok (target, s) => (.ok (returnFlow sync target), { t with stack := s })

/-- Return from the current frame. An empty marker belongs to the frame that a run starts in:
returning from it ends the thread. The marker is taken off the stack in any case. -/
def ret (t : Thread) : Except Fault Flow × Thread :=
  match t.stack.pop with
  | .error fault => (.error fault, t)
  | .ok (top, s) =>
    let t := { t with stack := s }
    match top with
    | .callMarker link => t.close false link
    | .stackBaseMarker link => t.close true link
    | .null => (.ok .stay, { t with running := false })
    | v => (.error (.badReturn v.kind), t)

end Thread
end ScriptMachine
