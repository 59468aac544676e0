import ScriptMachine.Digest
import ScriptMachine.Executable.Reader
import ScriptMachine.Machine.Basic

/-!
# Loading and unloading

A script goes into the lowest free slot. That there is one is checked before anything else;
what fails leaves the machine as it was.
-/

namespace ScriptMachine.Machine

variable {κ μ : Type}

/-- The slot for the next thread: the lowest empty one, or a new one below the limit. -/
def freeSlot (m : Machine κ μ) : Except LoadError ThreadId :=
  match m.threads.findIdx? Option.isNone with
  | some id => .ok id
  | none =>
    if m.threads.size < m.config.maxThreads then .ok m.threads.size
    else .error (.outOfThreads m.config.maxThreads)

/-- The stack slots for an image: those it asks for, or the default. -/
def stackSize (m : Machine κ μ) (image : Image) : Nat :=
  if image.stackSize = 0 then m.config.defaultStackSize else image.stackSize.toNat

/-- A thread for an image, at a priority of its own or at the image's. -/
def newThread (m : Machine κ μ) (image : Image) (priority : Option Priority) :
    Except LoadError Thread := do
  let size := m.stackSize image
  if m.config.maxStackSize < size then throw (.outOfMemory size)
  let stack ← Stack.create size
  let priority := priority.getD image.priority
  (Thread.create image stack priority (m.config.timeslice priority)).mapError fun fault =>
    .malformed (.initialFrames fault)

/-- Put a thread into a slot, which may be the one behind the last. -/
def place (m : Machine κ μ) (id : ThreadId) (t : Thread) : Machine κ μ :=
  let loaded := Event.loaded id t.program.instructions.size t.program.functions.size
    t.stack.capacity t.priority t.timeslice
  let m := m.log loaded
  if id < m.threads.size then m.setThread id (some t)
  else { m with threads := m.threads.push (some t) }

/-- Load an image; the answer is the thread's slot. -/
def load (m : Machine κ μ) (image : Image) (priority : Option Priority) :
    Except LoadError (ThreadId × Machine κ μ) := do
  let id ← m.freeSlot
  image.validate
  let t ← m.newThread image priority
  return (id, m.place id t)

/-- Load an executable; the thread keeps the digest of its bytes. -/
def loadBytes (m : Machine κ μ) (bytes : List UInt8) (priority : Option Priority) :
    Except LoadError (ThreadId × Machine κ μ) := do
  let id ← m.freeSlot
  let image ← Executable.decode bytes
  let t ← m.newThread image priority
  return (id, m.place id { t with digest := some (Sha256.digest bytes) })

/-- Load a file, given what reading it gave. -/
def loadFile (m : Machine κ μ) (contents : Except FileError (List UInt8))
    (priority : Option Priority) : Except LoadError (ThreadId × Machine κ μ) :=
  match contents with
  | .error e => .error (.file e)
  | .ok bytes => m.loadBytes bytes priority

/-- Unload a thread and drop the host functions registered for it. -/
def unload (m : Machine κ μ) (id : ThreadId) : Machine κ μ :=
  match m.thread? id with
  | none => m
  | some _ =>
    { m.setThread id none with registry := m.registry.removeThread id }.log (.unloaded id)

/-- Unload every thread, drop every host function, and start scheduling afresh. -/
def shutdown (m : Machine κ μ) : Machine κ μ :=
  let m := m.loadedThreads.foldl unload m
  { m with threads := #[], registry := m.registry.clear, scheduler := {} }.log .shutDown

end ScriptMachine.Machine
