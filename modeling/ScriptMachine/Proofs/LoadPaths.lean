import ScriptMachine.Proofs.Reachable
import ScriptMachine.Proofs.RoundTrip

/-!
# The two ways to load a program

A program is loaded as an image or as an executable. Both are validated alike, but an executable
has no way to write null or a frame marker, and the validator lets them pass. An image that has
room in the fields of an executable is so one that can be loaded from bytes exactly if it has no
such operand (`exists_decode_iff`).

The others do load, and their scripts can push a frame marker that no call has written and return
through it (`loads_forged_marker`).
-/

namespace ScriptMachine

/-! ## Images that can be loaded both ways -/

/-- An image has room in the fields of an executable. Its indices need no word here: those of a
valid image are below the counts of its tables. -/
structure Image.Fits (x : Image) : Prop where
  functionName : ∀ f ∈ x.functions, (Text.utf8 f.name).length ≤ 255
  hostCallName : ∀ name ∈ x.hostCalls, (Text.utf8 name).length ≤ 255
  string : ∀ i ∈ x.instructions, ∀ s, .string s ∈ i.operands → (Text.utf8 s).length < 2 ^ 32
  instructionCount : x.instructions.size < 2 ^ 32
  stringCount : (Executable.strings x).length < 2 ^ 32
  functionCount : x.functions.size < 2 ^ 32
  hostCallCount : x.hostCalls.size < 2 ^ 32

namespace Executable

variable {x : Image} {i : Instruction}

/-- The tables of a valid image that has room can be told apart. -/
theorem storable_of_valid (hvalid : x.Valid) (hfits : x.Fits) : Storable x where
  operandCount _ hi := Nat.le_trans (List.length_filter_le _ _) (length_operands_le hvalid hi)
  string := hfits.string
  instructionCount := hfits.instructionCount
  stringCount := hfits.stringCount
  functionCount := hfits.functionCount
  hostCallCount := hfits.hostCallCount

/-- A valid image that has room, and that has only operands with a tag, loses nothing when it is
written. -/
theorem encodable_of_valid (hvalid : x.Valid) (hfits : x.Fits) (htagged : x.Tagged) :
    Encodable x where
  tagged := htagged
  operandCount _ hi := length_operands_le hvalid hi
  index _ hi _ hn := (storable_of_valid hvalid hfits).index_lt hvalid hi hn
  string := hfits.string
  main f hf := Nat.lt_trans (hvalid.main f hf) hfits.functionCount
  entry f hf := Nat.lt_trans (hvalid.entry f hf) hfits.instructionCount
  functionName := hfits.functionName
  hostCallName := hfits.hostCallName
  instructionCount := hfits.instructionCount
  stringCount := hfits.stringCount
  functionCount := hfits.functionCount
  hostCallCount := hfits.hostCallCount

/-- No image that is read has an operand without a tag. -/
theorem tagged_of_decode {bytes : List UInt8} (h : decode bytes = .ok x) : x.Tagged := by
  obtain ⟨⟨rest, hread⟩, -⟩ := decode_eq_ok.1 h
  exact Reader.tagged_image hread

/-- **What both ways admit.** An image that is valid and has room in an executable can be loaded
from bytes exactly if none of its operands is null or a frame marker. -/
theorem exists_decode_iff (hvalid : x.validate = .ok ()) (hfits : x.Fits) :
    (∃ bytes, decode bytes = .ok x) ↔ x.Tagged := by
  constructor
  · rintro ⟨bytes, h⟩
    exact tagged_of_decode h
  · intro htagged
    have hx := encodable_of_valid (Image.validate_eq_ok.1 hvalid) hfits htagged
    refine ⟨encode x, ?_⟩
    rw [decode_encode_kept hx.storable, hx.kept_eq, hvalid]
    rfl

theorem exists_decode_iff_greeting :
    greeting.validate = .ok () ∧ greeting.Fits ∧
      ((∃ bytes, decode bytes = .ok greeting) ↔ greeting.Tagged) := by
  have hvalid : greeting.validate = .ok () := by decide
  have hfits : greeting.Fits :=
    { functionName := encodable_greeting.functionName
      hostCallName := encodable_greeting.hostCallName
      string := encodable_greeting.string
      instructionCount := encodable_greeting.instructionCount
      stringCount := encodable_greeting.stringCount
      functionCount := encodable_greeting.functionCount
      hostCallCount := encodable_greeting.hostCallCount }
  exact ⟨hvalid, hfits, exists_decode_iff hvalid hfits⟩

end Executable

/-! ## A forged frame marker -/

namespace Machine

/-- A program that returns from a function that it has not called. It lays out a frame by hand:
the address to return to, and a marker. -/
def forging : Image where
  stackSize := 8
  main := some 0
  instructions := #[⟨.push, [.instrIndex 4]⟩, ⟨.push, [.callMarker ⟨1, 0⟩]⟩, ⟨.ret, []⟩,
    ⟨.exit, [.int 1]⟩, ⟨.mov, [.register .returnValue, .int 9]⟩, ⟨.exit, [.int 0]⟩]
  functions := #[⟨"_Main", 0, 0, 0⟩, ⟨"function", 3, 0, 0⟩]

theorem fits_forging : forging.Fits where
  functionName := by decide
  hostCallName := by decide
  string i hi s hs := by
    simp only [forging, List.mem_toArray, List.mem_cons, List.not_mem_nil, or_false] at hi
    rcases hi with rfl | rfl | rfl | rfl | rfl | rfl <;> simp at hs
  instructionCount := by decide
  stringCount := by decide
  functionCount := by decide
  hostCallCount := by decide

/-- The validator lets a frame marker pass that no executable can hold. The image loads, and its
script returns through the marker to where it likes. -/
theorem loads_forged_marker :
    forging.validate = .ok () ∧ forging.Fits ∧
      (¬ ∃ bytes, Executable.decode bytes = .ok forging) ∧
      ∃ m t, (loadAndRun forging).run (perform (fun _ _ => .pure ()) 9)
          (create {} (.ticking 0) ()) = some ((), m) ∧
        m.thread? 0 = some t ∧ t.program = forging ∧ t.fault = none ∧
        t.returnValue = .int 9 ∧ t.exitCode = some 0 := by
  have huntagged : ¬ forging.Tagged := by
    rw [Image.Tagged]
    decide
  have hundecoded : ¬ ∃ bytes, Executable.decode bytes = .ok forging := by
    rintro ⟨bytes, h⟩
    exact huntagged (Executable.tagged_of_decode h)
  refine ⟨by decide, fits_forging, hundecoded, ?_⟩
  have hran : ((loadAndRun forging).run (perform (fun _ _ => .pure ()) 9)
      (create {} (.ticking 0) ())).bind (fun r => (r.2.thread? 0).map fun t =>
        (t.program, t.fault, t.returnValue, t.exitCode)) =
          some (forging, none, .int 9, some 0) := by
    decide +kernel
  obtain ⟨r, hrun, hran⟩ := Option.bind_eq_some_iff.1 hran
  obtain ⟨t, ht, hthread⟩ := Option.map_eq_some_iff.1 hran
  simp only [Prod.mk.injEq] at hthread
  exact ⟨r.2, t, hrun, ht, hthread⟩

end Machine
end ScriptMachine
