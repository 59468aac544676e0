import ScriptMachine.Proofs.Moves
import ScriptMachine.Proofs.Reader

/-!
# Sound threads

A script can copy whatever its slots hold: return addresses, frame markers, indices. So what a
thread relies on has to be known of every slot, stale ones included, and of the return register:
they hold no addresses, and every index and marker that they hold points where there is
something. `Thread.Sound` says so, and that the thread's own indices are in range. It holds of
new threads and survives every move, if the operands of the program are those that can be written
in an executable.
-/

namespace ScriptMachine

/-- A value that a slot of a thread may hold: no address, and no index out of range. The index of
the end of the program is a return address behind a call in last place. -/
def Value.Sound (image : Image) (capacity : Nat) : Value → Prop
  | .stackIndex _ | .relStackIndex .. | .register _ => False
  | .instrIndex i => i ≤ image.instructions.size
  | .funcIndex i => i < image.functions.size
  | .hostCallIndex i => i < image.hostCalls.size
  | .callMarker link | .stackBaseMarker link =>
    link.function < image.functions.size ∧ link.callerBase ≤ capacity
  | .null | .int _ | .float _ | .string _ => True

/-- A fault that a thread can meet. The others would mean that an instruction lacks an operand or
has one of the wrong kind, or that a marker names no function. -/
def Fault.Expected (image : Image) : Fault → Prop
  | .missingOperand _ | .operandKind .. | .noSuchFunction | .danglingReturn => False
  | .instructionPointer ip length => ip = length ∧ length = image.instructions.size
  | _ => True

/-- The top and the base of a stack are within it, and so is what its slots hold. -/
structure Stack.Sound (image : Image) (s : Stack) : Prop where
  top : s.top ≤ s.capacity
  base : s.base ≤ s.capacity
  slots : ∀ v ∈ s.slots, v.Sound image s.capacity

/-- A thread whose indices are in range. -/
structure Thread.Sound (t : Thread) : Prop where
  ip : t.ip ≤ t.program.instructions.size
  stack : t.stack.Sound t.program
  returnValue : t.returnValue.Sound t.program t.stack.capacity
  fault : ∀ fault ∈ t.fault, fault.Expected t.program

/-! ## Values and stacks -/

theorem Value.sound_marker {image : Image} {capacity : Nat} {sync : Bool} {link : FrameLink} :
    (Thread.marker sync link).Sound image capacity ↔
      link.function < image.functions.size ∧ link.callerBase ≤ capacity := by
  cases sync <;> rfl

/-- The values that scripts compute with. -/
def Value.Plain : Value → Prop
  | .int _ | .float _ | .string _ => True
  | _ => False

theorem Value.Plain.sound {image : Image} {capacity : Nat} {v : Value} (h : v.Plain) :
    v.Sound image capacity := by
  cases v <;> trivial

theorem Value.plain_stepped (onFloat : Binary32 → Binary32) (onInt : Int32 → Int32) (d : Value) :
    (d.stepped onFloat onInt).Plain := by
  cases d <;> trivial

theorem HostValue.sound_toValue {image : Image} {capacity : Nat} (v : HostValue) :
    v.toValue.Sound image capacity := by
  cases v <;> trivial

namespace Stack

variable {image : Image} {s s' : Stack} {v : Value}

theorem Sound.slot (h : s.Sound image) (j : Nat) : (s.slot j).Sound image s.capacity := by
  rcases s.slot_mem_or_null j with hj | hj
  · exact h.slots _ hj
  · rw [hj]
    trivial

theorem Sound.setSlot (h : s.Sound image) (hv : v.Sound image s.capacity) (j : Nat) :
    (s.setSlot j v).Sound image where
  top := by rw [capacity_setSlot]; exact h.top
  base := by rw [capacity_setSlot]; exact h.base
  slots w hw := by
    rw [capacity_setSlot]
    rcases mem_slots_setSlot hw with rfl | hw
    · exact hv
    · exact h.slots w hw

theorem Sound.drop (h : s.Sound image) (n : Nat) : (s.drop n).Sound image where
  top := Nat.le_trans (Nat.sub_le _ _) h.top
  base := h.base
  slots := h.slots

theorem Sound.push (h : s.Sound image) (hv : v.Sound image s.capacity)
    (hpush : s.push v = .ok s') : s'.Sound image := by
  obtain ⟨hlt, rfl⟩ := push_eq_ok.1 hpush
  have hset := h.setSlot hv s.top
  refine ⟨?_, hset.base, hset.slots⟩
  exact Nat.le_trans hlt (Nat.le_of_eq (s.capacity_setSlot s.top v).symm)

theorem Sound.pop (h : s.Sound image) (hpop : s.pop = .ok (v, s')) :
    v.Sound image s.capacity ∧ s' = s.drop 1 := by
  obtain ⟨-, rfl, rfl⟩ := pop_eq_ok.1 hpop
  exact ⟨h.slot _, rfl⟩

theorem Sound.framed (h : s.Sound image) {callee : Function} {returnTo : Nat} {marker : Value}
    (haddress : returnTo ≤ image.instructions.size) (hmarker : marker.Sound image s.capacity)
    (hfits : s.top + callee.locals.toNat + 2 ≤ s.capacity) :
    (s.framed callee returnTo marker).Sound image where
  top := by rw [capacity_framed]; exact hfits
  base := by rw [capacity_framed]; exact hfits
  slots w hw := by
    rw [capacity_framed]
    rcases s.mem_slots_framed _ _ _ hw with rfl | rfl | hw
    · exact hmarker
    · exact haddress
    · exact h.slots w hw

theorem sound_clear (s : Stack) : s.clear.Sound image where
  top := Nat.zero_le _
  base := Nat.zero_le _
  slots w hw := by
    rw [mem_slots_clear hw]
    trivial

theorem Sound.pushFrame (h : s.Sound image) {n : Nat} (hpush : s.pushFrame n = .ok s') :
    s'.Sound image := by
  obtain ⟨hfits, rfl⟩ := pushFrame_eq_ok.1 hpush
  exact ⟨hfits, hfits, h.slots⟩

end Stack

namespace Thread

variable {t t' : Thread} {i : Instruction} {n : Nat} {v : Value} {fault : Fault}

/-! ## Operands -/

theorem mem_of_instruction? {ip : Nat} (hi : t.instruction? ip = some i) :
    i ∈ t.program.instructions ∧ ip < t.program.instructions.size := by
  obtain ⟨hlt, rfl⟩ := Array.getElem?_eq_some_iff.1 hi
  exact ⟨Array.getElem_mem hlt, hlt⟩

theorem mem_of_operand (h : i.operand n = .ok v) : v ∈ i.operands := by
  simp only [Instruction.operand] at h
  split at h
  · rename_i hv
    cases h
    exact List.mem_of_getElem? hv
  · cases h

/-- An instruction of a valid program has the operands that it takes. -/
theorem exists_operand (hvalid : t.program.Valid) (hi : i ∈ t.program.instructions)
    (hn : n < i.op.operandCount) : ∃ v, i.operand n = .ok v := by
  have hlt : n < i.operands.length := by rw [hvalid.count i hi]; exact hn
  refine ⟨i.operands[n], ?_⟩
  rw [Instruction.operand, List.getElem?_eq_getElem hlt]

theorem location?_error (h : t.location? v = .error fault) : fault.Expected t.program := by
  have resolved : ∀ index, t.stack.resolve index = .error fault → fault.Expected t.program := by
    intro index h
    simp only [Stack.resolve] at h
    split at h
    · cases h
    · cases h
      trivial
  cases v with
  | stackIndex index =>
    rcases bind_eq_error.1 h with h | ⟨j, -, h⟩
    · exact resolved _ h
    · cases h
  | relStackIndex base offset =>
    rcases bind_eq_error.1 h with h | ⟨d, -, h⟩
    · exact resolved _ (map_eq_error.1 h)
    · rcases bind_eq_error.1 h with h | ⟨j, -, h⟩
      · exact resolved _ h
      · cases h
  | register r =>
    cases r
    cases h
  | _ => cases h

/-- Reading an operand that is there meets no other faults than those of stack indices. -/
theorem value_error (hoperand : ∃ v, i.operand n = .ok v) (h : t.value i n = .error fault) :
    fault.Expected t.program := by
  obtain ⟨v, hv⟩ := hoperand
  simp only [value] at h
  rcases bind_eq_error.1 h with h | ⟨w, -, h⟩
  · rw [hv] at h
    cases h
  · rcases bind_eq_error.1 h with h | ⟨l, -, h⟩
    · exact location?_error h
    · split at h <;> cases h

theorem destination_error (hoperand : ∃ v, i.operand n = .ok v)
    (h : t.destination i n = .error fault) : fault.Expected t.program := by
  obtain ⟨v, hv⟩ := hoperand
  simp only [destination] at h
  rcases bind_eq_error.1 h with h | ⟨w, -, h⟩
  · rw [hv] at h
    cases h
  · rcases bind_eq_error.1 h with h | ⟨l, -, h⟩
    · exact location?_error h
    · split at h
      · cases h
      · cases throw_eq_error.1 h
        trivial

theorem source?_error (hoperand : ∃ v, i.operand n = .ok v)
    (h : t.source? i n = .error fault) : fault.Expected t.program := by
  obtain ⟨v, hv⟩ := hoperand
  simp only [source?] at h
  rcases bind_eq_error.1 h with h | ⟨w, -, h⟩
  · rw [hv] at h
    cases h
  · exact location?_error h

/-- A value that is no location is its own kind of operand. -/
theorem sound_of_location?_none (hvalid : t.program.Valid) (htagged : t.program.Tagged)
    (hi : i ∈ t.program.instructions) (hv : v ∈ i.operands) (h : t.location? v = .ok none) :
    v.Sound t.program t.stack.capacity := by
  have hadmits := hvalid.operand i hi v hv
  have htag := htagged i hi v hv
  cases v with
  | stackIndex index =>
    obtain ⟨j, -, h⟩ := bind_eq_ok.1 h
    cases h
  | relStackIndex base offset =>
    obtain ⟨d, -, h⟩ := bind_eq_ok.1 h
    obtain ⟨j, -, h⟩ := bind_eq_ok.1 h
    cases h
  | register r => cases h
  | instrIndex target =>
    have hlt : target < t.program.instructions.size := by simpa [Image.admits] using hadmits
    exact Nat.le_of_lt hlt
  | funcIndex f => simpa [Image.admits, Value.Sound] using hadmits
  | hostCallIndex call => simpa [Image.admits, Value.Sound] using hadmits
  | callMarker link => cases htag
  | stackBaseMarker link => cases htag
  | _ => trivial

theorem Sound.load (h : t.Sound) (l : Location) :
    (t.load l).Sound t.program t.stack.capacity := by
  cases l with
  | slot j => exact h.stack.slot j
  | returnValue => exact h.returnValue

/-- What an operand stands for can be held by a slot. -/
theorem Sound.value (h : t.Sound) (hvalid : t.program.Valid) (htagged : t.program.Tagged)
    (hi : i ∈ t.program.instructions) (hvalue : t.value i n = .ok v) :
    v.Sound t.program t.stack.capacity := by
  simp only [Thread.value] at hvalue
  obtain ⟨w, hw, hvalue⟩ := bind_eq_ok.1 hvalue
  obtain ⟨l, hl, hvalue⟩ := bind_eq_ok.1 hvalue
  split at hvalue
  · cases hvalue
    exact h.load _
  · cases hvalue
    exact sound_of_location?_none hvalid htagged hi (mem_of_operand hw) hl

/-! ## Computation -/

theorem arithmetic_plain {onFloats : Binary32 → Binary32 → Binary32}
    {onInts : Int32 → Int32 → Except Fault Int32} {l : Location}
    (h : t.arithmetic i onFloats onInts = .ok (some (l, v))) : v.Plain := by
  simp only [arithmetic] at h
  obtain ⟨d, -, h⟩ := bind_eq_ok.1 h
  obtain ⟨s, -, h⟩ := bind_eq_ok.1 h
  obtain ⟨w, hw, h⟩ := bind_eq_ok.1 h
  cases h
  simp only [Value.arithmetic] at hw
  split at hw
  · cases hw
    trivial
  · obtain ⟨n, -, rfl⟩ := map_eq_ok.1 hw
    trivial

theorem integers_plain {onInts : Int32 → Int32 → Except Fault Int32} {l : Location}
    (h : t.integers i onInts = .ok (some (l, v))) : v.Plain := by
  simp only [integers] at h
  obtain ⟨d, -, h⟩ := bind_eq_ok.1 h
  split at h
  · obtain ⟨b, -, h⟩ := bind_eq_ok.1 h
    obtain ⟨n, -, h⟩ := bind_eq_ok.1 h
    cases h
    trivial
  · cases h

theorem unary_plain {f : Value → Option Value} {l : Location}
    (hf : ∀ d v, f d = some v → v.Plain) (h : t.unary i f = .ok (some (l, v))) : v.Plain := by
  simp only [unary] at h
  obtain ⟨d, -, h⟩ := bind_eq_ok.1 h
  obtain ⟨w, hw, hv⟩ := Option.map_eq_some_iff.1 (pure_eq_ok.1 h)
  cases hv
  exact hf _ _ hw

theorem texts_plain {f : String → Except Fault (Option String)} {l : Location}
    (h : t.texts i f = .ok (some (l, v))) : v.Plain := by
  simp only [texts] at h
  obtain ⟨d, -, h⟩ := bind_eq_ok.1 h
  split at h
  · obtain ⟨s, -, h⟩ := bind_eq_ok.1 h
    obtain ⟨w, -, hv⟩ := Option.map_eq_some_iff.1 (pure_eq_ok.1 h)
    cases hv
    trivial
  · cases h

private theorem stepped_plain {onFloat : Binary32 → Binary32} {onInt : Int32 → Int32}
    {l : Location} (h : t.unary i (fun d => some (d.stepped onFloat onInt)) = .ok (some (l, v))) :
    v.Plain := by
  refine unary_plain (fun d v hv => ?_) h
  cases hv
  exact d.plain_stepped _ _

/-- What is computed is an integer, a single or a text, and what is moved is the value of an
operand. -/
theorem plain_of_computation {l : Location} (h : t.computation i = .ok (some (l, v))) :
    v.Plain ∨ t.value i 1 = .ok v := by
  cases hop : i.op with
  | mov =>
    simp only [computation, hop] at h
    obtain ⟨d, -, h⟩ := bind_eq_ok.1 h
    obtain ⟨s, -, h⟩ := bind_eq_ok.1 h
    split at h
    · cases h
    · obtain ⟨w, hw, h⟩ := bind_eq_ok.1 h
      cases h
      exact .inr hw
  | add | sub | mul | div | exp =>
    simp only [computation, hop] at h
    exact .inl (arithmetic_plain h)
  | mod | and | or | xor | shl | shr =>
    simp only [computation, hop] at h
    exact .inl (integers_plain h)
  | neg | inc | dec =>
    simp only [computation, hop] at h
    exact .inl (stepped_plain h)
  | not =>
    simp only [computation, hop] at h
    refine .inl (unary_plain (fun d v hv => ?_) h)
    split at hv
    · cases hv
      trivial
    · cases hv
  | concat | getChar | setChar =>
    simp only [computation, hop] at h
    exact .inl (texts_plain h)
  | _ =>
    rw [computation, hop] at h
    cases h

/-! ## Faults of computation -/

theorem arithmetic_error {onFloats : Binary32 → Binary32 → Binary32}
    {onInts : Int32 → Int32 → Except Fault Int32} (h₀ : ∃ v, i.operand 0 = .ok v)
    (h₁ : ∃ v, i.operand 1 = .ok v)
    (hInts : ∀ a b, onInts a b = .error fault → fault.Expected t.program)
    (h : t.arithmetic i onFloats onInts = .error fault) : fault.Expected t.program := by
  simp only [arithmetic] at h
  rcases bind_eq_error.1 h with h | ⟨d, -, h⟩
  · exact destination_error h₀ h
  · rcases bind_eq_error.1 h with h | ⟨s, -, h⟩
    · exact value_error h₁ h
    · rcases bind_eq_error.1 h with h | ⟨w, -, h⟩
      · simp only [Value.arithmetic] at h
        split at h
        · cases h
        · exact hInts _ _ (map_eq_error.1 h)
      · cases h

theorem integers_error {onInts : Int32 → Int32 → Except Fault Int32}
    (h₀ : ∃ v, i.operand 0 = .ok v) (h₁ : ∃ v, i.operand 1 = .ok v)
    (hInts : ∀ a b, onInts a b = .error fault → fault.Expected t.program)
    (h : t.integers i onInts = .error fault) : fault.Expected t.program := by
  simp only [integers] at h
  rcases bind_eq_error.1 h with h | ⟨d, -, h⟩
  · exact destination_error h₀ h
  · split at h
    · rcases bind_eq_error.1 h with h | ⟨b, -, h⟩
      · exact value_error h₁ (map_eq_error.1 h)
      · rcases bind_eq_error.1 h with h | ⟨n, -, h⟩
        · exact hInts _ _ h
        · cases h
    · cases h

theorem unary_error {f : Value → Option Value} (h₀ : ∃ v, i.operand 0 = .ok v)
    (h : t.unary i f = .error fault) : fault.Expected t.program := by
  simp only [unary] at h
  rcases bind_eq_error.1 h with h | ⟨d, -, h⟩
  · exact destination_error h₀ h
  · cases h

theorem texts_error {f : String → Except Fault (Option String)} (h₀ : ∃ v, i.operand 0 = .ok v)
    (hf : ∀ s, f s = .error fault → fault.Expected t.program) (h : t.texts i f = .error fault) :
    fault.Expected t.program := by
  simp only [texts] at h
  rcases bind_eq_error.1 h with h | ⟨d, -, h⟩
  · exact destination_error h₀ h
  · split at h
    · rcases bind_eq_error.1 h with h | ⟨s, -, h⟩
      · exact hf _ h
      · cases h
    · cases h

private theorem dividedInt_error {image : Image} {a b : Int32}
    (h : dividedInt a b = .error fault) : fault.Expected image := by
  simp only [dividedInt] at h
  split at h
  · cases h
    trivial
  · cases h

private theorem remainderInt_error {image : Image} {a b : Int32}
    (h : remainderInt a b = .error fault) : fault.Expected image := by
  simp only [remainderInt] at h
  split at h
  · cases h
    trivial
  · cases h

private theorem charAt_error {image : Image} {s : String} {index : Int32}
    (h : charAt s index = .error fault) : fault.Expected image := by
  simp only [charAt] at h
  split at h
  · cases h
  · cases h
    trivial

private theorem setCharAt_error {image : Image} {s : String} {index : Int32} {c : Char}
    (h : setCharAt s index c = .error fault) : fault.Expected image := by
  simp only [setCharAt] at h
  split at h
  · cases h
  · cases h
    trivial

/-- An instruction with all its operands meets only faults of the data. -/
theorem computation_error (hoperands : ∀ n < i.op.operandCount, ∃ v, i.operand n = .ok v)
    (h : t.computation i = .error fault) : fault.Expected t.program := by
  cases hop : i.op with
  | mov =>
    have h₀ := hoperands 0 (by rw [hop]; decide)
    have h₁ := hoperands 1 (by rw [hop]; decide)
    simp only [computation, hop] at h
    rcases bind_eq_error.1 h with h | ⟨d, -, h⟩
    · exact destination_error h₀ h
    · rcases bind_eq_error.1 h with h | ⟨s, -, h⟩
      · exact source?_error h₁ h
      · split at h
        · cases h
        · rcases bind_eq_error.1 h with h | ⟨w, -, h⟩
          · exact value_error h₁ h
          · cases h
  | add | sub | mul | exp =>
    have h₀ := hoperands 0 (by rw [hop]; decide)
    have h₁ := hoperands 1 (by rw [hop]; decide)
    simp only [computation, hop] at h
    exact arithmetic_error h₀ h₁ (fun a b hab => by cases hab) h
  | div =>
    have h₀ := hoperands 0 (by rw [hop]; decide)
    have h₁ := hoperands 1 (by rw [hop]; decide)
    simp only [computation, hop] at h
    exact arithmetic_error h₀ h₁ (fun a b hab => dividedInt_error hab) h
  | mod =>
    have h₀ := hoperands 0 (by rw [hop]; decide)
    have h₁ := hoperands 1 (by rw [hop]; decide)
    simp only [computation, hop] at h
    exact integers_error h₀ h₁ (fun a b hab => remainderInt_error hab) h
  | and | or | xor | shl | shr =>
    have h₀ := hoperands 0 (by rw [hop]; decide)
    have h₁ := hoperands 1 (by rw [hop]; decide)
    simp only [computation, hop] at h
    exact integers_error h₀ h₁ (fun a b hab => by cases hab) h
  | neg | inc | dec | not =>
    have h₀ := hoperands 0 (by rw [hop]; decide)
    simp only [computation, hop] at h
    exact unary_error h₀ h
  | concat =>
    have h₀ := hoperands 0 (by rw [hop]; decide)
    have h₁ := hoperands 1 (by rw [hop]; decide)
    simp only [computation, hop] at h
    refine texts_error h₀ (fun s h => ?_) h
    rcases bind_eq_error.1 h with h | ⟨w, -, h⟩
    · exact value_error h₁ (map_eq_error.1 h)
    · cases h
  | getChar =>
    have h₀ := hoperands 0 (by rw [hop]; decide)
    have h₁ := hoperands 1 (by rw [hop]; decide)
    have h₂ := hoperands 2 (by rw [hop]; decide)
    simp only [computation, hop] at h
    refine texts_error h₀ (fun s h => ?_) h
    rcases bind_eq_error.1 h with h | ⟨text, -, h⟩
    · exact value_error h₁ (map_eq_error.1 h)
    · rcases bind_eq_error.1 h with h | ⟨index, -, h⟩
      · exact value_error h₂ (map_eq_error.1 h)
      · rcases bind_eq_error.1 h with h | ⟨c, -, h⟩
        · exact charAt_error h
        · cases h
  | setChar =>
    have h₀ := hoperands 0 (by rw [hop]; decide)
    have h₁ := hoperands 1 (by rw [hop]; decide)
    have h₂ := hoperands 2 (by rw [hop]; decide)
    simp only [computation, hop] at h
    refine texts_error h₀ (fun s h => ?_) h
    rcases bind_eq_error.1 h with h | ⟨index, -, h⟩
    · exact value_error h₁ (map_eq_error.1 h)
    · rcases bind_eq_error.1 h with h | ⟨text, -, h⟩
      · exact value_error h₂ (map_eq_error.1 h)
      · split at h
        · cases h
        · rcases bind_eq_error.1 h with h | ⟨c, -, h⟩
          · exact setCharAt_error h
          · cases h
  | _ =>
    rw [computation, hop] at h
    cases h

/-! ## Instructions -/

/-- The target of a jump is an instruction, and the target of a call is a function. -/
theorem namesTarget_of_valid (hvalid : t.program.Valid) (hi : i ∈ t.program.instructions)
    {kind : Kind} (htarget : i.op.target? = some (n, kind)) :
    ∃ v, i.operand n = .ok v ∧ v.kind = kind ∧ t.program.admits v = true := by
  have hnames := hvalid.target i hi
  rw [Instruction.namesTarget, htarget, decide_eq_true_eq] at hnames
  obtain ⟨v, hv, hkind⟩ := Option.map_eq_some_iff.1 hnames
  refine ⟨v, ?_, hkind, hvalid.operand i hi v (List.mem_of_getElem? hv)⟩
  rw [Instruction.operand, hv]

theorem instrTarget_of_valid (hvalid : t.program.Valid) (hi : i ∈ t.program.instructions)
    (htarget : i.op.target? = some (n, .instrIndex)) :
    ∃ target, i.instrTarget n = .ok target ∧ target < t.program.instructions.size := by
  obtain ⟨v, hv, hkind, hadmits⟩ := namesTarget_of_valid hvalid hi htarget
  cases v with
  | instrIndex target =>
    refine ⟨target, ?_, by simpa [Image.admits] using hadmits⟩
    rw [Instruction.instrTarget, hv]
    rfl
  | _ => cases hkind

theorem funcTarget_of_valid (hvalid : t.program.Valid) (hi : i ∈ t.program.instructions)
    (hop : i.op = .call) : ∃ f, i.funcTarget 0 = .ok f ∧ f < t.program.functions.size := by
  obtain ⟨v, hv, hkind, hadmits⟩ := namesTarget_of_valid hvalid hi (by rw [hop]; rfl)
  cases v with
  | funcIndex f =>
    refine ⟨f, ?_, by simpa [Image.admits] using hadmits⟩
    rw [Instruction.funcTarget, hv]
    rfl
  | _ => cases hkind

theorem hostCallTarget_of_valid (hvalid : t.program.Valid) (hi : i ∈ t.program.instructions)
    (hop : i.op = .callHost) :
    ∃ call, i.hostCallTarget 0 = .ok call ∧ call < t.program.hostCalls.size := by
  obtain ⟨v, hv, hkind, hadmits⟩ := namesTarget_of_valid hvalid hi (by rw [hop]; rfl)
  cases v with
  | hostCallIndex call =>
    refine ⟨call, ?_, by simpa [Image.admits] using hadmits⟩
    rw [Instruction.hostCallTarget, hv]
    rfl
  | _ => cases hkind

/-- Only the stack has changed. -/
theorem Sound.withStack (h : t.Sound) {s : Stack} (hs : s.Sound t.program)
    (hcapacity : s.capacity = t.stack.capacity) : Sound { t with stack := s } where
  ip := h.ip
  stack := hs
  returnValue := by rw [hcapacity]; exact h.returnValue
  fault := h.fault

theorem Sound.store (h : t.Sound) (hv : v.Sound t.program t.stack.capacity) (l : Location) :
    (t.store l v).Sound := by
  cases l with
  | slot j => exact h.withStack (h.stack.setSlot hv j) (t.stack.capacity_setSlot j v)
  | returnValue => exact ⟨h.ip, h.stack, hv, h.fault⟩

theorem Sound.push (h : t.Sound) (hv : v.Sound t.program t.stack.capacity) {s : Stack}
    (hpush : t.stack.push v = .ok s) : Sound { t with stack := s } :=
  h.withStack (h.stack.push hv hpush) (Stack.capacity_push hpush)

theorem Sound.drop (h : t.Sound) (n : Nat) : Sound { t with stack := t.stack.drop n } :=
  h.withStack (h.stack.drop n) rfl

/-- Calls leave sound threads, and their entries are instructions. -/
theorem Sound.call (h : t.Sound) (hvalid : t.program.Valid) {f returnTo entry : Nat} {sync : Bool}
    (hreturn : returnTo ≤ t.program.instructions.size)
    (hcall : t.call f returnTo sync = (.ok entry, t')) :
    t'.Sound ∧ t'.program = t.program ∧ entry < t.program.instructions.size := by
  obtain ⟨callee, hf, rfl, hfits, rfl⟩ := call_eq_ok.1 hcall
  obtain ⟨hlt, hget⟩ := Array.getElem?_eq_some_iff.1 hf
  have hmem : callee ∈ t.program.functions := by
    rw [← hget]
    exact Array.getElem_mem hlt
  have hmarker : (marker sync ⟨f, t.stack.base⟩).Sound t.program t.stack.capacity :=
    Value.sound_marker.2 ⟨hlt, h.stack.base⟩
  refine ⟨h.withStack (h.stack.framed hreturn hmarker hfits) ?_, rfl, hvalid.entry callee hmem⟩
  exact Stack.capacity_framed _ _ _ _

theorem Sound.call_error (h : t.Sound) {f returnTo : Nat} {sync : Bool}
    (hf : f < t.program.functions.size) (hreturn : returnTo ≤ t.program.instructions.size)
    (hcall : t.call f returnTo sync = (.error fault, t')) :
    t'.Sound ∧ t'.program = t.program ∧ fault = .stackOverflow t.stack.capacity := by
  have haddress : (Value.instrIndex returnTo).Sound t.program t.stack.capacity := hreturn
  rcases call_eq_error hcall with ⟨hnone, -, -⟩ | ⟨rfl, rfl | ⟨s, hpush, rfl⟩⟩
  · rw [Array.getElem?_eq_getElem hf] at hnone
    cases hnone
  · exact ⟨h, rfl, rfl⟩
  · exact ⟨h.push haddress hpush, rfl, rfl⟩

/-- A sound thread returns to an instruction or to the end of its program. -/
theorem Sound.ret (h : t.Sound) {flow : Flow} (hret : t.ret = (.ok flow, t')) :
    t'.Sound ∧ t'.program = t.program ∧
      (flow = .stay ∧ t'.ip = t.ip ∨
        ∃ sync target, flow = returnFlow sync target ∧ target ≤ t.program.instructions.size) := by
  obtain ⟨htop, ⟨-, rfl, rfl⟩ | ⟨sync, link, hmarker, hclose⟩⟩ := ret_eq_ok hret
  · have hdrop := h.drop 1
    exact ⟨⟨hdrop.ip, hdrop.stack, hdrop.returnValue, hdrop.fault⟩, rfl, .inl ⟨rfl, rfl⟩⟩
  · obtain ⟨callee, target, hf, hpeek, hle, rfl, rfl⟩ := close_eq_ok.1 hclose
    have hlink : (marker sync link).Sound t.program t.stack.capacity := by
      rw [← hmarker]
      exact h.stack.slot _
    have haddress : (Value.instrIndex target).Sound t.program t.stack.capacity := by
      rw [(Stack.peek_eq_ok.1 hpeek).2]
      exact h.stack.slot _
    have hdrop := (h.stack.drop 1).drop callee.frameSize
    refine ⟨h.withStack ⟨hdrop.top, (Value.sound_marker.1 hlink).2, hdrop.slots⟩ rfl, rfl,
      .inr ⟨sync, target, rfl, haddress⟩⟩

/-- Whether the instruction pointer stays in the program. -/
theorem Sound.settle (h : t.Sound) {ip : Nat} {flow : Flow}
    (hip : (t.settle ip flow).ip ≤ t.program.instructions.size) : (t.settle ip flow).Sound :=
  ⟨hip, h.stack, h.returnValue, h.fault⟩

theorem Sound.stopWith (h : t.Sound) (hfault : fault.Expected t.program) :
    (t.stopWith fault).Sound where
  ip := h.ip
  stack := h.stack
  returnValue := h.returnValue
  fault g hg := by
    cases hg
    exact hfault

/-- Executing an instruction leaves a sound thread. -/
theorem Sound.execute (h : t.Sound) (hvalid : t.program.Valid) (htagged : t.program.Tagged)
    (hi : t.instruction? t.ip = some i) {now : UInt64} {pinned : Bool} {flow : Flow}
    (hexec : t.execute i now pinned = (.ok flow, t')) : (t'.settle t.ip flow).Sound := by
  obtain ⟨hmem, hlt⟩ := mem_of_instruction? hi
  cases does_of_execute hexec with
  | nothing => exact h.settle hlt
  | jump htarget hjump =>
    obtain ⟨target, htarget, hle⟩ := instrTarget_of_valid hvalid hmem htarget
    rw [htarget] at hjump
    cases hjump
    exact h.settle (Nat.le_of_lt hle)
  | @write l v hc =>
    have hv : v.Sound t.program t.stack.capacity := by
      rcases plain_of_computation hc with hv | hv
      · exact hv.sound
      · exact h.value hvalid htagged hmem hv
    refine (h.store hv l).settle ?_
    rw [store_program]
    exact hlt
  | push _ hv hpush => exact (h.push (h.value hvalid htagged hmem hv) hpush).settle hlt
  | @pop v s l _ hpop hl =>
    obtain ⟨hv, rfl⟩ := h.stack.pop hpop
    refine ((h.drop 1).store hv l).settle ?_
    rw [store_program]
    exact hlt
  | call _ _ hcall =>
    obtain ⟨hsound, hprogram, hentry⟩ := h.call hvalid hlt hcall
    refine hsound.settle ?_
    rw [hprogram]
    exact Nat.le_of_lt hentry
  | ret _ hret =>
    obtain ⟨hsound, hprogram, ⟨rfl, hip⟩ | ⟨sync, target, rfl, hle⟩⟩ := h.ret hret
    · exact hsound.settle hsound.ip
    · refine hsound.settle ?_
      rw [hprogram]
      cases sync <;> exact hle
  | pause _ _ => exact ⟨hlt, h.stack, h.returnValue, h.fault⟩
  | exit _ _ => exact ⟨hlt, h.stack, h.returnValue, h.fault⟩

/-- A fault in an instruction is an expected one, and leaves the thread sound. -/
theorem Sound.execute_error (h : t.Sound) (hvalid : t.program.Valid)
    (hi : t.instruction? t.ip = some i) {now : UInt64} {pinned : Bool}
    (hexec : t.execute i now pinned = (.error fault, t')) :
    t'.Sound ∧ t'.program = t.program ∧ fault.Expected t.program := by
  obtain ⟨hmem, hlt⟩ := mem_of_instruction? hi
  have hoperands : ∀ n < i.op.operandCount, ∃ v, i.operand n = .ok v :=
    fun n hn => exists_operand hvalid hmem hn
  cases fails_of_execute hexec with
  | jump htarget hjump =>
    obtain ⟨target, htarget, -⟩ := instrTarget_of_valid hvalid hmem htarget
    rw [htarget] at hjump
    cases hjump
  | read hn hv => exact ⟨h, rfl, value_error (hoperands _ hn) hv⟩
  | compute hc => exact ⟨h, rfl, computation_error hoperands hc⟩
  | push _ hpush =>
    obtain ⟨-, rfl⟩ := Stack.push_eq_error.1 hpush
    exact ⟨h, rfl, trivial⟩
  | pop _ hpop =>
    obtain ⟨-, rfl⟩ := Stack.pop_eq_error.1 hpop
    exact ⟨h, rfl, trivial⟩
  | @popped v s _ hop hpop hl =>
    obtain ⟨-, rfl⟩ := h.stack.pop hpop
    have hfault := destination_error (hoperands 0 (by rw [hop]; decide)) hl
    exact ⟨h.drop 1, rfl, hfault⟩
  | callee hop hf =>
    obtain ⟨f, hf', -⟩ := funcTarget_of_valid hvalid hmem hop
    rw [hf'] at hf
    cases hf
  | call hop hf hcall =>
    obtain ⟨f, hf', hinTable⟩ := funcTarget_of_valid hvalid hmem hop
    rw [hf] at hf'
    cases hf'
    obtain ⟨hsound, hprogram, rfl⟩ := h.call_error hinTable hlt hcall
    exact ⟨hsound, hprogram, trivial⟩
  | ret _ hret =>
    obtain ⟨ht, hfault⟩ := ret_eq_error hret
    refine ⟨?_, ?_, ?_⟩
    · rcases ht with rfl | ⟨-, rfl⟩
      · exact h
      · exact h.drop 1
    · rcases ht with rfl | ⟨-, rfl⟩ <;> rfl
    · rcases hfault with rfl | ⟨kind, rfl⟩ | ⟨sync, link, hmarker, hnone⟩
      · trivial
      · trivial
      · -- a sound marker names a function of the table
        have hlink : (marker sync link).Sound t.program t.stack.capacity := by
          rw [← hmarker]
          exact h.stack.slot _
        rw [Array.getElem?_eq_getElem (Value.sound_marker.1 hlink).1] at hnone
        cases hnone

/-! ## Moves -/

/-- Opening the frames of a run leaves a sound stack. -/
theorem sound_openFrames {program : Image} {s s' : Stack} (hs : s.Sound program)
    (h : openFrames program s = .ok s') : s'.Sound program := by
  simp only [openFrames] at h
  obtain ⟨s₁, hglobals, h⟩ := bind_eq_ok.1 h
  have hs₁ := hs.pushFrame hglobals
  split at h
  · exact hs₁.pushFrame h
  · cases h
    exact hs₁

theorem openFrames_error {program : Image} {s : Stack}
    (h : openFrames program s = .error fault) : fault = .stackOverflow s.capacity := by
  simp only [openFrames] at h
  rcases bind_eq_error.1 h with h | ⟨s₁, hglobals, h⟩
  · exact (Stack.pushFrame_eq_error.1 h).2
  · split at h
    · rw [(Stack.pushFrame_eq_error.1 h).2, Stack.capacity_pushFrame hglobals]
    · cases h

theorem entry_le {program : Image} (hvalid : program.Valid) :
    entry program ≤ program.instructions.size := by
  simp only [entry, Image.mainFunction?]
  cases hmain : program.main with
  | none => exact Nat.zero_le _
  | some f =>
    have hlt := hvalid.main f hmain
    simp only [Option.bind_some, Array.getElem?_eq_getElem hlt, Option.map_some, Option.getD_some]
    exact Nat.le_of_lt (hvalid.entry _ (Array.getElem_mem hlt))

/-- A reset thread is sound, whatever it was before. -/
theorem sound_reset (hvalid : t.program.Valid) (h : t.reset = .ok t') :
    t'.Sound ∧ t'.program = t.program := by
  simp only [reset] at h
  obtain ⟨s, hs, h⟩ := bind_eq_ok.1 h
  cases h
  have hsound := sound_openFrames t.stack.sound_clear hs
  exact ⟨⟨entry_le hvalid, hsound, trivial, by simp⟩, rfl⟩

/-- Soundness is an invariant of threads whose programs can be written in an executable. -/
theorem invariant_sound :
    Invariant fun t => t.program.Valid ∧ (t.program.Tagged → t.Sound) where
  born h := by
    obtain ⟨digest, hvalid, -, hcreate⟩ := h
    obtain ⟨hsound, hprogram⟩ := sound_reset hvalid hcreate
    refine ⟨?_, fun _ => ⟨hsound.ip, hsound.stack, hsound.returnValue, hsound.fault⟩⟩
    simp only [hprogram]
    exact hvalid
  move {t t'} hmove h := by
    obtain ⟨hvalid, hsound⟩ := h
    refine ⟨by rw [hmove.kin.program]; exact hvalid, fun htagged => ?_⟩
    rw [hmove.kin.program] at htagged
    have h := hsound htagged
    cases hmove with
    | reset hreset => exact (sound_reset hvalid hreset).1
    | control => exact ⟨h.ip, h.stack, h.returnValue, h.fault⟩
    | pass hpush => exact h.push (HostValue.sound_toValue _) hpush
    | answer v =>
      refine ⟨h.ip, h.stack, ?_, h.fault⟩
      cases v with
      | none => exact h.returnValue
      | some v => exact v.sound_toValue
    | drop _ => exact h.drop _
    | overdrawn => exact h.stopWith trivial
    | enter hcall =>
      obtain ⟨hsound, hprogram, hentry⟩ := h.call hvalid h.ip hcall
      refine ⟨?_, hsound.stack, hsound.returnValue, hsound.fault⟩
      simp only [hprogram]
      exact Nat.le_of_lt hentry
    | refused hf hcall =>
      obtain ⟨hsound, hprogram, rfl⟩ := h.call_error hf h.ip hcall
      exact hsound.stopWith trivial
    | own hi _ hexec => exact h.execute hvalid htagged hi hexec
    | fault hi _ hexec =>
      obtain ⟨hsound, hprogram, hfault⟩ := h.execute_error hvalid hi hexec
      exact hsound.stopWith (by rw [hprogram]; exact hfault)
    | off hi =>
      refine h.stopWith ⟨?_, rfl⟩
      exact Nat.le_antisymm h.ip (Array.getElem?_eq_none_iff.1 hi)
    | host hi _ =>
      obtain ⟨-, hlt⟩ := mem_of_instruction? hi
      exact ⟨hlt, h.stack, h.returnValue, h.fault⟩
    | unnamed hi hop hcall =>
      obtain ⟨call, hcall', -⟩ := hostCallTarget_of_valid hvalid (mem_of_instruction? hi).1 hop
      rw [hcall'] at hcall
      cases hcall
    | unresolved name => exact h.stopWith trivial

/-! ## Looking up -/

/-- What a thread is about to look up by an index is there. -/
structure InRange (t : Thread) : Prop where
  main : ∀ f ∈ t.program.main, f < t.program.functions.size
  entry : ∀ f ∈ t.program.functions, f.entry < t.program.instructions.size
  slot : ∀ v j, t.location? v = .ok (some (.slot j)) → j < t.stack.capacity
  operand : ∀ i, t.instruction? t.ip = some i → ∀ n < i.op.operandCount, ∃ v, i.operand n = .ok v
  jump : ∀ i, t.instruction? t.ip = some i → ∀ n, i.op.target? = some (n, .instrIndex) →
    ∃ target, i.instrTarget n = .ok target ∧ target < t.program.instructions.size
  callee : ∀ i, t.instruction? t.ip = some i → i.op = .call →
    ∃ f, i.funcTarget 0 = .ok f ∧ f < t.program.functions.size
  hostCall : ∀ i, t.instruction? t.ip = some i → i.op = .callHost →
    ∃ call, i.hostCallTarget 0 = .ok call ∧ call < t.program.hostCalls.size
  /-- The function whose frame a return closes. -/
  returned : ∀ j sync link, t.stack.slot j = marker sync link →
    link.function < t.program.functions.size

theorem lt_capacity_of_location? {j : Nat} (h : t.location? v = .ok (some (.slot j))) :
    j < t.stack.capacity := by
  cases v with
  | stackIndex index =>
    obtain ⟨p, hp, h⟩ := bind_eq_ok.1 h
    cases h
    exact Stack.lt_capacity_of_resolve hp
  | relStackIndex base offset =>
    obtain ⟨d, -, h⟩ := bind_eq_ok.1 h
    obtain ⟨p, hp, h⟩ := bind_eq_ok.1 h
    cases h
    exact Stack.lt_capacity_of_resolve hp
  | register r =>
    cases r
    cases h
  | _ => cases h

theorem Sound.inRange (h : t.Sound) (hvalid : t.program.Valid) : t.InRange where
  main := hvalid.main
  entry := hvalid.entry
  slot _ _ hl := lt_capacity_of_location? hl
  operand _ hi _ hn := exists_operand hvalid (mem_of_instruction? hi).1 hn
  jump _ hi _ htarget := instrTarget_of_valid hvalid (mem_of_instruction? hi).1 htarget
  callee _ hi hop := funcTarget_of_valid hvalid (mem_of_instruction? hi).1 hop
  hostCall _ hi hop := hostCallTarget_of_valid hvalid (mem_of_instruction? hi).1 hop
  returned j sync link hmarker := by
    have hlink := h.stack.slot j
    rw [hmarker] at hlink
    exact (Value.sound_marker.1 hlink).1

end Thread
end ScriptMachine
