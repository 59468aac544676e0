import ScriptMachine.Image.Builder

/-!
# Images as they are built

A builder answers a step with an index: of a function, of the name of a host function, or of an
instruction. Later steps append to the tables of the image and replace operands, and nothing else,
so the index keeps its meaning in the finished image (`indices_stay_valid`).
-/

namespace ScriptMachine.Image.Builder

/-- A step in building an image. -/
inductive Step where
  | setStackSize (slots : UInt32)
  | setGlobals (slots : UInt32)
  | setPriority (p : Priority)
  | setMain (main : Option Nat)
  | function (name : String) (params : UInt8) (locals : UInt32)
  | hostCall (name : String)
  | emit (op : Opcode) (operands : List Value)
  | here
  | patch (instr operand : Nat) (v : Value)

/-- Carry out a step. Some steps are answered with an index. -/
def carryOut (b : Builder) : Step → Option Nat × Builder
  | .setStackSize slots => (none, b.setStackSize slots)
  | .setGlobals slots => (none, b.setGlobals slots)
  | .setPriority p => (none, b.setPriority p)
  | .setMain main => (none, b.setMain main)
  | .function name params locals => (b.function name params locals).map some id
  | .hostCall name => (b.hostCall name).map some id
  | .emit op operands => (b.emit op operands).map some id
  | .here => (b.here, b)
  | .patch instr operand v => (none, b.patch instr operand v)

/-- Carry out one step after the other. -/
def carryOutAll (b : Builder) (steps : List Step) : Builder :=
  steps.foldl (fun b s => (b.carryOut s).2) b

/-- The image that some steps build. -/
def built (steps : List Step) : Image := (carryOutAll {} steps).build

/-! ## What is read off the steps -/

/-- Whether a step appends an instruction. -/
def Step.emits : Step → Bool
  | emit .. => true
  | _ => false

/-- The main function that a step chooses, if it chooses one or none. -/
def Step.main? : Step → Option (Option Nat)
  | setMain main => some main
  | _ => none

/-- What a step puts in the place of an operand. -/
def Step.patch? (instr operand : Nat) : Step → Option Value
  | patch i n v => if i = instr ∧ n = operand then some v else none
  | _ => none

/-- What some steps put in the place of an operand last. -/
def lastPatch? (steps : List Step) (instr operand : Nat) : Option Value :=
  (steps.filterMap (Step.patch? instr operand)).getLast?

variable {b : Builder} {s : Step} {steps : List Step} {i : Nat}

@[simp] theorem carryOutAll_nil (b : Builder) : b.carryOutAll [] = b := rfl

@[simp] theorem carryOutAll_cons (b : Builder) (s : Step) (steps : List Step) :
    b.carryOutAll (s :: steps) = (b.carryOut s).2.carryOutAll steps := rfl

theorem carryOutAll_append (b : Builder) (steps steps' : List Step) :
    b.carryOutAll (steps ++ steps') = (b.carryOutAll steps).carryOutAll steps' :=
  List.foldl_append

/-- Asking for the name of a host function leaves the image, or adds the name to the table. -/
theorem hostCall_cases (b : Builder) (name : String) :
    (b.hostCall name).2 = b ∨
      (∀ known ∈ b.image.hostCalls, ¬ Text.sameName known name) ∧
        (b.hostCall name).2 = { b with image.hostCalls := b.image.hostCalls.push name } := by
  simp only [Builder.hostCall]
  split
  · exact .inl rfl
  · rename_i hfind
    exact .inr ⟨by simpa using hfind, rfl⟩

/-- What a table holds, it holds with an entry more. -/
theorem getElem?_push_of_some {α : Type} {xs : Array α} {x : α} (h : xs[i]? = some x) (y : α) :
    (xs.push y)[i]? = some x := by
  obtain ⟨hlt, -⟩ := Array.getElem?_eq_some_iff.1 h
  rw [Array.getElem?_push, if_neg (Nat.ne_of_lt hlt), h]

/-! ## Instructions -/

theorem here_carryOut (b : Builder) (s : Step) :
    (b.carryOut s).2.here = b.here + if s.emits then 1 else 0 := by
  cases s with
  | emit op operands => simp [carryOut, Builder.emit, Builder.here, Step.emits]
  | hostCall name =>
    rcases hostCall_cases b name with h | ⟨-, h⟩ <;>
      simp [carryOut, h, Builder.here, Step.emits]
  | patch instr operand v => simp [carryOut, Builder.patch, Builder.here, Step.emits]
  | _ => rfl

/-- The next instruction is behind those that have been appended. -/
theorem here_carryOutAll (b : Builder) (steps : List Step) :
    (b.carryOutAll steps).here = b.here + steps.countP Step.emits := by
  induction steps generalizing b with
  | nil => rfl
  | cons s steps ih =>
    rw [carryOutAll_cons, ih, here_carryOut, List.countP_cons]
    omega

/-- Replacing an operand, as a map over all operands. -/
theorem set_eq_mapIdx (operands : List Value) (n : Nat) (v : Value) :
    operands.set n v = operands.mapIdx fun k w => if n = k then v else w := by
  refine List.ext_getElem? fun k => ?_
  rw [List.getElem?_set, List.getElem?_mapIdx]
  by_cases hk : n = k
  · subst hk
    by_cases hlt : n < operands.length
    · simp [hlt]
    · simp [hlt]
  · simp [hk]

@[simp] theorem mapIdx_unchanged (operands : List Value) :
    (operands.mapIdx fun _ v => v) = operands :=
  List.ext_getElem? fun k => by simp [List.getElem?_mapIdx]

/-- What a step makes of an instruction. -/
theorem instructions_carryOut {op : Opcode} {operands : List Value}
    (h : b.image.instructions[i]? = some ⟨op, operands⟩) :
    (b.carryOut s).2.image.instructions[i]? =
      some ⟨op, operands.mapIdx fun n v => (s.patch? i n).getD v⟩ := by
  have hsame : b.image.instructions[i]? = some ⟨op, operands.mapIdx fun _ v => v⟩ := by
    rwa [mapIdx_unchanged]
  cases s with
  | emit op' operands' => exact getElem?_push_of_some hsame _
  | hostCall name =>
    rcases hostCall_cases b name with hcall | ⟨-, hcall⟩ <;>
    · rw [carryOut, Prod.map_snd, id, hcall]
      exact hsame
  | patch instr operand v =>
    simp only [carryOut, Builder.patch, Array.getElem?_modify, h]
    by_cases hi : instr = i
    · subst hi
      simp only [if_true, Option.map_some, set_eq_mapIdx, Step.patch?, true_and]
      congr 3
      funext n w
      split <;> rfl
    · simp [hi, Step.patch?]
  | _ => exact hsame

theorem lastPatch?_cons (s : Step) (steps : List Step) (i n : Nat) :
    lastPatch? (s :: steps) i n = (lastPatch? steps i n).or (s.patch? i n) := by
  unfold lastPatch?
  rw [List.filterMap_cons]
  split
  · rename_i h
    rw [h, Option.or_none]
  · rename_i v h
    rw [h, List.getLast?_cons, Option.or_some]

/-- What steps make of an instruction: an operand is the last that was put in its place. -/
theorem instructions_carryOutAll {op : Opcode} {operands : List Value}
    (h : b.image.instructions[i]? = some ⟨op, operands⟩) :
    (b.carryOutAll steps).image.instructions[i]? =
      some ⟨op, operands.mapIdx fun n v => (lastPatch? steps i n).getD v⟩ := by
  induction steps generalizing b operands with
  | nil => simpa [lastPatch?] using h
  | cons s steps ih =>
    rw [carryOutAll_cons, ih (instructions_carryOut h), List.mapIdx_mapIdx]
    congr 3
    funext n v
    rw [lastPatch?_cons]
    cases lastPatch? steps i n <;> simp

/-! ## Functions and host functions -/

/-- What every step keeps, a sequence of steps keeps. -/
theorem carryOutAll_keeps {Q : Builder → Prop} (hQ : ∀ b s, Q b → Q (carryOut b s).2) (h : Q b) :
    Q (b.carryOutAll steps) := by
  induction steps generalizing b with
  | nil => exact h
  | cons s steps ih => exact ih (hQ b s h)

/-- A step keeps the functions there are. -/
theorem functions_carryOut {f : Function} (h : b.image.functions[i]? = some f) :
    (b.carryOut s).2.image.functions[i]? = some f := by
  cases s with
  | function name params locals => exact getElem?_push_of_some h _
  | hostCall name =>
    rcases hostCall_cases b name with hcall | ⟨-, hcall⟩ <;>
    · rw [carryOut, Prod.map_snd, id, hcall]
      exact h
  | _ => exact h

/-- A step keeps the names of host functions there are. -/
theorem hostCalls_carryOut {name : String} (h : b.image.hostCalls[i]? = some name) :
    (b.carryOut s).2.image.hostCalls[i]? = some name := by
  cases s with
  | hostCall name' =>
    rw [carryOut, Prod.map_snd, id]
    rcases hostCall_cases b name' with hcall | ⟨-, hcall⟩
    · rwa [hcall]
    · rw [hcall]
      exact getElem?_push_of_some h _
  | _ => exact h

/-- The name that is asked for is in the table, up to case. -/
theorem hostCall_answer (b : Builder) (name : String) :
    ∃ i known, (b.hostCall name).1 = i ∧ (b.hostCall name).2.image.hostCalls[i]? = some known ∧
      Text.sameName known name := by
  simp only [Builder.hostCall]
  split
  · rename_i i hfind
    obtain ⟨hlt, hsame, -⟩ := Array.findIdx?_eq_some_iff_getElem.1 hfind
    exact ⟨i, _, rfl, Array.getElem?_eq_getElem hlt, hsame⟩
  · exact ⟨_, name, rfl, by simp, by simp [Text.sameName]⟩

/-- The names of host functions differ by more than case. -/
def DistinctHostCalls (b : Builder) : Prop :=
  b.image.hostCalls.toList.Pairwise fun known name => ¬ Text.sameName known name

/-- A name is only added where the table has none that is the same up to case. -/
theorem distinctHostCalls_carryOut (h : b.DistinctHostCalls) :
    (b.carryOut s).2.DistinctHostCalls := by
  cases s with
  | hostCall name =>
    rw [carryOut, Prod.map_snd, id]
    rcases hostCall_cases b name with hcall | ⟨hnew, hcall⟩
    · rwa [hcall]
    · rw [hcall, DistinctHostCalls, Array.toList_push, List.pairwise_append]
      refine ⟨h, List.pairwise_singleton _ _, fun known hknown added hadded => ?_⟩
      rw [List.mem_singleton.1 hadded]
      exact hnew known (Array.mem_toList_iff.1 hknown)
  | _ => exact h

/-! ## The main function -/

/-- What has been chosen for main, if anything has. -/
def chosen? (b : Builder) : Option (Option Nat) :=
  if b.choseMain then some b.image.main else none

/-- The last choice counts. -/
theorem chosen?_carryOutAll (b : Builder) (steps : List Step) :
    (b.carryOutAll steps).chosen? = (steps.filterMap Step.main?).getLast?.or b.chosen? := by
  induction steps generalizing b with
  | nil => rfl
  | cons s steps ih =>
    rw [carryOutAll_cons, ih]
    cases s with
    | setMain main =>
      simp [carryOut, chosen?, Builder.setMain, Step.main?, List.getLast?_cons]
    | hostCall name =>
      rcases hostCall_cases b name with hcall | ⟨-, hcall⟩ <;>
      · rw [carryOut, Prod.map_snd, id, hcall]
        rfl
    | _ => rfl

/-! ## Finished images -/

theorem build_eq (b : Builder) :
    b.build = { b.image with main := b.chosen?.getD (b.image.findFunction? mainName) } := by
  unfold Builder.build chosen?
  split <;> rfl

/-- What stands behind a step in building an image sees what the step has left. -/
theorem carryOutAll_append_cons (b : Builder) (before after : List Step) (s : Step) :
    b.carryOutAll (before ++ s :: after) =
      ((b.carryOutAll before).carryOut s).2.carryOutAll after := by
  rw [carryOutAll_append, carryOutAll_cons]

/-- **Indices stay valid.** Take any steps, and one of them with those before it and after it. The
index that it is answered with means the same in the finished image, whatever comes after it:

- a function has the name and the sizes given, and starts behind the instructions that were
  appended before it;
- the name of a host function is the one asked for, up to case;
- an instruction has the opcode given, and the operands given but for those that were replaced
  later, of which the last replacement counts. What was put in the place of an operand before the
  instruction was there, or beyond its operands, has no effect.

No two names of host functions are the same up to case. Main is the last function, or the last
none, that was chosen; when nothing was chosen, it is the first function named `_Main` up to case,
if there is one. -/
theorem indices_stay_valid (before after : List Step) :
    (∀ name params locals, ∃ i,
      ((carryOutAll {} before).carryOut (.function name params locals)).1 = some i ∧
      (built (before ++ .function name params locals :: after)).functions[i]? =
        some ⟨name, before.countP Step.emits, params, locals⟩) ∧
    (∀ name, ∃ i known,
      ((carryOutAll {} before).carryOut (.hostCall name)).1 = some i ∧
      (built (before ++ .hostCall name :: after)).hostCalls[i]? = some known ∧
      Text.sameName known name) ∧
    (∀ op operands, ∃ i,
      ((carryOutAll {} before).carryOut (.emit op operands)).1 = some i ∧
      (built (before ++ .emit op operands :: after)).instructions[i]? =
        some ⟨op, operands.mapIdx fun n v => (lastPatch? after i n).getD v⟩) ∧
    (built after).hostCalls.toList.Pairwise (fun known name => ¬ Text.sameName known name) ∧
    (built after).main = ((after.filterMap Step.main?).getLast?).getD
      ((built after).functions.findIdx? fun f => Text.sameName f.name "_Main") := by
  refine ⟨fun name params locals => ?_, fun name => ?_, fun op operands => ?_, ?_, ?_⟩
  · refine ⟨_, rfl, ?_⟩
    rw [built, carryOutAll_append_cons, build_eq]
    refine carryOutAll_keeps (Q := fun b => b.image.functions[_]? = some _)
      (fun _ _ => functions_carryOut) ?_
    have hhere : (carryOutAll {} before).here = before.countP Step.emits := by
      rw [here_carryOutAll]
      exact Nat.zero_add _
    simp [carryOut, Builder.function, hhere]
  · obtain ⟨i, known, hi, hknown, hsame⟩ := hostCall_answer (carryOutAll {} before) name
    refine ⟨i, known, congrArg some hi, ?_, hsame⟩
    rw [built, carryOutAll_append_cons, build_eq]
    exact carryOutAll_keeps (Q := fun b => b.image.hostCalls[i]? = some known)
      (fun _ _ => hostCalls_carryOut) hknown
  · refine ⟨_, rfl, ?_⟩
    rw [built, carryOutAll_append_cons, build_eq]
    exact instructions_carryOutAll (by simp [carryOut, Builder.emit, Builder.here])
  · rw [built, build_eq]
    exact carryOutAll_keeps (Q := DistinctHostCalls) (fun _ _ => distinctHostCalls_carryOut)
      List.Pairwise.nil
  · rw [built, build_eq]
    simp only [chosen?_carryOutAll]
    cases (after.filterMap Step.main?).getLast? <;> rfl

/-- A name in another case, an operand that is replaced twice, and one out of range. -/
example :
    let image := built [.hostCall "Print", .patch 0 0 (.int 9), .function "_main" 0 2,
      .emit .jmp [.int 0], .hostCall "PRINT", .emit .exit [.int 0],
      .patch 0 0 (.int 7), .patch 0 0 (.int 1), .patch 0 3 (.int 8)]
    image.hostCalls = #["Print"] ∧ image.main = some 0 ∧
      image.instructions = #[⟨.jmp, [.int 1]⟩, ⟨.exit, [.int 0]⟩] := by
  decide +kernel

end ScriptMachine.Image.Builder
