import ScriptMachine.Proofs.Kept

/-!
# Reading back what was written

`Reader.Reads` relates a reader to the bytes of a field: whatever follows them, the reader takes
exactly these bytes and gives the value of the field. Readers in a row read the fields in a row,
so that each field of an executable has to be looked at only once. Together they say that what is
kept of an image is read back from its executable (`decode_encode_kept`), if the counts and lengths
of its tables have room in their fields. That is the image itself, if each of its numbers and names
has room as well.
-/

namespace ScriptMachine.Executable

/-- An image that loses nothing when it is written. -/
structure Encodable (image : Image) : Prop where
  tagged : image.Tagged
  operandCount : ∀ i ∈ image.instructions, i.operands.length ≤ 255
  index : ∀ i ∈ image.instructions, ∀ n,
    .instrIndex n ∈ i.operands ∨ .funcIndex n ∈ i.operands ∨ .hostCallIndex n ∈ i.operands →
      n < 2 ^ 32
  string : ∀ i ∈ image.instructions, ∀ s, .string s ∈ i.operands →
    (Text.utf8 s).length < 2 ^ 32
  main : ∀ f ∈ image.main, f < 2 ^ 32
  entry : ∀ f ∈ image.functions, f.entry < 2 ^ 32
  functionName : ∀ f ∈ image.functions, (Text.utf8 f.name).length ≤ 255
  hostCallName : ∀ name ∈ image.hostCalls, (Text.utf8 name).length ≤ 255
  instructionCount : image.instructions.size < 2 ^ 32
  stringCount : (strings image).length < 2 ^ 32
  functionCount : image.functions.size < 2 ^ 32
  hostCallCount : image.hostCalls.size < 2 ^ 32

/-- An image whose tables can be told apart again, whatever is cut off within them. -/
structure Storable (image : Image) : Prop where
  operandCount : ∀ i ∈ image.instructions, (writable i.operands).length ≤ 255
  string : ∀ i ∈ image.instructions, ∀ s, .string s ∈ i.operands →
    (Text.utf8 s).length < 2 ^ 32
  instructionCount : image.instructions.size < 2 ^ 32
  stringCount : (strings image).length < 2 ^ 32
  functionCount : image.functions.size < 2 ^ 32
  hostCallCount : image.hostCalls.size < 2 ^ 32

/-- Leaving things out of its instructions and names does not make the tables larger. -/
theorem Storable.kept {x : Image} (hx : Storable x) : Storable (kept x) where
  operandCount i hi := by
    obtain ⟨j, hj, rfl⟩ := Array.mem_map.1 hi
    rw [writable_kept, keptInstruction, List.length_map]
    exact hx.operandCount j hj
  string i hi s hs := by
    obtain ⟨j, hj, rfl⟩ := Array.mem_map.1 hi
    obtain ⟨v, hv, hs⟩ := List.mem_map.1 hs
    obtain rfl : v = .string s := by cases v <;> cases hs; rfl
    exact hx.string j hj s (List.mem_filter.1 hv).1
  instructionCount := by
    rw [Executable.kept, Array.size_map]
    exact hx.instructionCount
  stringCount := by
    rw [strings_kept]
    exact hx.stringCount
  functionCount := by
    rw [Executable.kept, Array.size_map]
    exact hx.functionCount
  hostCallCount := by
    rw [Executable.kept, Array.size_map]
    exact hx.hostCallCount

/-- No instruction of a valid image has more operands than can be counted. -/
theorem length_operands_le {x : Image} (hvalid : x.Valid) {i : Instruction}
    (hi : i ∈ x.instructions) : i.operands.length ≤ 255 := by
  rw [hvalid.count i hi]
  cases i.op <;> decide

/-- An index among the operands of a valid image is below one of its counts. -/
theorem Storable.index_lt {x : Image} (hx : Storable x) (hvalid : x.Valid) {i : Instruction}
    (hi : i ∈ x.instructions) {n : Nat}
    (hn : .instrIndex n ∈ i.operands ∨ .funcIndex n ∈ i.operands ∨
      .hostCallIndex n ∈ i.operands) : n < 2 ^ 32 := by
  obtain hn | hn | hn := hn
  · exact Nat.lt_trans (of_decide_eq_true (hvalid.operand i hi _ hn)) hx.instructionCount
  · exact Nat.lt_trans (of_decide_eq_true (hvalid.operand i hi _ hn)) hx.functionCount
  · exact Nat.lt_trans (of_decide_eq_true (hvalid.operand i hi _ hn)) hx.hostCallCount

theorem Encodable.storable {x : Image} (hx : Encodable x) : Storable x where
  operandCount i hi := Nat.le_trans (List.length_filter_le _ _) (hx.operandCount i hi)
  string := hx.string
  instructionCount := hx.instructionCount
  stringCount := hx.stringCount
  functionCount := hx.functionCount
  hostCallCount := hx.hostCallCount

theorem Encodable.kept_eq {x : Image} (hx : Encodable x) : kept x = x :=
  (kept_eq_keptNames hx.tagged hx.index hx.main hx.entry).trans
    (keptNames_eq_self (fun f hf => keptName_of_length_le (hx.functionName f hf))
      fun name hname => keptName_of_length_le (hx.hostCallName name hname))

namespace Reader

variable {α β : Type} {r : Reader α} {x : α} {n width : Nat}

/-- A reader takes a field off the front and gives its value. -/
def Reads (r : Reader α) (field : List UInt8) (x : α) : Prop :=
  ∀ rest, r.run (field ++ rest) = .ok (x, rest)

/-! ## Fields in a row -/

theorem Reads.pure (x : α) : Reads (pure x) [] x := fun _ => rfl

theorem Reads.bind {f : α → Reader β} {field field' : List UInt8} {y : β}
    (h : Reads r field x) (h' : Reads (f x) field' y) : Reads (r >>= f) (field ++ field') y := by
  intro rest
  rw [List.append_assoc]
  exact bind_run_eq_ok.2 ⟨x, field' ++ rest, h _, h' _⟩

/-- What is made of a field does not need more bytes. -/
theorem Reads.map {f : α → β} {field : List UInt8} {y : β} (h : Reads r field x)
    (hy : f x = y) : Reads (r >>= fun x => Pure.pure (f x)) field y := by
  intro rest
  exact bind_run_eq_ok.2 ⟨x, rest, h _, pure_run_eq_ok.2 ⟨hy, rfl⟩⟩

theorem Reads.lift {x : Except LoadError α} {a : α} (h : x = .ok a) :
    Reads (liftM x : Reader α) [] a := fun _ => lift_run_eq_ok.2 ⟨h, rfl⟩

/-- A run of fields is read as the run of their values. -/
theorem Reads.fields {read : Nat → Reader β} {write : α → List UInt8} {value : α → β}
    {xs : List α} (h : ∀ x ∈ xs, ∀ n, Reads (read n) (write x) (value x)) (done : Array β) :
    Reads (Reader.fields read xs.length done) (xs.flatMap write)
      (done ++ (xs.map value).toArray) := by
  induction xs generalizing done with
  | nil =>
    rw [List.map_nil, Array.append_empty]
    exact .pure done
  | cons x xs ih =>
    have hrest := ih (fun y hy => h y (List.mem_cons_of_mem _ hy)) (done.push (value x))
    have happend : done.push (value x) ++ (xs.map value).toArray =
        done ++ ((x :: xs).map value).toArray := by
      simp
    rw [happend] at hrest
    exact (h x List.mem_cons_self _).bind hrest

/-! ## Numbers and texts -/

theorem reads_byte (b : UInt8) : Reads byte [b] b := fun _ => rfl

/-- A number is read as far as its field has room for it. -/
theorem reads_number (width n : Nat) :
    Reads (number width) (Executable.number width n) (n % 256 ^ width) := by
  induction width generalizing n with
  | zero =>
    rw [Nat.pow_zero, Nat.mod_one]
    exact .pure 0
  | succ width ih =>
    have hvalue : (UInt8.ofNat n).toNat + 256 * (n / 256 % 256 ^ width) =
        n % 256 ^ (width + 1) := by
      rw [UInt8.toNat_ofNat', show 256 ^ (width + 1) = 256 * 256 ^ width from Nat.pow_succ',
        Nat.mod_mul]
    show Reads _ ([UInt8.ofNat n] ++ Executable.number width (n / 256)) _
    exact (reads_byte _).bind ((ih (n / 256)).map hvalue)

theorem reads_number_of_lt (h : n < 256 ^ width) :
    Reads (number width) (Executable.number width n) n := by
  have hread := reads_number width n
  rwa [Nat.mod_eq_of_lt h] at hread

theorem reads_word (w : UInt32) : Reads word (Executable.number 4 w.toNat) w :=
  (reads_number_of_lt w.toNat_lt).map UInt32.ofNat_toNat

theorem reads_int (i : Int32) : Reads int (Executable.number 4 i.toUInt32.toNat) i :=
  (reads_word i.toUInt32).map rfl

theorem reads_bytes (run : List UInt8) : Reads (bytes run.length) run run := by
  intro rest
  have htake : (run ++ rest).take run.length = run := List.take_left
  have hdrop : (run ++ rest).drop run.length = rest := List.drop_left
  simp only [bytes]
  refine bind_run_eq_ok.2 ⟨run ++ rest, run ++ rest, rfl, ?_⟩
  simp only [htake, hdrop, if_true]
  rfl

theorem reads_text {s : String} (h : (Text.utf8 s).length < 256 ^ width) :
    Reads (text width)
      (Executable.number width (Text.utf8 s).length ++ Text.utf8 s) s :=
  (reads_number_of_lt h).bind ((reads_bytes (Text.utf8 s)).map (Text.ofUtf8_utf8 s))

theorem Reads.table {read : Nat → Reader β} {write : α → List UInt8} {value : α → β}
    {xs : List α} (hcount : xs.length < 2 ^ 32)
    (h : ∀ x ∈ xs, ∀ n, Reads (read n) (write x) (value x)) :
    Reads (Reader.table read) (writeTable write xs) (xs.map value).toArray := by
  have hfields := Reads.fields h #[]
  rw [Array.empty_append] at hfields
  exact (reads_number_of_lt hcount).bind hfields

/-! ## Operands and instructions -/

/-- An operand as it stands in the file. -/
def raw (table : List String) : Value → RawOperand
  | .string s => .string (table.idxOf s)
  | v => .value v

variable {x : Image} {i : Instruction} {v : Value}

/-- Every text of a string operand is in the table. -/
theorem mem_strings {s : String} (hi : i ∈ x.instructions) (hv : .string s ∈ i.operands) :
    s ∈ strings x := by
  rw [strings, List.mem_eraseDups, List.mem_flatMap]
  exact ⟨i, Array.mem_toList_iff.2 hi, List.mem_filterMap.2 ⟨.string s, hv, rfl⟩⟩

/-- What is kept of an operand is read back, with an index in place of its text. -/
theorem reads_operand (hx : Storable x) (hi : i ∈ x.instructions) (hv : v ∈ i.operands)
    (htag : (Tag.of? v).isSome = true) (ip : Nat) :
    Reads (operand ip) (writeOperand (strings x) v) (raw (strings x) (keptValue v)) := by
  cases v with
  | int n => exact (reads_byte _).bind ((reads_int n).map rfl)
  | float y => exact (reads_byte _).bind ((reads_word y.bits).map rfl)
  | string s =>
    have hs : (strings x).idxOf s < 2 ^ 32 :=
      Nat.lt_trans (List.idxOf_lt_length_of_mem (mem_strings hi hv)) hx.stringCount
    exact (reads_byte _).bind ((reads_number_of_lt hs).map rfl)
  | stackIndex j => exact (reads_byte _).bind ((reads_int j).map rfl)
  | relStackIndex base offset =>
    exact (reads_byte _).bind ((reads_int base).bind ((reads_int offset).map rfl))
  | instrIndex n => exact (reads_byte _).bind ((reads_number 4 n).map rfl)
  | funcIndex n => exact (reads_byte _).bind ((reads_number 4 n).map rfl)
  | hostCallIndex n => exact (reads_byte _).bind ((reads_number 4 n).map rfl)
  | register r =>
    cases r
    exact (reads_byte _).bind ((reads_number 4 0).bind (.pure _))
  | _ => cases htag

theorem reads_instruction (hx : Storable x) (hi : i ∈ x.instructions) (ip : Nat) :
    Reads (instruction ip) (writeInstruction (strings x) i)
      (i.op, ((keptInstruction i).operands.map (raw (strings x))).toArray) := by
  have hcode : i.op.code < 256 ^ 2 := by cases i.op <;> decide
  have hcount : (writable i.operands).length < 256 ^ 1 := Nat.lt_succ_of_le (hx.operandCount i hi)
  have hoperand : ∀ v ∈ writable i.operands, ∀ _ : Nat, Reads (operand ip)
      (writeOperand (strings x) v) (raw (strings x) (keptValue v)) := fun v hv _ =>
    reads_operand hx hi (List.mem_filter.1 hv).1 (List.mem_filter.1 hv).2 ip
  have hoperands := Reads.fields hoperand #[]
  rw [Array.empty_append] at hoperands
  simp only [writeInstruction, keptInstruction, List.map_map, Function.comp_def, List.append_assoc]
  refine (reads_number_of_lt hcode).bind ?_
  rw [Opcode.ofCode?_code]
  exact (reads_number_of_lt hcount).bind (hoperands.map rfl)

/-! ## Functions and names -/

theorem reads_name (name : String) : Reads (text 1) (writeName name) (keptName name) := by
  have hlength : ((Text.utf8 name).take 255).length < 256 ^ 1 :=
    Nat.lt_succ_of_le (List.length_take_le _ _)
  exact (reads_number_of_lt hlength).bind ((reads_bytes _).map rfl)

theorem reads_function (f : Function) : Reads function (writeFunction f) (keptFunction f) := by
  simp only [writeFunction, List.append_assoc]
  exact (reads_number 4 f.entry).bind <| (reads_byte _).bind <| (reads_word _).bind <|
    (reads_name f.name).map rfl

/-! ## Images -/

theorem reads_signature : Reads signature Executable.signature () := by
  intro rest
  rfl

theorem reads_version : Reads version [Executable.version.1, Executable.version.2] () :=
  (reads_byte _).bind ((reads_byte _).bind (.pure ()))

theorem reads_priority (p : Priority) :
    Reads priority ([p.code] ++ Executable.number 4 p.userTimeslice.toNat) p := by
  refine (reads_byte _).bind fun rest => ?_
  refine bind_run_eq_ok.2 ⟨p.userTimeslice, rest, reads_word _ _, ?_⟩
  rw [Priority.ofCode?_code]
  rfl

theorem resolve_raw (hi : i ∈ x.instructions) (hv : v ∈ i.operands) (ip : Nat) :
    resolve (strings x).toArray ip (raw (strings x) (keptValue v)) = .ok (keptValue v) := by
  cases v with
  | string s =>
    have hmem := mem_strings hi hv
    have hlt := List.idxOf_lt_length_of_mem hmem
    have hget : (strings x).toArray[(strings x).idxOf s]? = some s := by
      rw [List.getElem?_toArray, List.getElem?_eq_getElem hlt, List.getElem_idxOf]
    simp only [keptValue, raw, resolve, hget]
  | _ => rfl

/-- The instructions get their texts back. -/
theorem resolveAll_raw (x : Image) :
    resolveAll (strings x).toArray (x.instructions.toList.map fun i =>
      (i.op, ((keptInstruction i).operands.map (raw (strings x))).toArray)).toArray =
        .ok (kept x).instructions := by
  rw [resolveAll_eq_ok, List.forall₂_iff_get]
  refine ⟨by simp [kept], fun k h₁ h₂ => ?_⟩
  have hk : k < x.instructions.size := by simpa [kept] using h₂
  simp only [List.get_eq_getElem, List.getElem_mapIdx, List.getElem_map, kept, Array.toList_map]
  rw [List.forall₂_map_left_iff, List.forall₂_same]
  refine ⟨rfl, fun v hv => ?_⟩
  obtain ⟨w, hw, rfl⟩ := List.mem_map.1 hv
  exact resolve_raw (Array.getElem_mem hk) (List.mem_filter.1 hw).1 k

theorem reads_string {s : String} (hx : Storable x) (hs : s ∈ strings x) :
    Reads (text 4) (writeString s) s := by
  rw [strings, List.mem_eraseDups, List.mem_flatMap] at hs
  obtain ⟨i, hi, hs⟩ := hs
  obtain ⟨v, hv, hs⟩ := List.mem_filterMap.1 hs
  cases v with
  | string t =>
    cases hs
    exact reads_text (hx.string i (Array.mem_toList_iff.1 hi) s hv)
  | _ => cases hs

/-- A table whose entries are read back as they are. -/
theorem Reads.entries {read : Nat → Reader α} {write : α → List UInt8} {xs : List α}
    (hcount : xs.length < 2 ^ 32) (h : ∀ x ∈ xs, ∀ n, Reads (read n) (write x) x) :
    Reads (Reader.table read) (writeTable write xs) xs.toArray := by
  have htable : Reads (Reader.table read) (writeTable write xs) (xs.map id).toArray :=
    Reads.table hcount h
  rwa [List.map_id] at htable

/-- What is kept of an image is read back. -/
theorem reads_kept (hx : Storable x) : Reads image (encode x) (kept x) := by
  have hinstructions := Reads.table hx.instructionCount
    fun i hi ip => reads_instruction hx (Array.mem_toList_iff.1 hi) ip
  have hstrings := Reads.entries hx.stringCount fun s hs _ => reads_string hx hs
  have hfunctions := Reads.table hx.functionCount fun f (_ : f ∈ x.functions.toList) _ =>
    reads_function f
  have hhostCalls := Reads.table hx.hostCallCount fun name (_ : name ∈ x.hostCalls.toList) _ =>
    reads_name name
  rw [← Array.toList_map, Array.toArray_toList] at hfunctions hhostCalls
  simp only [encode, writeHeader, List.append_assoc]
  refine reads_signature.bind <| reads_version.bind <| (reads_word _).bind <|
    (reads_word _).bind <| (reads_byte _).bind <| (reads_number 4 (x.main.getD 0)).bind ?_
  rw [← List.append_assoc [x.priority.code]]
  refine (reads_priority _).bind <| hinstructions.bind <| hstrings.bind <|
    (Reads.lift (resolveAll_raw x)).bind <| hfunctions.bind <| hhostCalls.map ?_
  have hpresent : (if (if x.main.isSome then 1 else 0 : UInt8) = 0 then none
      else some (x.main.getD 0 % 256 ^ 4)) = x.main.map (· % 2 ^ 32) := by
    cases x.main <;> rfl
  rw [hpresent]
  rfl

theorem reads_image (hx : Encodable x) : Reads image (encode x) x := by
  have hread := reads_kept hx.storable
  rwa [hx.kept_eq] at hread

end Reader

/-- What is kept of an image is read back from its executable, unless it is not valid. -/
theorem decode_encode_kept {x : Image} (hx : Storable x) :
    decode (encode x) = (kept x).validate.map fun _ => kept x := by
  have hread := Reader.reads_kept hx []
  rw [List.append_nil] at hread
  exact decode_of_run hread

/-- **Reading undoes writing.** An image that loses nothing when it is written is read back from
its executable as it was, to the bit, and is refused only for what is wrong with it. -/
theorem decode_encode {x : Image} (hx : Encodable x) :
    decode (encode x) =
      match x.validate with
      | .ok () => .ok x
      | .error e => .error e := by
  have hread : Reader.image.run (encode x) = .ok (x, []) := by
    have hread := Reader.reads_image hx []
    rwa [List.append_nil] at hread
  rw [decode_of_run hread]
  cases x.validate <;> rfl

/-- An image with every kind of table: a text that stands twice, a single that is no number. -/
def greeting : Image where
  stackSize := 16
  globals := 1
  main := some 0
  priority := .user 7
  instructions := #[⟨.push, [.string "é"]⟩, ⟨.push, [.float ⟨0x7fc00001⟩]⟩,
    ⟨.mov, [.stackIndex (-1), .string "é"]⟩, ⟨.callHost, [.hostCallIndex 0]⟩,
    ⟨.jmp, [.instrIndex 4]⟩]
  functions := #[⟨"_Main", 0, 2, 3⟩]
  hostCalls := #["print"]

theorem encodable_greeting : Encodable greeting where
  tagged := by
    rw [Image.Tagged]
    decide
  operandCount := by decide
  index i hi n hn := by
    simp only [greeting, List.mem_toArray, List.mem_cons, List.not_mem_nil, or_false] at hi
    rcases hi with rfl | rfl | rfl | rfl | rfl <;> simp at hn <;> omega
  string i hi s hs := by
    simp only [greeting, List.mem_toArray, List.mem_cons, List.not_mem_nil, or_false] at hi
    rcases hi with rfl | rfl | rfl | rfl | rfl <;> simp at hs <;> subst hs <;> decide
  main := by decide
  entry := by decide
  functionName := by decide
  hostCallName := by decide
  instructionCount := by decide
  stringCount := by decide
  functionCount := by decide
  hostCallCount := by decide

theorem decode_encode_greeting : decode (encode greeting) = .ok greeting := by
  have hvalid : greeting.validate = .ok () := by decide
  rw [decode_encode encodable_greeting, hvalid]

end ScriptMachine.Executable
