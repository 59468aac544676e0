import Mathlib.Data.List.Induction
import Mathlib.Data.List.Nodup
import ScriptMachine.Proofs.Decoding

/-!
# The table of strings

The texts of an image's operands are written once each, into a table behind the instructions, and an
operand holds the position of its text there. `Interns` says what such a table is: it holds the
texts of the stream of operands and no others, without repetition, in the order in which they first
occur.

The writer makes the table before it writes the first operand. It can as well be made on the way
(`encodeOnePass`): each operand enters its text, if it is new, and is written at once. The table
only grows at its end, so a position that has been written stays the right one, whatever is entered
later (`fst_writeEntering`).
-/

namespace ScriptMachine.Executable

open Grammar

variable {x : Image} {table seen : List String} {v : Value} {s : String}

/-! ## Tables of texts -/

/-- A table holds the texts of a stream, each of them once, in the order in which they first occur.
-/
structure Interns (table stream : List String) : Prop where
  nodup : table.Nodup
  mem_iff : ∀ s, s ∈ table ↔ s ∈ stream
  ordered : table.Pairwise fun s t => stream.idxOf s < stream.idxOf t

/-- There is one such table only. -/
theorem Interns.unique {table' : List String} (h : Interns table seen)
    (h' : Interns table' seen) : table = table' := by
  have hperm : table.Perm table' := (List.perm_ext_iff_of_nodup h.nodup h'.nodup).2 fun s =>
    (h.mem_iff s).trans (h'.mem_iff s).symm
  exact hperm.eq_of_pairwise (fun s t _ _ hst hts => absurd hst (Nat.lt_asymm hts)) h.ordered
    h'.ordered

/-- Enter the text of an operand into a table, at the end, if it is not there. -/
def enter (table : List String) (v : Value) : List String :=
  match text? v with
  | some s => if s ∈ table then table else table ++ [s]
  | none => table

theorem prefix_enter (table : List String) (v : Value) : table <+: enter table v := by
  unfold enter
  split
  · split
    · exact List.prefix_rfl
    · exact List.prefix_append _ _
  · exact List.prefix_rfl

/-- A text that an operand has is in the table from then on. -/
theorem mem_enter (table : List String) (s : String) : s ∈ enter table (.string s) := by
  simp only [enter, text?]
  split
  · assumption
  · exact List.mem_append_right _ List.mem_cons_self

/-- Entering a text keeps the table one of the texts so far. -/
theorem Interns.enter (h : Interns table seen) (v : Value) :
    Interns (enter table v) (seen ++ (text? v).toList) := by
  cases hv : text? v with
  | none =>
    rw [Executable.enter, hv, Option.toList_none, List.append_nil]
    exact h
  | some s =>
    -- where the texts so far first occur does not depend on what follows
    have hplace {t : String} (ht : t ∈ table) : (seen ++ [s]).idxOf t = seen.idxOf t :=
      List.idxOf_append_of_mem ((h.mem_iff t).1 ht)
    have hordered : table.Pairwise fun t u => (seen ++ [s]).idxOf t < (seen ++ [s]).idxOf u :=
      h.ordered.imp_of_mem fun ht hu htu => by rwa [hplace ht, hplace hu]
    simp only [Executable.enter, hv, Option.toList_some]
    split
    · rename_i hs
      refine ⟨h.nodup, fun t => ?_, hordered⟩
      rw [h.mem_iff, List.mem_append, List.mem_singleton, or_iff_left_of_imp]
      rintro rfl
      exact (h.mem_iff t).1 hs
    · rename_i hs
      have hnew : s ∉ seen := fun hmem => hs ((h.mem_iff s).2 hmem)
      refine ⟨?_, fun t => ?_, ?_⟩
      · exact List.nodup_append.2 ⟨h.nodup, List.nodup_singleton s, fun t ht u hu => by
          rintro rfl
          exact hs (List.mem_singleton.1 hu ▸ ht)⟩
      · rw [List.mem_append, List.mem_append, h.mem_iff]
      · refine List.pairwise_append.2 ⟨hordered, List.pairwise_singleton _ _, fun t ht u hu => ?_⟩
        obtain rfl := List.mem_singleton.1 hu
        rw [hplace ht, List.idxOf_append, if_neg hnew]
        exact Nat.lt_add_left _ (List.idxOf_lt_length_of_mem ((h.mem_iff t).1 ht))

theorem interns_nil : Interns [] [] := ⟨List.nodup_nil, fun _ => Iff.rfl, List.Pairwise.nil⟩

/-- Leaving out what has occurred before is entering the texts one by one. -/
theorem enter_eraseDups (seen : List String) (s : String) :
    enter seen.eraseDups (.string s) = (seen ++ [s]).eraseDups := by
  rw [List.eraseDups_append]
  by_cases hs : s ∈ seen
  · simp [enter, text?, List.removeAll, hs]
  · simp [enter, text?, List.removeAll, hs, List.eraseDups_cons]

theorem interns_eraseDups (seen : List String) : Interns seen.eraseDups seen := by
  induction seen using List.reverseRecOn with
  | nil => exact interns_nil
  | append_singleton seen s ih =>
    rw [← enter_eraseDups]
    exact ih.enter (.string s)

/-! ## Writing in one pass -/

/-- Write operands one by one, each as soon as its text has been entered; and the table after the
last of them. -/
def writeEntering : List String → List Value → List UInt8 × List String
  | table, [] => ([], table)
  | table, v :: vs =>
    let table := enter table v
    let (bytes, final) := writeEntering table vs
    (writeOperand table v ++ bytes, final)

/-- Write instructions one by one. -/
def writeAllEntering : List String → List Instruction → List UInt8 × List String
  | table, [] => ([], table)
  | table, i :: is =>
    let operands := writable i.operands
    let (bytes, table) := writeEntering table operands
    let (rest, final) := writeAllEntering table is
    (number 2 i.op.code ++ number 1 operands.length ++ bytes ++ rest, final)

/-- The executable of an image, whose table of strings is made while its operands are written. -/
def encodeOnePass (image : Image) : List UInt8 :=
  let (code, table) := writeAllEntering [] image.instructions.toList
  writeHeader image ++ (number 4 image.instructions.size ++ code) ++ writeTable writeString table ++
    writeTable writeFunction image.functions.toList ++ writeTable writeName image.hostCalls.toList

theorem prefix_writeEntering (table : List String) (vs : List Value) :
    table <+: (writeEntering table vs).2 := by
  induction vs generalizing table with
  | nil => exact List.prefix_rfl
  | cons v vs ih => exact (prefix_enter table v).trans (ih _)

/-- A text keeps its position while the table grows. -/
theorem idxOf_of_extends {table' : List String} (h : table <+: table') (hs : s ∈ table) :
    table'.idxOf s = table.idxOf s := by
  obtain ⟨later, rfl⟩ := h
  exact List.idxOf_append_of_mem hs

/-- An operand is written in the same way with every table that its own has grown to. -/
theorem writeOperand_of_extends {table' : List String} (h : enter table v <+: table') :
    writeOperand (enter table v) v = writeOperand table' v := by
  cases v with
  | string s =>
    simp only [writeOperand, payload, idxOf_of_extends h (mem_enter table s)]
  | _ => rfl

/-- **Positions are stable**: operands written on the way are written as with the final table, and
with all that it may still grow to. -/
theorem fst_writeEntering {final : List String} {vs : List Value}
    (h : (writeEntering table vs).2 <+: final) :
    (writeEntering table vs).1 = vs.flatMap (writeOperand final) := by
  induction vs generalizing table with
  | nil => rfl
  | cons v vs ih =>
    have hentered : enter table v <+: final := (prefix_writeEntering _ vs).trans h
    simp only [writeEntering, List.flatMap_cons]
    rw [writeOperand_of_extends hentered, ih h]

/-- Operands that are written enter their texts, in order. -/
theorem Interns.writeEntering (h : Interns table seen) (vs : List Value) :
    Interns (writeEntering table vs).2 (seen ++ vs.filterMap text?) := by
  induction vs generalizing table seen with
  | nil =>
    rw [List.filterMap_nil, List.append_nil]
    exact h
  | cons v vs ih =>
    have hcons : (v :: vs).filterMap text? = (text? v).toList ++ vs.filterMap text? := by
      rw [List.filterMap_cons]
      cases text? v <;> rfl
    rw [hcons, ← List.append_assoc]
    exact ih (h.enter v)

/-- The texts of the operands of instructions, in the order in which they stand there. -/
def texts (is : List Instruction) : List String :=
  is.flatMap fun i => i.operands.filterMap text?

theorem Interns.writeAllEntering {is : List Instruction} (h : Interns table seen) :
    Interns (writeAllEntering table is).2 (seen ++ Executable.texts is) := by
  induction is generalizing table seen with
  | nil =>
    rw [Executable.texts, List.flatMap_nil, List.append_nil]
    exact h
  | cons i is ih =>
    have hinstruction := h.writeEntering (writable i.operands)
    rw [filterMap_text?_writable] at hinstruction
    rw [Executable.texts, List.flatMap_cons, ← List.append_assoc]
    exact ih hinstruction

theorem prefix_writeAllEntering (table : List String) (is : List Instruction) :
    table <+: (writeAllEntering table is).2 := by
  induction is generalizing table with
  | nil => exact List.prefix_rfl
  | cons i is ih => exact (prefix_writeEntering table (writable i.operands)).trans (ih _)

theorem fst_writeAllEntering {final : List String} {is : List Instruction}
    (h : (writeAllEntering table is).2 <+: final) :
    (writeAllEntering table is).1 = is.flatMap (writeInstruction final) := by
  induction is generalizing table with
  | nil => rfl
  | cons i is ih =>
    have hinstruction : (writeEntering table (writable i.operands)).2 <+: final :=
      (prefix_writeAllEntering _ is).trans h
    simp only [Executable.writeAllEntering, List.flatMap_cons, writeInstruction]
    rw [fst_writeEntering hinstruction, ih h]

/-- The table that is made on the way is the one that is made beforehand. -/
theorem snd_writeAllEntering (x : Image) :
    (writeAllEntering [] x.instructions.toList).2 = strings x :=
  interns_nil.writeAllEntering.unique (interns_eraseDups _)

theorem encode_eq_encodeOnePass (x : Image) : encode x = encodeOnePass x := by
  have htable := snd_writeAllEntering x
  have hgrown : (writeAllEntering [] x.instructions.toList).2 <+: strings x :=
    htable ▸ List.prefix_rfl
  simp only [encodeOnePass, fst_writeAllEntering hgrown, htable]
  rfl

/-! ## What the bytes say -/

theorem isNumber_number_mod (width n : Nat) :
    IsNumber width (number width n) (n % 256 ^ width) := by
  obtain ⟨field, hfield, hnumber⟩ := Reader.accepts_number.sound (Reader.reads_number width n [])
  rw [List.append_nil, List.append_nil] at hfield
  rwa [hfield]

theorem isNumber_number {width n : Nat} (h : n < 256 ^ width) :
    IsNumber width (number width n) n := by
  have hnumber := isNumber_number_mod width n
  rwa [Nat.mod_eq_of_lt h] at hnumber

/-- Entries that are written one after the other. -/
theorem isRun_flatMap {α β : Type} {P : List UInt8 → β → Prop} {write : α → List UInt8}
    {value : α → β} {ys : List α} (h : ∀ y ∈ ys, P (write y) (value y)) :
    IsRun P (ys.flatMap write) (ys.map value) := by
  induction ys with
  | nil => exact .nil
  | cons y ys ih =>
    exact .cons (h y List.mem_cons_self) (ih fun z hz => h z (List.mem_cons_of_mem _ hz))

theorem isTable_writeTable {α β : Type} {P : List UInt8 → β → Prop} {write : α → List UInt8}
    {value : α → β} {ys : List α} (hcount : ys.length < 2 ^ 32)
    (h : ∀ y ∈ ys, P (write y) (value y)) : IsTable P (writeTable write ys) (ys.map value) := by
  refine .mk ?_ (isRun_flatMap h)
  rw [List.length_map]
  exact isNumber_number hcount

/-- An operand is written with the position of its text. -/
theorem isOperand_writeOperand (hcount : table.length < 2 ^ 32)
    (hmem : ∀ s, v = .string s → s ∈ table) (htag : (Tag.of? v).isSome = true) :
    IsOperand table (writeOperand table v) (keptValue v) := by
  have hword (w : UInt32) : IsNumber 4 (number 4 w.toNat) w.toNat := isNumber_number w.toNat_lt
  cases v with
  | int n => exact .int (hword n.toUInt32)
  | float y => exact .float (hword y.bits)
  | string s =>
    have hlt := List.idxOf_lt_length_of_mem (hmem s rfl)
    refine .string (isNumber_number (Nat.lt_trans hlt hcount)) ?_
    rw [List.getElem?_eq_getElem hlt, List.getElem_idxOf]
  | stackIndex j => exact .stackIndex (hword j.toUInt32)
  | relStackIndex base offset => exact .relStackIndex (hword base.toUInt32) (hword offset.toUInt32)
  | instrIndex n => exact .instrIndex (isNumber_number_mod 4 n)
  | funcIndex n => exact .funcIndex (isNumber_number_mod 4 n)
  | hostCallIndex n => exact .hostCallIndex (isNumber_number_mod 4 n)
  | register r =>
    cases r
    exact .register (isNumber_number (by decide))
  | _ => cases htag

theorem isInstruction_writeInstruction {i : Instruction} (hi : i ∈ x.instructions)
    (hcount : (strings x).length < 2 ^ 32) (hoperands : (writable i.operands).length ≤ 255) :
    IsInstruction (strings x) (writeInstruction (strings x) i) (keptInstruction i) := by
  have hcode : i.op.code < 256 ^ 2 := by cases i.op <;> decide
  refine .mk (isNumber_number hcode) ?_ (isRun_flatMap fun v hv => ?_)
  · rw [List.length_map]
    exact isNumber_number (Nat.lt_succ_of_le hoperands)
  · obtain ⟨hv, htag⟩ := List.mem_filter.1 hv
    refine isOperand_writeOperand hcount (fun s hs => ?_) htag
    subst hs
    exact Reader.mem_strings hi hv

/-- **Each text is written once.** The table of strings of an executable holds the texts of the
string operands, each of them once, in the order in which they first occur in the instructions.
Behind the header stand the instructions, in which every operand with a text is written with the
position of its own text in that table, and then the table itself. So they do if the table is made
on the way, with the position of each operand settled before the rest of the table is known. -/
theorem strings_interned
    (hoperands : ∀ i ∈ x.instructions, (writable i.operands).length ≤ 255)
    (hinstructions : x.instructions.size < 2 ^ 32) (hstrings : (strings x).length < 2 ^ 32) :
    Interns (strings x) (texts x.instructions.toList) ∧
      (∃ code table,
        encode x = writeHeader x ++ code ++ table ++
          (writeTable writeFunction x.functions.toList ++ writeTable writeName x.hostCalls.toList) ∧
        IsTable (IsInstruction (strings x)) code (kept x).instructions.toList ∧
        IsTable (fun entry s => entry = writeString s) table (strings x)) ∧
      encode x = encodeOnePass x := by
  refine ⟨interns_eraseDups _, ⟨_, _, List.append_assoc .., ?_, ?_⟩, encode_eq_encodeOnePass x⟩
  · rw [kept, Array.toList_map]
    refine isTable_writeTable hinstructions fun i hi => ?_
    have hi := Array.mem_toList_iff.1 hi
    exact isInstruction_writeInstruction hi hstrings (hoperands i hi)
  · have htable : IsTable (fun entry s => entry = writeString s)
        (writeTable writeString (strings x)) ((strings x).map id) :=
      isTable_writeTable hstrings fun _ _ => rfl
    rwa [List.map_id] at htable

/-- An image whose texts come again, one of them within an instruction. -/
def refrain : Image where
  instructions := #[⟨.push, [.string "la"]⟩, ⟨.setChar, [.string "do", .null, .string "la"]⟩,
    ⟨.push, [.string "mi"]⟩, ⟨.push, [.string "do"]⟩]

theorem strings_interned_refrain :
    (∀ i ∈ refrain.instructions, (writable i.operands).length ≤ 255) ∧
      refrain.instructions.size < 2 ^ 32 ∧ strings refrain = ["la", "do", "mi"] ∧
      Interns ["la", "do", "mi"] ["la", "do", "la", "mi", "do"] ∧
      (∃ code table,
        encode refrain = writeHeader refrain ++ code ++ table ++
          (writeTable writeFunction [] ++ writeTable writeName []) ∧
        IsTable (IsInstruction ["la", "do", "mi"]) code
          [⟨.push, [.string "la"]⟩, ⟨.setChar, [.string "do", .string "la"]⟩,
            ⟨.push, [.string "mi"]⟩, ⟨.push, [.string "do"]⟩]) ∧
      encode refrain = encodeOnePass refrain := by
  have hoperands : ∀ i ∈ refrain.instructions, (writable i.operands).length ≤ 255 := by decide
  have hinstructions : refrain.instructions.size < 2 ^ 32 := by decide
  have htable : strings refrain = ["la", "do", "mi"] := by decide
  have hkept : (kept refrain).instructions.toList = [⟨.push, [.string "la"]⟩,
      ⟨.setChar, [.string "do", .string "la"]⟩, ⟨.push, [.string "mi"]⟩,
      ⟨.push, [.string "do"]⟩] := Array.toList_map
  obtain ⟨hinterns, ⟨code, table, hencode, hcode, -⟩, honePass⟩ :=
    strings_interned hoperands hinstructions (by rw [htable]; decide)
  rw [htable] at hinterns hcode
  rw [hkept] at hcode
  exact ⟨hoperands, hinstructions, htable, hinterns, ⟨code, table, hencode, hcode⟩, honePass⟩

end ScriptMachine.Executable
