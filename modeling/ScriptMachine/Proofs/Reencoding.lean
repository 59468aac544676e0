import Mathlib.Data.List.Perm.Subperm
import ScriptMachine.Proofs.Interning

/-!
# Writing what was read

An image that was read from an executable has tables that fit an executable, and indices that its
tables admit. So it is written without loss, except that its names may have become longer by being
read: each byte of a name that is no UTF-8 is read as a character of three bytes, and a name has
room for 255 (`decode_encode_of_decode`). A name that has been cut once is not cut again to
something else, so writing and reading a second time changes nothing (`decode_encode_stable`).
-/

namespace ScriptMachine.Executable

open Grammar

variable {x : Image}

/-! ## Tables -/

/-- Every entry of a run has a field of its own. -/
theorem Grammar.IsRun.exists_field {α : Type} {P : List UInt8 → α → Prop} {field : List UInt8}
    {xs : List α} (h : IsRun P field xs) {y : α} (hy : y ∈ xs) : ∃ entry, P entry y := by
  induction h with
  | nil => cases hy
  | cons hx _ ih =>
    rcases List.mem_cons.1 hy with rfl | hy
    · exact ⟨_, hx⟩
    · exact ih hy

theorem Grammar.IsTable.length_lt {α : Type} {P : List UInt8 → α → Prop} {field : List UInt8}
    {xs : List α} (h : IsTable P field xs) : xs.length < 2 ^ 32 := by
  obtain ⟨hcount, -⟩ := h
  exact Reader.lt_of_isNumber hcount

theorem Grammar.IsTable.exists_field {α : Type} {P : List UInt8 → α → Prop} {field : List UInt8}
    {xs : List α} (h : IsTable P field xs) {y : α} (hy : y ∈ xs) : ∃ entry, P entry y := by
  obtain ⟨-, hrun⟩ := h
  exact hrun.exists_field hy

/-- The text of a string operand stands in the table of strings. -/
theorem Grammar.IsInstruction.mem_strings {texts : List String} {field : List UInt8}
    {i : Instruction} (h : IsInstruction texts field i) {s : String} (hs : .string s ∈ i.operands) :
    s ∈ texts := by
  obtain ⟨-, -, hrun⟩ := h
  obtain ⟨_, hoperand⟩ := hrun.exists_field hs
  cases hoperand with
  | string _ hget => exact List.mem_of_getElem? hget

/-- The table that an image is written with is no longer than the one it was read from. -/
theorem length_strings_le {texts : List String}
    (h : ∀ i ∈ x.instructions, ∀ s, .string s ∈ i.operands → s ∈ texts) :
    (strings x).length ≤ texts.length := by
  refine (List.subperm_of_subset (interns_eraseDups _).nodup fun s hs => ?_).length_le
  obtain ⟨i, hi, hs⟩ := List.mem_flatMap.1 (List.mem_eraseDups.1 hs)
  obtain ⟨v, hv, hs⟩ := List.mem_filterMap.1 hs
  cases v with
  | string t =>
    cases hs
    exact h i (Array.mem_toList_iff.1 hi) s hv
  | _ => cases hs

/-! ## Images that were read -/

/-- The tables of an image that was read have room in an executable. -/
theorem storable_of_decode {bytes : List UInt8} (h : decode bytes = .ok x)
    (hstring : ∀ i ∈ x.instructions, ∀ s, .string s ∈ i.operands →
      (Text.utf8 s).length < 2 ^ 32) : Storable x := by
  obtain ⟨⟨rest, hread⟩, hvalid⟩ := decode_eq_ok.1 h
  obtain ⟨field, -, himage⟩ := Reader.sound_image hread
  obtain ⟨-, -, -, -, hinstructions, htexts, hfunctions, hhostCalls⟩ := himage
  refine ⟨fun i hi => ?_, hstring, hinstructions.length_lt, ?_, hfunctions.length_lt,
    hhostCalls.length_lt⟩
  · exact Nat.le_trans (List.length_filter_le _ _) (length_operands_le hvalid hi)
  · refine Nat.lt_of_le_of_lt (length_strings_le fun i hi s hs => ?_) htexts.length_lt
    obtain ⟨_, hinstruction⟩ := hinstructions.exists_field (Array.mem_toList_iff.2 hi)
    exact hinstruction.mem_strings hs

/-- Of an image that was read, only names are cut. -/
theorem kept_of_decode {bytes : List UInt8} (h : decode bytes = .ok x) (hx : Storable x) :
    kept x = keptNames x := by
  obtain ⟨⟨rest, hread⟩, hvalid⟩ := decode_eq_ok.1 h
  exact kept_eq_keptNames (Reader.tagged_image hread) (fun i hi n => hx.index_lt hvalid hi)
    (fun f hf => Nat.lt_trans (hvalid.main f hf) hx.functionCount)
    fun f hf => Nat.lt_trans (hvalid.entry f hf) hx.instructionCount

/-- Names do not matter for whether an image is valid. -/
theorem valid_keptNames (h : x.Valid) : (keptNames x).Valid where
  main f hf := by
    rw [keptNames, Array.size_map]
    exact h.main f hf
  entry f hf := by
    obtain ⟨g, hg, rfl⟩ := Array.mem_map.1 hf
    exact h.entry g hg
  count := h.count
  operand i hi v hv := by
    have hadmits : (keptNames x).admits v = x.admits v := by
      cases v with
      | funcIndex n => simp only [Image.admits, keptNames, Array.size_map]
      | hostCallIndex n => simp only [Image.admits, keptNames, Array.size_map]
      | _ => rfl
    rw [hadmits]
    exact h.operand i hi v hv
  target := h.target

/-- An image that was read is read back from its executable with its names cut. -/
theorem decode_encode_keptNames {bytes : List UInt8} (h : decode bytes = .ok x)
    (hx : Storable x) : decode (encode x) = .ok (keptNames x) := by
  have hvalid := valid_keptNames (decode_eq_ok.1 h).2
  rw [decode_encode_kept hx, kept_of_decode h hx, Image.validate_eq_ok.2 hvalid]
  rfl

/-- **What was read loses nothing but long names.** An image that was read from bytes is read back
from its executable with every name cut behind 255 bytes. If no name is longer, it is read back as
it was. -/
theorem decode_encode_of_decode {bytes : List UInt8} (h : decode bytes = .ok x)
    (hstring : ∀ i ∈ x.instructions, ∀ s, .string s ∈ i.operands →
      (Text.utf8 s).length < 2 ^ 32) :
    decode (encode x) = .ok (keptNames x) ∧
      ((∀ f ∈ x.functions, (Text.utf8 f.name).length ≤ 255) →
        (∀ name ∈ x.hostCalls, (Text.utf8 name).length ≤ 255) → decode (encode x) = .ok x) := by
  have hread := decode_encode_keptNames h (storable_of_decode h hstring)
  refine ⟨hread, fun hfunctions hhostCalls => ?_⟩
  rw [hread, keptNames_eq_self (fun f hf => keptName_of_length_le (hfunctions f hf))
    fun name hname => keptName_of_length_le (hhostCalls name hname)]

/-! ### Names that are no UTF-8 -/

theorem isRun_singleton {α : Type} {P : List UInt8 → α → Prop} {entry : List UInt8} {y : α}
    (h : P entry y) : IsRun P entry [y] := by
  have hrun := IsRun.cons h .nil
  rwa [List.append_nil] at hrun

/-- Bytes that start no sequence are each read as a replacement character. -/
theorem ofUtf8_replicate (n : Nat) :
    Text.ofUtf8 (List.replicate n 0xff) = String.ofList (List.replicate n '\uFFFD') := by
  have hread (d : List Char) : (List.replicate n (0xff : UInt8)).foldl Text.Utf8.Decoder.push
      ⟨d, none⟩ = ⟨List.replicate n '\uFFFD' ++ d, none⟩ := by
    induction n generalizing d with
    | zero => rfl
    | succ n ih =>
      have hpush : Text.Utf8.Decoder.push ⟨d, none⟩ 0xff = ⟨'\uFFFD' :: d, none⟩ := rfl
      rw [List.replicate_succ, List.foldl_cons, hpush, ih, List.replicate_succ', List.append_assoc,
        List.singleton_append]
  rw [Text.ofUtf8, hread, List.append_nil]
  simp [Text.Utf8.Decoder.finish]

/-- An executable with a string and a name that are no UTF-8. The name has `n` bytes, the table of
strings has an entry that is not used, and a byte follows the last table. -/
def stray (n : Nat) : List UInt8 :=
  magic ++ [0, 8] ++ number 4 16 ++ number 4 0 ++ (0 :: number 4 9) ++ (1 :: number 4 5) ++
    (number 4 1 ++ (number 2 Opcode.push.code ++ number 1 1 ++ (2 :: number 4 1))) ++
    (number 4 2 ++ ((number 4 1 ++ [0x61]) ++ (number 4 1 ++ [0xe9]))) ++ (number 4 0 ++ []) ++
    (number 4 1 ++ (number 1 n ++ List.replicate n 0xff)) ++ [0]

/-- The image that is read from it. -/
def strayImage (n : Nat) : Image where
  stackSize := 16
  priority := .low
  instructions := #[⟨.push, [.string "\uFFFD"]⟩]
  hostCalls := #[String.ofList (List.replicate n '\uFFFD')]

theorem decode_stray {n : Nat} (hn : n < 256) : decode (stray n) = .ok (strayImage n) := by
  have hnone : IsNumber 4 (number 4 0) 0 := isNumber_number (by decide)
  have hone : IsNumber 4 (number 4 1) 1 := isNumber_number (by decide)
  have hstackSize : IsNumber 4 (number 4 16) 16 := isNumber_number (by decide)
  have hinstruction : IsInstruction ["a", "\uFFFD"]
      (number 2 Opcode.push.code ++ number 1 1 ++ (2 :: number 4 1))
      ⟨.push, [.string "\uFFFD"]⟩ :=
    .mk (isNumber_number (by decide)) (isNumber_number (by decide))
      (isRun_singleton (.string hone rfl))
  have hstrings : IsTable (IsText 4)
      (number 4 2 ++ ((number 4 1 ++ [0x61]) ++ (number 4 1 ++ [0xe9]))) ["a", "\uFFFD"] :=
    .mk (isNumber_number (by decide)) (.cons (.mk hone) (isRun_singleton (.mk hone)))
  have hname : IsText 1 (number 1 n ++ List.replicate n 0xff)
      (String.ofList (List.replicate n '\uFFFD')) := by
    rw [← ofUtf8_replicate]
    refine .mk ?_
    rw [List.length_replicate]
    exact isNumber_number hn
  have himage : IsImage _ (strayImage n) :=
    .mk hstackSize hnone (.absent (length_number 4 9)) (.low (length_number 4 5))
      (.mk hone (isRun_singleton hinstruction)) hstrings (.mk hnone .nil)
      (.mk hone (isRun_singleton hname))
  have hvalid : (strayImage n).validate = .ok () := rfl
  exact decode_eq_ok.2 ⟨⟨[0], Reader.complete_image himage [0]⟩, Image.validate_eq_ok.1 hvalid⟩

theorem length_string_stray (n : Nat) : ∀ i ∈ (strayImage n).instructions, ∀ s,
    .string s ∈ i.operands → (Text.utf8 s).length < 2 ^ 32 := by
  intro i hi s hs
  obtain rfl : i = ⟨.push, [.string "\uFFFD"]⟩ := by simpa [strayImage] using hi
  obtain rfl : s = "\uFFFD" := by simpa using hs
  decide

theorem length_name_stray (n : Nat) :
    ∀ name ∈ (strayImage n).hostCalls, (Text.utf8 name).length = n * 3 := by
  intro name hname
  obtain rfl : name = String.ofList (List.replicate n '\uFFFD') := by
    simpa only [strayImage, List.mem_toArray, List.mem_singleton] using hname
  have hwidth : (String.utf8EncodeChar '\uFFFD').length = 3 := by decide
  rw [Text.utf8, String.toList_ofList, List.length_flatMap, List.map_replicate,
    List.sum_replicate_nat, hwidth]

theorem decode_encode_of_decode_stray :
    decode (stray 85) = .ok (strayImage 85) ∧
      decode (encode (strayImage 85)) = .ok (strayImage 85) := by
  have hread : decode (stray 85) = .ok (strayImage 85) := decode_stray (by decide)
  refine ⟨hread, (decode_encode_of_decode hread (length_string_stray 85)).2 ?_ ?_⟩
  · intro f hf
    simp [strayImage] at hf
  · intro name hname
    rw [length_name_stray 85 name hname]

/-- A name of 86 bytes is read as one of 258, of which 255 are written. -/
theorem decode_encode_stray_ne :
    decode (stray 86) = .ok (strayImage 86) ∧
      (∀ i ∈ (strayImage 86).instructions, ∀ s, .string s ∈ i.operands →
        (Text.utf8 s).length < 2 ^ 32) ∧
      decode (encode (strayImage 86)) = .ok (strayImage 85) ∧ strayImage 86 ≠ strayImage 85 := by
  have hread : decode (stray 86) = .ok (strayImage 86) := decode_stray (by decide)
  have hclip : Text.clip 255 (List.replicate 86 '\uFFFD') = List.replicate 85 '\uFFFD' := by
    decide +kernel
  have hname : keptName (String.ofList (List.replicate 86 '\uFFFD')) =
      String.ofList (List.replicate 85 '\uFFFD') := by
    rw [keptName_eq, String.toList_ofList, hclip]
  have hkept : keptNames (strayImage 86) = strayImage 85 := by
    simp only [keptNames, strayImage, List.map_toArray, List.map_cons, List.map_nil, hname]
  have hagain := decode_encode_keptNames hread (storable_of_decode hread (length_string_stray 86))
  rw [hkept] at hagain
  refine ⟨hread, length_string_stray 86, hagain, fun heq => ?_⟩
  have hmem : String.ofList (List.replicate 86 '\uFFFD') ∈ (strayImage 86).hostCalls :=
    Array.mem_singleton_self _
  have hlong := length_name_stray 86 _ hmem
  have hshort := length_name_stray 85 _ (heq ▸ hmem)
  omega

/-- **Writing and reading settles an image at once.** Whatever is lost when an image is written and
read, nothing more is lost the second time. -/
theorem decode_encode_stable {y : Image} (hx : Storable x) (h : decode (encode x) = .ok y) :
    decode (encode y) = .ok y := by
  have hread := decode_encode_kept hx
  cases hvalid : (kept x).validate with
  | error e =>
    rw [hread, hvalid] at h
    cases h
  | ok u =>
    rw [hread, hvalid] at h
    cases h
    rw [decode_encode_kept hx.kept, kept_kept, hvalid]
    rfl

/-- An image that loses something in every way: an operand, the high bits of its indices, and half
of the last character of its names. -/
def overfull : Image where
  stackSize := 16
  main := some (2 ^ 32)
  instructions := #[⟨.push, [.null, .int 7]⟩, ⟨.jmp, [.instrIndex (2 ^ 32)]⟩]
  functions := #[⟨String.ofList (List.replicate 254 'a' ++ ['é']), 2 ^ 32 + 1, 0, 0⟩]
  hostCalls := #[String.ofList (List.replicate 254 'a' ++ ['é'])]

theorem storable_overfull : Storable overfull where
  operandCount := by decide
  string i hi s hs := by
    simp only [overfull, List.mem_toArray, List.mem_cons, List.not_mem_nil, or_false] at hi
    rcases hi with rfl | rfl <;> simp at hs
  instructionCount := by decide
  stringCount := by decide
  functionCount := by decide
  hostCallCount := by decide

/-- The names are longer after the first reading, and stay so. -/
theorem decode_encode_stable_overfull :
    Storable overfull ∧ ∃ y, decode (encode overfull) = .ok y ∧
      y.hostCalls.map (fun name => (Text.utf8 name).length) = #[257] ∧ y ≠ overfull ∧
      decode (encode y) = .ok y := by
  have hread : decode (encode overfull) = .ok (kept overfull) := by
    have hvalid : (kept overfull).validate = .ok () := by decide +kernel
    rw [decode_encode_kept storable_overfull, hvalid]
    rfl
  have hlength : (kept overfull).hostCalls.map (fun name => (Text.utf8 name).length) = #[257] := by
    simp only [kept, overfull, keptName_eq, Text.utf8, List.map_toArray, List.map_cons,
      List.map_nil, String.toList_ofList]
    decide +kernel
  refine ⟨storable_overfull, kept overfull, hread, hlength, fun heq => ?_,
    decode_encode_stable storable_overfull hread⟩
  have hmain : (kept overfull).main ≠ overfull.main := by decide
  exact hmain (congrArg Image.main heq)

end ScriptMachine.Executable
