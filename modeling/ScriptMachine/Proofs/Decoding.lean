import Mathlib.Data.List.Basic
import ScriptMachine.Proofs.Grammar
import ScriptMachine.Proofs.RoundTrip

/-!
# The decoder and the grammar

The reader of executables accepts what the grammar describes, and nothing else. `Reader.Accepts`
says so of a reader and a form: what the reader takes off the front is a field of the form
(`sound`), and it takes every field of the form off the front, whatever follows (`complete`). The
two halves are proved together for each field. Operands and instructions are apart, because the
reader meets them before the strings that their forms need.

A reader behind the version fails with a malformation only (`Reader.Malforms`), so the first six
bytes decide which other error there is. `decode_grammar` puts both together.
-/

namespace ScriptMachine.Executable

namespace Grammar.IsRun

variable {α β : Type} {P : List UInt8 → α → Prop} {Q : List UInt8 → β → Prop} {R : α → β → Prop}
  {field : List UInt8} {xs : List α} {ys : List β}

/-- A run of other entries, each made of the one in its place. -/
theorem map (h : IsRun P field xs) (hxs : List.Forall₂ R xs ys)
    (hentry : ∀ field x y, P field x → R x y → Q field y) : IsRun Q field ys := by
  induction h generalizing ys with
  | nil =>
    cases hxs
    exact .nil
  | cons hx _ ih =>
    cases hxs with
    | cons hxy hxs => exact .cons (hentry _ _ _ hx hxy) (ih hxs)

/-- A run whose entries are each made of another one. -/
theorem exists_made (h : IsRun Q field ys)
    (hentry : ∀ field y, Q field y → ∃ x, P field x ∧ R x y) :
    ∃ xs, IsRun P field xs ∧ List.Forall₂ R xs ys := by
  induction h with
  | nil => exact ⟨[], .nil, .nil⟩
  | cons hy _ ih =>
    obtain ⟨x, hx, hxy⟩ := hentry _ _ hy
    obtain ⟨xs, hxs, hall⟩ := ih
    exact ⟨x :: xs, .cons hx hxs, .cons hxy hall⟩

end Grammar.IsRun

open Grammar

namespace Reader

variable {α β : Type} {r : Reader α} {s s' field : List UInt8} {width ip : Nat}
  {strings : Array String}

/-- A reader takes off the front exactly the fields of a form. -/
structure Accepts (r : Reader α) (IsField : List UInt8 → α → Prop) : Prop where
  sound : ∀ {s s' : List UInt8} {x : α}, r.run s = .ok (x, s') →
    ∃ field, s = field ++ s' ∧ IsField field x
  complete : ∀ {field : List UInt8} {x : α}, IsField field x → Reads r field x

/-! ## Numbers and texts -/

theorem accepts_byte : Accepts byte fun field b => field = [b] where
  sound {s s' b} h := by
    obtain ⟨bytes, s₁, hget, h⟩ := bind_run_eq_ok.1 h
    cases hget
    cases s with
    | nil => exact absurd h not_malformed
    | cons c rest =>
      cases h
      exact ⟨[b], rfl, rfl⟩
  complete {field b} h := by
    subst h
    exact reads_byte b

theorem accepts_number : Accepts (number width) (IsNumber width) where
  sound {s s' n} h := by
    induction width generalizing s n with
    | zero =>
      obtain ⟨rfl, rfl⟩ := pure_run_eq_ok.1 h
      exact ⟨[], rfl, rfl, rfl⟩
    | succ width ih =>
      obtain ⟨low, s₁, hlow, h⟩ := bind_run_eq_ok.1 h
      obtain ⟨high, s₂, hhigh, h⟩ := bind_run_eq_ok.1 h
      obtain ⟨rfl, rfl⟩ := pure_run_eq_ok.1 h
      obtain ⟨_, rfl, rfl⟩ := accepts_byte.sound hlow
      obtain ⟨field, rfl, hlength, rfl⟩ := ih hhigh
      exact ⟨low :: field, rfl, congrArg (· + 1) hlength, rfl⟩
  complete {field n} h := by
    induction width generalizing field n with
    | zero =>
      obtain ⟨hlength, rfl⟩ := h
      obtain rfl := List.length_eq_zero_iff.1 hlength
      exact .pure 0
    | succ width ih =>
      obtain ⟨hlength, rfl⟩ := h
      obtain ⟨low, field, rfl⟩ := List.exists_cons_of_length_eq_add_one hlength
      have hfield : IsNumber width field (value field) := ⟨Nat.succ.inj hlength, rfl⟩
      exact (reads_byte low).bind ((ih hfield).map rfl)

/-- What the bytes of a number have room for. -/
theorem lt_of_isNumber {n : Nat} (h : IsNumber width field n) : n < 256 ^ width := by
  obtain ⟨rfl, rfl⟩ := h
  induction field with
  | nil => exact Nat.one_pos
  | cons low field ih =>
    have hlow := low.toNat_lt
    rw [value, List.length_cons, Nat.pow_succ]
    omega

theorem accepts_word : Accepts word fun field w => IsNumber 4 field w.toNat where
  sound {s s' w} h := by
    obtain ⟨n, s₁, hn, h⟩ := bind_run_eq_ok.1 h
    obtain ⟨rfl, rfl⟩ := pure_run_eq_ok.1 h
    obtain ⟨field, rfl, hfield⟩ := accepts_number.sound hn
    refine ⟨field, rfl, ?_⟩
    rwa [UInt32.toNat_ofNat_of_lt' (lt_of_isNumber hfield)]
  complete h := (accepts_number.complete h).map UInt32.ofNat_toNat

theorem accepts_int : Accepts int IsInteger where
  sound {s s' i} h := by
    obtain ⟨w, s₁, hw, h⟩ := bind_run_eq_ok.1 h
    obtain ⟨rfl, rfl⟩ := pure_run_eq_ok.1 h
    exact accepts_word.sound hw
  complete {field i} h := (accepts_word.complete (x := i.toUInt32) h).map rfl

theorem accepts_bytes {n : Nat} :
    Accepts (bytes n) fun field run => field = run ∧ run.length = n where
  sound {s s' run} h := by
    obtain ⟨rest, s₁, hget, h⟩ := bind_run_eq_ok.1 h
    cases hget
    by_cases hlength : (s.take n).length = n
    · simp only [hlength, if_true] at h
      cases h
      exact ⟨s.take n, (List.take_append_drop n s).symm, rfl, hlength⟩
    · simp only [hlength, if_false] at h
      exact absurd h not_malformed
  complete {field run} h := by
    obtain ⟨rfl, rfl⟩ := h
    exact reads_bytes field

theorem accepts_text : Accepts (text width) (IsText width) where
  sound {s s' t} h := by
    obtain ⟨n, s₁, hn, h⟩ := bind_run_eq_ok.1 h
    obtain ⟨run, s₂, hrun, h⟩ := bind_run_eq_ok.1 h
    obtain ⟨rfl, rfl⟩ := pure_run_eq_ok.1 h
    obtain ⟨length, rfl, hlength⟩ := accepts_number.sound hn
    obtain ⟨run, rfl, rfl, rfl⟩ := accepts_bytes.sound hrun
    exact ⟨length ++ run, (List.append_assoc ..).symm, .mk hlength⟩
  complete {field t} h := by
    obtain @⟨length, run, hlength⟩ := h
    exact (accepts_number.complete hlength).bind ((reads_bytes run).map rfl)

/-! ## Runs and tables -/

theorem sound_fields {P : List UInt8 → α → Prop} {read : Nat → Reader α} {n : Nat}
    {done xs : Array α}
    (hread : ∀ n s x s', (read n).run s = .ok (x, s') → ∃ field, s = field ++ s' ∧ P field x)
    (h : (fields read n done).run s = .ok (xs, s')) :
    ∃ field ys, s = field ++ s' ∧ IsRun P field ys ∧ ys.length = n ∧
      xs = done ++ ys.toArray := by
  induction n generalizing s done with
  | zero =>
    obtain ⟨rfl, rfl⟩ := pure_run_eq_ok.1 h
    exact ⟨[], [], rfl, .nil, rfl, Array.append_empty.symm⟩
  | succ n ih =>
    obtain ⟨x, s₁, hx, hxs⟩ := bind_run_eq_ok.1 h
    obtain ⟨entry, rfl, hentry⟩ := hread _ _ _ _ hx
    obtain ⟨rest, ys, rfl, hrest, hlength, rfl⟩ := ih hxs
    exact ⟨entry ++ rest, x :: ys, (List.append_assoc ..).symm, .cons hentry hrest,
      congrArg (· + 1) hlength, by simp⟩

theorem complete_fields {P : List UInt8 → α → Prop} {read : Nat → Reader α} {ys : List α}
    (hread : ∀ n field x, P field x → Reads (read n) field x) (h : IsRun P field ys)
    (done : Array α) : Reads (fields read ys.length done) field (done ++ ys.toArray) := by
  induction h generalizing done with
  | nil =>
    rw [Array.append_empty]
    exact .pure done
  | @cons entry rest x ys hx _ ih =>
    have hrest := ih (done.push x)
    rw [show done.push x ++ ys.toArray = done ++ (x :: ys).toArray by simp] at hrest
    exact (hread _ _ _ hx).bind hrest

theorem sound_table {P : List UInt8 → α → Prop} {read : Nat → Reader α} {xs : Array α}
    (hread : ∀ n s x s', (read n).run s = .ok (x, s') → ∃ field, s = field ++ s' ∧ P field x)
    (h : (table read).run s = .ok (xs, s')) :
    ∃ field, s = field ++ s' ∧ IsTable P field xs.toList := by
  obtain ⟨n, s₁, hn, hxs⟩ := bind_run_eq_ok.1 h
  obtain ⟨count, rfl, hcount⟩ := accepts_number.sound hn
  obtain ⟨entries, ys, rfl, hentries, rfl, rfl⟩ := sound_fields hread hxs
  rw [Array.empty_append]
  exact ⟨count ++ entries, (List.append_assoc ..).symm, .mk hcount hentries⟩

theorem complete_table {P : List UInt8 → α → Prop} {read : Nat → Reader α} {ys : List α}
    (hread : ∀ n field x, P field x → Reads (read n) field x) (h : IsTable P field ys) :
    Reads (table read) field ys.toArray := by
  obtain ⟨hcount, hentries⟩ := h
  have hfields := complete_fields hread hentries #[]
  rw [Array.empty_append] at hfields
  exact (accepts_number.complete hcount).bind hfields

/-- A table whose entries are read as they are. -/
theorem accepts_table {P : List UInt8 → α → Prop} (h : Accepts r P) :
    Accepts (table fun _ => r) fun field xs => IsTable P field xs.toList where
  sound := sound_table fun _ _ _ _ => h.sound
  complete {field xs} hxs := by
    have htable : Reads (table fun _ => r) field xs.toList.toArray :=
      complete_table (fun _ _ _ => h.complete) hxs
    rwa [Array.toArray_toList] at htable

/-! ## Operands and instructions -/

/-- What a raw operand becomes, once the strings are known. -/
def RawOperand.Resolves (strings : Array String) : RawOperand → Value → Prop
  | .value v, w => v = w
  | .string i, w => ∃ s, strings[i]? = some s ∧ w = .string s

theorem resolve_eq_ok {o : RawOperand} {v : Value} :
    resolve strings ip o = .ok v ↔ o.Resolves strings v := by
  cases o with
  | value w => exact ⟨Except.ok.inj, congrArg Except.ok⟩
  | string i =>
    simp only [resolve, RawOperand.Resolves]
    cases strings[i]? with
    | none => simp
    | some s => simp [eq_comm]

/-- A tag is read off its byte. -/
theorem code_of_ofCode? {code : UInt8} {tag : Tag} (h : Tag.ofCode? code = some tag) :
    code = tag.code := by
  unfold Tag.ofCode? at h
  split at h <;> cases h <;> rfl

/-- An operand that is known from its payload alone. -/
theorem sound_payload {IsPayload : List UInt8 → α → Prop} {f : α → Value} {code : UInt8}
    {o : RawOperand} (hr : Accepts r IsPayload)
    (hoperand : ∀ strings p x, IsPayload p x → IsOperand strings (code :: p) (f x))
    (h : (r >>= fun x => pure (.value (f x))).run s = .ok (o, s')) :
    ∃ p, s = p ++ s' ∧
      ∀ (strings : Array String) v, o.Resolves strings v →
        IsOperand strings.toList (code :: p) v := by
  obtain ⟨x, s₁, hx, hvalue⟩ := bind_run_eq_ok.1 h
  obtain ⟨rfl, rfl⟩ := pure_run_eq_ok.1 hvalue
  obtain ⟨p, rfl, hp⟩ := hr.sound hx
  refine ⟨p, rfl, ?_⟩
  rintro strings _ rfl
  exact hoperand _ _ _ hp

theorem sound_operand {o : RawOperand} (h : (operand ip).run s = .ok (o, s')) :
    ∃ field, s = field ++ s' ∧
      ∀ (strings : Array String) v, o.Resolves strings v →
        IsOperand strings.toList field v := by
  obtain ⟨code, s₁, hbyte, hpayload⟩ := bind_run_eq_ok.1 h
  obtain ⟨_, rfl, rfl⟩ := accepts_byte.sound hbyte
  suffices hp : ∃ p, s₁ = p ++ s' ∧ ∀ (strings : Array String) v, o.Resolves strings v →
      IsOperand strings.toList (code :: p) v by
    obtain ⟨p, rfl, hp⟩ := hp
    exact ⟨code :: p, rfl, hp⟩
  cases htag : Tag.ofCode? code with
  | none =>
    simp only [htag] at hpayload
    exact absurd hpayload not_malformed
  | some tag =>
    simp only [htag] at hpayload
    obtain rfl := code_of_ofCode? htag
    cases tag with
    | int => exact sound_payload accepts_int (fun _ _ _ hp => .int hp) hpayload
    | float =>
      exact sound_payload (f := fun w => .float ⟨w⟩) accepts_word (fun _ _ _ hp => .float hp)
        hpayload
    | stackIndex => exact sound_payload accepts_int (fun _ _ _ hp => .stackIndex hp) hpayload
    | instrIndex => exact sound_payload accepts_number (fun _ _ _ hp => .instrIndex hp) hpayload
    | funcIndex => exact sound_payload accepts_number (fun _ _ _ hp => .funcIndex hp) hpayload
    | hostCallIndex =>
      exact sound_payload accepts_number (fun _ _ _ hp => .hostCallIndex hp) hpayload
    | string =>
      obtain ⟨n, s₂, hn, hvalue⟩ := bind_run_eq_ok.1 hpayload
      obtain ⟨rfl, rfl⟩ := pure_run_eq_ok.1 hvalue
      obtain ⟨p, rfl, hp⟩ := accepts_number.sound hn
      refine ⟨p, rfl, ?_⟩
      rintro strings _ ⟨t, ht, rfl⟩
      rw [← Array.getElem?_toList] at ht
      exact .string hp ht
    | relStackIndex =>
      obtain ⟨base, s₂, hbase, hrest⟩ := bind_run_eq_ok.1 hpayload
      obtain ⟨p, rfl, hp⟩ := accepts_int.sound hbase
      obtain ⟨offset, s₃, hoffset, hvalue⟩ := bind_run_eq_ok.1 hrest
      obtain ⟨q, rfl, hq⟩ := accepts_int.sound hoffset
      obtain ⟨rfl, rfl⟩ := pure_run_eq_ok.1 hvalue
      refine ⟨p ++ q, (List.append_assoc ..).symm, ?_⟩
      rintro strings _ rfl
      exact .relStackIndex hp hq
    | register =>
      obtain ⟨n, s₂, hn, hvalue⟩ := bind_run_eq_ok.1 hpayload
      obtain ⟨p, rfl, hp⟩ := accepts_number.sound hn
      refine ⟨p, ?_⟩
      split at hvalue
      · rename_i hregister
        obtain ⟨rfl, rfl⟩ := pure_run_eq_ok.1 hvalue
        unfold register? at hregister
        split at hregister <;> cases hregister
        refine ⟨rfl, ?_⟩
        rintro strings _ rfl
        exact .register hp
      · exact absurd hvalue not_malformed

theorem complete_operand {v : Value} (h : IsOperand strings.toList field v) :
    ∃ o : RawOperand, o.Resolves strings v ∧ ∀ ip, Reads (operand ip) field o := by
  cases h with
  | int hp =>
    exact ⟨.value _, rfl, fun _ => (reads_byte 0).bind ((accepts_int.complete hp).map rfl)⟩
  | @float p x hp =>
    have hword := accepts_word.complete (x := x.bits) hp
    exact ⟨.value _, rfl, fun _ => (reads_byte 1).bind (hword.map rfl)⟩
  | string hp hs =>
    rw [Array.getElem?_toList] at hs
    exact ⟨.string _, ⟨_, hs, rfl⟩,
      fun _ => (reads_byte 2).bind ((accepts_number.complete hp).map rfl)⟩
  | stackIndex hp =>
    exact ⟨.value _, rfl, fun _ => (reads_byte 3).bind ((accepts_int.complete hp).map rfl)⟩
  | relStackIndex hp hq =>
    exact ⟨.value _, rfl, fun _ => (reads_byte 4).bind <|
      (accepts_int.complete hp).bind ((accepts_int.complete hq).map rfl)⟩
  | instrIndex hp =>
    exact ⟨.value _, rfl, fun _ => (reads_byte 5).bind ((accepts_number.complete hp).map rfl)⟩
  | funcIndex hp =>
    exact ⟨.value _, rfl, fun _ => (reads_byte 6).bind ((accepts_number.complete hp).map rfl)⟩
  | hostCallIndex hp =>
    exact ⟨.value _, rfl, fun _ => (reads_byte 7).bind ((accepts_number.complete hp).map rfl)⟩
  | register hp =>
    refine ⟨.value _, rfl, fun _ => (reads_byte 8).bind fun rest => ?_⟩
    exact bind_run_eq_ok.2 ⟨0, rest, accepts_number.complete hp rest, rfl⟩

/-- A raw instruction becomes one whose operands are what its raw operands become. -/
def ResolvesTo (strings : Array String) (raw : Opcode × Array RawOperand) (i : Instruction) :
    Prop :=
  i.op = raw.1 ∧ List.Forall₂ (fun o v => o.Resolves strings v) raw.2.toList i.operands

theorem resolveAll_eq_ok_iff {raw : Array (Opcode × Array RawOperand)}
    {instructions : Array Instruction} :
    resolveAll strings raw = .ok instructions ↔
      List.Forall₂ (ResolvesTo strings) raw.toList instructions.toList := by
  have hsnd : (raw.toList.mapIdx fun ip r => (ip, r)).map Prod.snd = raw.toList := by
    rw [List.mapIdx_eq_zipIdx_map, List.map_map]
    exact List.zipIdx_map_fst 0 raw.toList
  have hall := @List.forall₂_map_left_iff _ _ _ (ResolvesTo strings) Prod.snd
    (raw.toList.mapIdx fun ip r => (ip, r)) instructions.toList
  rw [hsnd] at hall
  rw [hall, resolveAll_eq_ok]
  simp only [resolve_eq_ok]
  rfl

theorem sound_instruction {raw : Opcode × Array RawOperand}
    (h : (instruction ip).run s = .ok (raw, s')) :
    ∃ field, s = field ++ s' ∧ ∀ (strings : Array String) i, ResolvesTo strings raw i →
      IsInstruction strings.toList field i := by
  obtain ⟨n, s₁, hn, hrest⟩ := bind_run_eq_ok.1 h
  obtain ⟨code, rfl, hcode⟩ := accepts_number.sound hn
  split at hrest
  · exact absurd hrest not_malformed
  · rename_i op hop
    obtain ⟨count, s₂, hcount, hrest⟩ := bind_run_eq_ok.1 hrest
    obtain ⟨operands, s₃, hoperands, hvalue⟩ := bind_run_eq_ok.1 hrest
    obtain ⟨rfl, rfl⟩ := pure_run_eq_ok.1 hvalue
    obtain ⟨length, rfl, hlength⟩ := accepts_number.sound hcount
    obtain ⟨run, os, rfl, hrun, rfl, rfl⟩ := sound_fields (fun _ _ _ _ => sound_operand) hoperands
    refine ⟨code ++ length ++ run, by simp only [List.append_assoc], ?_⟩
    rintro strings ⟨_, vs⟩ ⟨rfl, hvs⟩
    rw [Array.empty_append] at hvs
    rw [← Opcode.code_of_ofCode? hop] at hcode
    rw [hvs.length_eq] at hlength
    exact .mk hcode hlength (hrun.map hvs fun _ _ _ ho hv => ho strings _ hv)

theorem complete_instruction {i : Instruction} (h : IsInstruction strings.toList field i) :
    ∃ raw, ResolvesTo strings raw i ∧ ∀ ip, Reads (instruction ip) field raw := by
  obtain @⟨code, count, operands, op, vs, hcode, hcount, hoperands⟩ := h
  obtain ⟨os, hos, hvs⟩ := hoperands.exists_made
    (P := fun field o => ∀ ip, Reads (operand ip) field o) fun _ _ hv => by
      obtain ⟨o, ho, hreads⟩ := complete_operand hv
      exact ⟨o, hreads, ho⟩
  refine ⟨(op, os.toArray), ⟨rfl, hvs⟩, fun ip => ?_⟩
  rw [← hvs.length_eq] at hcount
  have hfields := complete_fields (fun _ _ _ ho => ho ip) hos #[]
  rw [Array.empty_append] at hfields
  rw [List.append_assoc]
  refine (accepts_number.complete hcode).bind ?_
  rw [Opcode.ofCode?_code]
  exact (accepts_number.complete hcount).bind (hfields.map rfl)

/-- The table of instructions, before the strings are known. -/
theorem sound_code {raw : Array (Opcode × Array RawOperand)}
    (h : (table instruction).run s = .ok (raw, s')) :
    ∃ field, s = field ++ s' ∧ ∀ (strings : Array String) (is : List Instruction),
      List.Forall₂ (ResolvesTo strings) raw.toList is →
        IsTable (IsInstruction strings.toList) field is := by
  obtain ⟨_, hs, ⟨hcount, hrun⟩⟩ := sound_table (fun _ _ _ _ => sound_instruction) h
  refine ⟨_, hs, fun strings is hall => ?_⟩
  rw [hall.length_eq] at hcount
  exact .mk hcount (hrun.map hall fun _ _ _ hi hr => hi strings _ hr)

theorem complete_code {is : List Instruction}
    (h : IsTable (IsInstruction strings.toList) field is) :
    ∃ raw : Array (Opcode × Array RawOperand),
      List.Forall₂ (ResolvesTo strings) raw.toList is ∧ Reads (table instruction) field raw := by
  obtain ⟨hcount, hrun⟩ := h
  obtain ⟨raws, hraws, hall⟩ := hrun.exists_made (R := ResolvesTo strings)
    (P := fun field raw => ∀ ip, Reads (instruction ip) field raw) fun _ _ hi => by
      obtain ⟨raw, hresolves, hreads⟩ := complete_instruction hi
      exact ⟨raw, hreads, hresolves⟩
  rw [← hall.length_eq] at hcount
  exact ⟨raws.toArray, hall, complete_table (fun ip _ _ hr => hr ip) (.mk hcount hraws)⟩

/-! ## Functions and the header -/

theorem accepts_function : Accepts function IsFunction where
  sound {s s' f} h := by
    obtain ⟨entry, s₁, hentry, h₁⟩ := bind_run_eq_ok.1 h
    obtain ⟨params, s₂, hparams, h₂⟩ := bind_run_eq_ok.1 h₁
    obtain ⟨locals, s₃, hlocals, h₃⟩ := bind_run_eq_ok.1 h₂
    obtain ⟨name, s₄, hname, h₄⟩ := bind_run_eq_ok.1 h₃
    obtain ⟨rfl, rfl⟩ := pure_run_eq_ok.1 h₄
    obtain ⟨e, rfl, he⟩ := accepts_number.sound hentry
    obtain ⟨_, rfl, rfl⟩ := accepts_byte.sound hparams
    obtain ⟨l, rfl, hl⟩ := accepts_word.sound hlocals
    obtain ⟨n, rfl, hn⟩ := accepts_text.sound hname
    exact ⟨e ++ [params] ++ l ++ n, by simp only [List.append_assoc],
      .mk (f := { name, entry, params, locals }) he hl hn⟩
  complete {field f} h := by
    obtain ⟨he, hl, hn⟩ := h
    simp only [List.append_assoc]
    exact (accepts_number.complete he).bind <| (reads_byte _).bind <|
      (accepts_word.complete hl).bind ((accepts_text.complete hn).map rfl)

theorem accepts_priority : Accepts priority IsPriority where
  sound {s s' p} h := by
    obtain ⟨code, s₁, hcode, h₁⟩ := bind_run_eq_ok.1 h
    obtain ⟨ms, s₂, hms, h₂⟩ := bind_run_eq_ok.1 h₁
    obtain ⟨_, rfl, rfl⟩ := accepts_byte.sound hcode
    obtain ⟨time, rfl, htime⟩ := accepts_word.sound hms
    split at h₂
    · rename_i q hq
      obtain ⟨rfl, rfl⟩ := pure_run_eq_ok.1 h₂
      refine ⟨code :: time, rfl, ?_⟩
      unfold Priority.ofCode? at hq
      split at hq <;> cases hq
      · exact .user htime
      · exact .low htime.length
      · exact .medium htime.length
      · exact .high htime.length
    · exact absurd h₂ not_malformed
  complete {field p} h := by
    have tier {code : UInt8} {time : List UInt8} {p : Priority} (htime : time.length = 4)
        (hp : ∀ ms, Priority.ofCode? code ms = some p) :
        Reads priority (code :: time) p := by
      have hword : IsNumber 4 time (UInt32.ofNat (value time)).toNat := by
        have hvalue : IsNumber 4 time (value time) := ⟨htime, rfl⟩
        rwa [UInt32.toNat_ofNat_of_lt' (lt_of_isNumber hvalue)]
      refine (reads_byte code).bind fun rest => ?_
      refine bind_run_eq_ok.2 ⟨_, rest, accepts_word.complete hword rest, ?_⟩
      rw [hp]
      rfl
    cases h with
    | user htime =>
      exact (reads_byte 0).bind fun rest =>
        bind_run_eq_ok.2 ⟨_, rest, accepts_word.complete htime rest, rfl⟩
    | low htime => exact tier htime fun _ => rfl
    | medium htime => exact tier htime fun _ => rfl
    | high htime => exact tier htime fun _ => rfl

theorem accepts_signature : Accepts signature fun field _ => field = magic where
  sound {s s' _} h := by
    obtain ⟨rest, s₁, hget, h₁⟩ := bind_run_eq_ok.1 h
    cases hget
    split at h₁
    · rename_i htake
      cases h₁
      exact ⟨magic, by rw [show magic = s.take 4 from htake.symm, List.take_append_drop], rfl⟩
    · cases h₁
  complete {field _} h := by
    subst h
    exact reads_signature

theorem accepts_version : Accepts version fun field _ => field = [0, 8] where
  sound {s s' _} h := by
    obtain ⟨major, s₁, hmajor, h₁⟩ := bind_run_eq_ok.1 h
    obtain ⟨minor, s₂, hminor, h₂⟩ := bind_run_eq_ok.1 h₁
    obtain ⟨_, rfl, rfl⟩ := accepts_byte.sound hmajor
    obtain ⟨_, rfl, rfl⟩ := accepts_byte.sound hminor
    split at h₂
    · rename_i hversion
      cases hversion
      cases h₂
      exact ⟨[0, 8], rfl, rfl⟩
    · cases h₂
  complete {field _} h := by
    subst h
    exact reads_version

/-! ## Images -/

theorem sound_image {x : Image} (h : image.run s = .ok (x, s')) :
    ∃ field, s = field ++ s' ∧ IsImage field x := by
  obtain ⟨⟨⟩, s₁, hsignature, h₁⟩ := bind_run_eq_ok.1 h
  obtain ⟨⟨⟩, s₂, hversion, h₂⟩ := bind_run_eq_ok.1 h₁
  obtain ⟨stackSize, s₃, hstack, h₃⟩ := bind_run_eq_ok.1 h₂
  obtain ⟨globals, s₄, hglobals, h₄⟩ := bind_run_eq_ok.1 h₃
  obtain ⟨flag, s₅, hflag, h₅⟩ := bind_run_eq_ok.1 h₄
  obtain ⟨main, s₆, hmain, h₆⟩ := bind_run_eq_ok.1 h₅
  obtain ⟨p, s₇, hp, h₇⟩ := bind_run_eq_ok.1 h₆
  obtain ⟨raw, s₈, hraw, h₈⟩ := bind_run_eq_ok.1 h₇
  obtain ⟨strings, s₉, hstrings, h₉⟩ := bind_run_eq_ok.1 h₈
  obtain ⟨instructions, s₁₀, hlift, h₁₀⟩ := bind_run_eq_ok.1 h₉
  obtain ⟨functions, s₁₁, hfunctions, h₁₁⟩ := bind_run_eq_ok.1 h₁₀
  obtain ⟨hostCalls, s₁₂, hhostCalls, h₁₂⟩ := bind_run_eq_ok.1 h₁₁
  obtain ⟨rfl, rfl⟩ := pure_run_eq_ok.1 h₁₂
  obtain ⟨_, rfl, rfl⟩ := accepts_signature.sound hsignature
  obtain ⟨_, rfl, rfl⟩ := accepts_version.sound hversion
  obtain ⟨a, rfl, ha⟩ := accepts_word.sound hstack
  obtain ⟨b, rfl, hb⟩ := accepts_word.sound hglobals
  obtain ⟨_, rfl, rfl⟩ := accepts_byte.sound hflag
  obtain ⟨c, rfl, hc⟩ := accepts_number.sound hmain
  obtain ⟨d, rfl, hd⟩ := accepts_priority.sound hp
  obtain ⟨e, rfl, he⟩ := sound_code hraw
  obtain ⟨f, rfl, hf⟩ := (accepts_table accepts_text).sound hstrings
  obtain ⟨hresolve, rfl⟩ := lift_run_eq_ok.1 hlift
  obtain ⟨g, rfl, hg⟩ := (accepts_table accepts_function).sound hfunctions
  obtain ⟨k, rfl, hk⟩ := (accepts_table accepts_text).sound hhostCalls
  have hcode := he strings _ (resolveAll_eq_ok_iff.1 hresolve)
  have hpresent : IsMain (flag :: c) (if flag = 0 then none else some main) := by
    by_cases hzero : flag = 0
    · subst hzero
      exact .absent hc.length
    · rw [if_neg hzero]
      exact .present hzero hc
  let x : Image :=
    { stackSize, globals, priority := p, instructions, functions, hostCalls
      main := if flag = 0 then none else some main }
  exact ⟨_, by simp only [List.append_assoc, List.cons_append, List.nil_append],
    .mk (x := x) ha hb hpresent hd hcode hf hg hk⟩

/-- Main is there if the byte before its index is not zero. -/
theorem exists_of_isMain {main : Option Nat} (h : IsMain field main) :
    ∃ flag index i, field = [flag] ++ index ∧ IsNumber 4 index i ∧
      (if flag = 0 then none else some i) = main := by
  cases h with
  | absent hindex => exact ⟨0, _, _, rfl, ⟨hindex, rfl⟩, rfl⟩
  | present hflag hindex => exact ⟨_, _, _, rfl, hindex, if_neg hflag⟩

theorem complete_image {x : Image} (h : IsImage field x) : Reads image field x := by
  obtain @⟨a, b, _, d, code, f, g, k, _, strings, ha, hb, hmain, hd, hcode, hf, hg, hk⟩ := h
  obtain ⟨flag, c, i, rfl, hc, hpresent⟩ := exists_of_isMain hmain
  obtain ⟨raw, hall, hraw⟩ := @complete_code _ strings.toArray _ hcode
  have hresolve : resolveAll strings.toArray raw = .ok x.instructions :=
    resolveAll_eq_ok_iff.2 hall
  have hstrings := (accepts_table accepts_text).complete (x := strings.toArray) hf
  simp only [List.append_assoc]
  refine reads_signature.bind <| reads_version.bind <| (accepts_word.complete ha).bind <|
    (accepts_word.complete hb).bind <| (reads_byte flag).bind <|
    (accepts_number.complete hc).bind <| (accepts_priority.complete hd).bind <| hraw.bind <|
    hstrings.bind <| (Reads.lift hresolve).bind <|
    ((accepts_table accepts_function).complete hg).bind <|
    ((accepts_table accepts_text).complete hk).map ?_
  rw [hpresent]

/-! ## Errors -/

theorem bind_run_eq_error {f : α → Reader β} {e : LoadError} :
    (r >>= f).run s = .error e ↔
      r.run s = .error e ∨ ∃ a s₁, r.run s = .ok (a, s₁) ∧ (f a).run s₁ = .error e := by
  rw [StateT.run_bind]
  cases h : r.run s with
  | error e' => simp [bind, Except.bind]
  | ok p => simp [bind, Except.bind, Prod.ext_iff, eq_comm]

/-- A reader fails with a malformation only. -/
def Malforms (r : Reader α) : Prop := ∀ s e, r.run s = .error e → ∃ reason, e = .malformed reason

theorem Malforms.pure (a : α) : Malforms (pure a : Reader α) := by
  intro s e h
  cases h

theorem Malforms.bind {f : α → Reader β} (hr : Malforms r) (hf : ∀ a, Malforms (f a)) :
    Malforms (r >>= f) := by
  intro s e h
  obtain h | ⟨a, s₁, -, h⟩ := bind_run_eq_error.1 h
  · exact hr s e h
  · exact hf a s₁ e h

theorem malforms_malformed (reason : Malformation) : Malforms (malformed reason : Reader α) := by
  intro s e h
  cases h
  exact ⟨reason, rfl⟩

theorem malforms_get : Malforms (get : Reader (List UInt8)) := by
  intro s e h
  cases h

theorem malforms_set (s : List UInt8) : Malforms (set s : Reader PUnit) := by
  intro s e h
  cases h

theorem malforms_byte : Malforms byte := by
  refine malforms_get.bind fun s => ?_
  cases s with
  | nil => exact malforms_malformed _
  | cons b rest => exact (malforms_set rest).bind fun _ => .pure b

theorem malforms_number : Malforms (number width) := by
  induction width with
  | zero => exact .pure 0
  | succ width ih => exact malforms_byte.bind fun _ => ih.bind fun _ => .pure _

theorem malforms_word : Malforms word := malforms_number.bind fun _ => .pure _

theorem malforms_int : Malforms int := malforms_word.bind fun _ => .pure _

theorem malforms_bytes (n : Nat) : Malforms (bytes n) := by
  refine malforms_get.bind fun s => ?_
  dsimp only
  split
  · exact (malforms_set _).bind fun _ => .pure _
  · exact malforms_malformed _

theorem malforms_text : Malforms (text width) :=
  malforms_number.bind fun n => (malforms_bytes n).bind fun _ => .pure _

theorem malforms_fields {read : Nat → Reader α} (hread : ∀ n, Malforms (read n)) (n : Nat)
    (done : Array α) : Malforms (fields read n done) := by
  induction n generalizing done with
  | zero => exact .pure done
  | succ n ih => exact (hread _).bind fun x => ih (done.push x)

theorem malforms_table {read : Nat → Reader α} (hread : ∀ n, Malforms (read n)) :
    Malforms (table read) :=
  malforms_number.bind fun n => malforms_fields hread n #[]

theorem malforms_operand (ip : Nat) : Malforms (operand ip) := by
  refine malforms_byte.bind fun code => ?_
  split
  case h_1 => exact malforms_malformed _
  case h_2 | h_5 => exact malforms_int.bind fun _ => .pure _
  case h_3 => exact malforms_word.bind fun _ => .pure _
  case h_4 | h_7 | h_8 | h_9 => exact malforms_number.bind fun _ => .pure _
  case h_6 => exact malforms_int.bind fun _ => malforms_int.bind fun _ => .pure _
  case h_10 =>
    refine malforms_number.bind fun code => ?_
    split
    · exact .pure _
    · exact malforms_malformed _

theorem malforms_instruction (ip : Nat) : Malforms (instruction ip) := by
  refine malforms_number.bind fun code => ?_
  split
  · exact malforms_malformed _
  · exact malforms_number.bind fun n =>
      (malforms_fields (fun _ => malforms_operand ip) n #[]).bind fun _ => .pure _

theorem malforms_function : Malforms function :=
  malforms_number.bind fun _ => malforms_byte.bind fun _ => malforms_word.bind fun _ =>
    malforms_text.bind fun _ => .pure _

theorem malforms_priority : Malforms priority := by
  refine malforms_byte.bind fun code => malforms_word.bind fun ms => ?_
  split
  · exact .pure _
  · exact malforms_malformed _

theorem malforms_lift {x : Except LoadError α}
    (hx : ∀ e, x = .error e → ∃ reason, e = .malformed reason) :
    Malforms (liftM x : Reader α) := by
  intro s e h
  rw [StateT.run_monadLift] at h
  cases x with
  | ok a => cases h
  | error e' =>
    cases h
    exact hx e rfl

theorem malformed_of_resolve {o : RawOperand} {e : LoadError}
    (h : resolve strings ip o = .error e) : ∃ reason, e = .malformed reason := by
  unfold resolve at h
  split at h
  · cases h
  · split at h <;> cases h
    exact ⟨_, rfl⟩

theorem malformed_of_resolveAll {raw : Array (Opcode × Array RawOperand)} {e : LoadError}
    (h : resolveAll strings raw = .error e) : ∃ reason, e = .malformed reason := by
  rw [resolveAll, Array.mapM_eq_mapM_toList] at h
  obtain ⟨i, -, hi⟩ := mapM_eq_error (map_eq_error.1 h)
  obtain hoperands | ⟨operands, -, hpure⟩ := bind_eq_error.1 hi
  · obtain ⟨o, -, ho⟩ := mapM_eq_error hoperands
    exact malformed_of_resolve ho
  · cases hpure

theorem error_image {e : LoadError} (h : image.run s = .error e) :
    (signature >>= fun _ => version).run s = .error e ∨ ∃ reason, e = .malformed reason := by
  rw [bind_run_eq_error]
  obtain h | ⟨⟨⟩, s₁, hsignature, h⟩ := bind_run_eq_error.1 h
  · exact .inl (.inl h)
  obtain h | ⟨⟨⟩, s₂, hversion, h⟩ := bind_run_eq_error.1 h
  · exact .inl (.inr ⟨_, s₁, hsignature, h⟩)
  refine .inr (Malforms.bind malforms_word (fun stackSize => ?_) s₂ e h)
  refine malforms_word.bind fun globals => malforms_byte.bind fun flag =>
    malforms_number.bind fun main => malforms_priority.bind fun p =>
    (malforms_table malforms_instruction).bind fun raw =>
    (malforms_table fun _ => malforms_text).bind fun strings =>
    (malforms_lift fun _ => malformed_of_resolveAll).bind fun instructions =>
    (malforms_table fun _ => malforms_function).bind fun functions =>
    (malforms_table fun _ => malforms_text).bind fun hostCalls => .pure _

/-- What does not begin with the signature is refused at once. -/
theorem signature_of_not_magic (h : ¬ magic <+: s) : signature.run s = .error .badMagic := by
  have htake : ¬ s.take 4 = Executable.signature := fun htake =>
    h (List.prefix_iff_eq_take.2 htake.symm)
  show (if s.take 4 = Executable.signature then set (s.drop 4) else throw .badMagic :
    Reader Unit).run s = _
  rw [if_neg htake]
  rfl

/-- A version that is there and is another one is refused as it is. -/
theorem header_of_version {major minor : UInt8} (h : magic ++ [major, minor] <+: s)
    (hversion : (major, minor) ≠ (0, 8)) :
    (signature >>= fun _ => version).run s = .error (.unsupportedVersion major minor) := by
  obtain ⟨rest, rfl⟩ := h
  refine bind_run_eq_error.2 (.inr ⟨(), major :: minor :: rest, ?_, ?_⟩)
  · rw [List.append_assoc]
    exact reads_signature _
  · show (if (major, minor) = Executable.version then pure () else
      throw (.unsupportedVersion major minor) : Reader Unit).run rest = _
    rw [if_neg (show (major, minor) ≠ Executable.version from hversion)]
    rfl

theorem malforms_header {e : LoadError} (hmagic : magic <+: s)
    (hversion : ∀ major minor, magic ++ [major, minor] <+: s → (major, minor) = (0, 8))
    (h : (signature >>= fun _ => version).run s = .error e) :
    ∃ reason, e = .malformed reason := by
  obtain ⟨rest, rfl⟩ := hmagic
  have hread : signature.run (magic ++ rest) = .ok ((), rest) := reads_signature rest
  obtain herror | ⟨⟨⟩, s₁, hsignature, h₁⟩ := bind_run_eq_error.1 h
  · rw [hread] at herror
    cases herror
  rw [hread] at hsignature
  cases hsignature
  obtain herror | ⟨major, s₂, hmajor, h₂⟩ := bind_run_eq_error.1 h₁
  · exact malforms_byte _ _ herror
  obtain herror | ⟨minor, s₃, hminor, h₃⟩ := bind_run_eq_error.1 h₂
  · exact malforms_byte _ _ herror
  obtain ⟨_, rfl, rfl⟩ := accepts_byte.sound hmajor
  obtain ⟨_, rfl, rfl⟩ := accepts_byte.sound hminor
  rw [if_pos (show (major, minor) = Executable.version from hversion major minor ⟨s₃, rfl⟩)] at h₃
  cases h₃

end Reader

variable {bytes : List UInt8} {e : LoadError}

theorem decode_of_run_error (h : Reader.image.run bytes = .error e) :
    decode bytes = .error e := by
  rw [decode, h]
  rfl

theorem decode_of_not_magic (h : ¬ magic <+: bytes) : decode bytes = .error .badMagic :=
  decode_of_run_error (Reader.bind_run_eq_error.2 (.inl (Reader.signature_of_not_magic h)))

theorem decode_of_version {major minor : UInt8} (h : magic ++ [major, minor] <+: bytes)
    (hversion : (major, minor) ≠ (0, 8)) :
    decode bytes = .error (.unsupportedVersion major minor) := by
  refine decode_of_run_error (Reader.bind_run_eq_error.2 ?_)
  obtain hsignature | ⟨⟨⟩, s₁, hsignature, h₁⟩ :=
    Reader.bind_run_eq_error.1 (Reader.header_of_version h hversion)
  · exact .inl hsignature
  · exact .inr ⟨(), s₁, hsignature, Reader.bind_run_eq_error.2 (.inl h₁)⟩

/-- Which error there is, by the first six bytes. -/
theorem decode_error (h : decode bytes = .error e) :
    (e = .badMagic ∧ ¬ magic <+: bytes) ∨
    (∃ major minor, e = .unsupportedVersion major minor ∧
      magic ++ [major, minor] <+: bytes ∧ (major, minor) ≠ (0, 8)) ∨
    (∃ reason, e = .malformed reason) ∧ magic <+: bytes ∧
      ∀ major minor, magic ++ [major, minor] <+: bytes → (major, minor) = (0, 8) := by
  by_cases hmagic : magic <+: bytes
  · by_cases hversion :
        ∀ major minor, magic ++ [major, minor] <+: bytes → (major, minor) = (0, 8)
    · refine .inr (.inr ⟨?_, hmagic, hversion⟩)
      cases hread : Reader.image.run bytes with
      | error e' =>
        rw [decode_of_run_error hread] at h
        cases h
        obtain hheader | hreason := Reader.error_image hread
        · exact Reader.malforms_header hmagic hversion hheader
        · exact hreason
      | ok p =>
        rw [decode_of_run hread, map_eq_error, Image.validate] at h
        split at h <;> cases h
        exact ⟨_, rfl⟩
    · push Not at hversion
      obtain ⟨major, minor, hprefix, hother⟩ := hversion
      rw [decode_of_version hprefix hother] at h
      cases h
      exact .inr (.inl ⟨major, minor, rfl, hprefix, hother⟩)
  · rw [decode_of_not_magic hmagic] at h
    cases h
    exact .inl ⟨rfl, hmagic⟩

/-- The reader of images reads what the bytes begin with. -/
theorem exists_run_iff {x : Image} :
    (∃ rest, Reader.image.run bytes = .ok (x, rest)) ↔ Describes bytes x := by
  constructor
  · rintro ⟨rest, h⟩
    obtain ⟨executable, rfl, hx⟩ := Reader.sound_image h
    exact ⟨executable, List.prefix_append _ _, hx⟩
  · rintro ⟨executable, ⟨rest, rfl⟩, hx⟩
    exact ⟨rest, Reader.complete_image hx rest⟩

/-- **The decoder accepts the grammar.** An image is read from bytes exactly if they begin with an
executable of it and it is valid. All other bytes are refused: for the signature if they do not
begin with it, for the version if it is there and is another one, and else as malformed. -/
theorem decode_grammar (bytes : List UInt8) :
    (∀ x, decode bytes = .ok x ↔ Describes bytes x ∧ x.validate = .ok ()) ∧
    (decode bytes = .error .badMagic ↔ ¬ magic <+: bytes) ∧
    (∀ major minor, decode bytes = .error (.unsupportedVersion major minor) ↔
      magic ++ [major, minor] <+: bytes ∧ (major, minor) ≠ (0, 8)) ∧
    ((∃ reason, decode bytes = .error (.malformed reason)) ↔
      magic <+: bytes ∧
      (∀ major minor, magic ++ [major, minor] <+: bytes → (major, minor) = (0, 8)) ∧
      ¬ ∃ x, Describes bytes x ∧ x.validate = .ok ()) := by
  have hok (x : Image) : decode bytes = .ok x ↔ Describes bytes x ∧ x.validate = .ok () := by
    rw [decode_eq_ok, Image.validate_eq_ok, exists_run_iff]
  refine ⟨hok, ⟨fun h => ?_, decode_of_not_magic⟩, fun major minor => ⟨fun h => ?_, fun h =>
    decode_of_version h.1 h.2⟩, ⟨?_, ?_⟩⟩
  · obtain ⟨-, hmagic⟩ | ⟨_, _, ⟨⟩, -⟩ | ⟨⟨_, ⟨⟩⟩, -⟩ := decode_error h
    exact hmagic
  · obtain ⟨⟨⟩, -⟩ | ⟨_, _, ⟨⟩, hversion⟩ | ⟨⟨_, ⟨⟩⟩, -⟩ := decode_error h
    exact hversion
  · rintro ⟨reason, h⟩
    obtain ⟨⟨⟩, -⟩ | ⟨_, _, ⟨⟩, -⟩ | ⟨-, hmagic, hversion⟩ := decode_error h
    refine ⟨hmagic, hversion, fun ⟨x, hx⟩ => ?_⟩
    rw [(hok x).2 hx] at h
    cases h
  · rintro ⟨hmagic, hversion, hnone⟩
    cases h : decode bytes with
    | ok x => exact absurd ⟨x, (hok x).1 h⟩ hnone
    | error e =>
      obtain ⟨-, hnot⟩ | ⟨major, minor, -, hprefix, hother⟩ | ⟨⟨reason, rfl⟩, -⟩ := decode_error h
      · exact absurd hmagic hnot
      · exact absurd (hversion major minor hprefix) hother
      · exact ⟨reason, rfl⟩

end ScriptMachine.Executable
