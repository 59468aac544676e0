import Mathlib.Data.List.Forall2
import ScriptMachine.Executable.Reader
import ScriptMachine.Proofs.Stack

/-!
# What a reader gives

A reader that succeeds has read its fields one after the other, each from where the one before it
stopped. What every entry of a table satisfies is so what a reader of such an entry guarantees;
in particular the operands of a decoded image are of the kinds that have a tag.
-/

namespace ScriptMachine

/-- A list is mapped if each of its entries is. -/
theorem mapM_eq_ok {ε α β : Type} {f : α → Except ε β} {xs : List α} {ys : List β} :
    xs.mapM f = .ok ys ↔ List.Forall₂ (fun x y => f x = .ok y) xs ys := by
  induction xs generalizing ys with
  | nil =>
    rw [List.mapM_nil, pure_eq_ok, List.forall₂_nil_left_iff, eq_comm]
  | cons x xs ih =>
    rw [List.mapM_cons, bind_eq_ok, List.forall₂_cons_left_iff]
    constructor
    · rintro ⟨y, hy, h⟩
      obtain ⟨ys', hys', h⟩ := bind_eq_ok.1 h
      exact ⟨y, ys', hy, ih.1 hys', (pure_eq_ok.1 h).symm⟩
    · rintro ⟨y, ys', hy, hys', rfl⟩
      exact ⟨y, hy, bind_eq_ok.2 ⟨ys', ih.2 hys', rfl⟩⟩

/-- A list that is not mapped has an entry that is not. -/
theorem mapM_eq_error {ε α β : Type} {f : α → Except ε β} {xs : List α} {e : ε}
    (h : xs.mapM f = .error e) : ∃ x ∈ xs, f x = .error e := by
  induction xs with
  | nil => cases h
  | cons x xs ih =>
    rw [List.mapM_cons] at h
    obtain hx | ⟨y, -, h⟩ := bind_eq_error.1 h
    · exact ⟨x, List.mem_cons_self, hx⟩
    · obtain hxs | ⟨ys, -, h⟩ := bind_eq_error.1 h
      · obtain ⟨z, hz, he⟩ := ih hxs
        exact ⟨z, List.mem_cons_of_mem _ hz, he⟩
      · cases h

theorem exists_of_forall₂ {α β : Type} {R : α → β → Prop} {xs : List α} {ys : List β}
    (h : List.Forall₂ R xs ys) {y : β} (hy : y ∈ ys) : ∃ x ∈ xs, R x y := by
  induction h with
  | nil => cases hy
  | @cons x z xs ys hxz _ ih =>
    rcases List.mem_cons.1 hy with rfl | hy
    · exact ⟨x, List.mem_cons_self, hxz⟩
    · obtain ⟨w, hw, hR⟩ := ih hy
      exact ⟨w, List.mem_cons_of_mem _ hw, hR⟩

/-- No operand is of a kind that only slots can hold. -/
def Image.Tagged (image : Image) : Prop :=
  ∀ i ∈ image.instructions, ∀ v ∈ i.operands, (Executable.Tag.of? v).isSome = true

namespace Executable

namespace Reader

variable {α β : Type} {s s' : List UInt8}

theorem bind_run_eq_ok {r : Reader α} {f : α → Reader β} {b : β} :
    (r >>= f).run s = .ok (b, s') ↔ ∃ a s₁, r.run s = .ok (a, s₁) ∧ (f a).run s₁ = .ok (b, s') := by
  rw [StateT.run_bind, bind_eq_ok]
  exact Prod.exists

theorem pure_run_eq_ok {a b : α} :
    (pure a : Reader α).run s = .ok (b, s') ↔ a = b ∧ s = s' := by
  rw [StateT.run_pure, pure_eq_ok, Prod.mk.injEq]

theorem lift_run_eq_ok {x : Except LoadError α} {a : α} :
    (liftM x : Reader α).run s = .ok (a, s') ↔ x = .ok a ∧ s = s' := by
  rw [StateT.run_monadLift, bind_eq_ok]
  constructor
  · rintro ⟨b, hb, h⟩
    cases h
    exact ⟨hb, rfl⟩
  · rintro ⟨hx, rfl⟩
    exact ⟨a, hx, rfl⟩

theorem not_malformed {reason : Malformation} {a : α} :
    (malformed reason : Reader α).run s ≠ .ok (a, s') := by
  intro h
  cases h

/-- What is so of every field that is read, and of those read before, is so of all. -/
theorem forall_fields {P : α → Prop} {read : Nat → Reader α} {n : Nat} {done xs : Array α}
    (hread : ∀ n s x s', (read n).run s = .ok (x, s') → P x) (hdone : ∀ x ∈ done, P x)
    (h : (fields read n done).run s = .ok (xs, s')) : ∀ x ∈ xs, P x := by
  induction n generalizing s done with
  | zero =>
    obtain ⟨rfl, -⟩ := pure_run_eq_ok.1 h
    exact hdone
  | succ n ih =>
    obtain ⟨x, s₁, hx, h⟩ := bind_run_eq_ok.1 h
    refine ih (fun y hy => ?_) h
    rcases Array.mem_push.1 hy with hy | rfl
    · exact hdone y hy
    · exact hread _ _ _ _ hx

theorem forall_table {P : α → Prop} {read : Nat → Reader α} {xs : Array α}
    (hread : ∀ n s x s', (read n).run s = .ok (x, s') → P x)
    (h : (table read).run s = .ok (xs, s')) : ∀ x ∈ xs, P x := by
  obtain ⟨n, s₁, -, h⟩ := bind_run_eq_ok.1 h
  exact forall_fields hread (by simp) h

/-! ## Operands -/

/-- A raw operand becomes a value that has a tag. -/
def RawOperand.Tagged : RawOperand → Prop
  | .value v => (Tag.of? v).isSome = true
  | .string _ => True

theorem tagged_operand {ip : Nat} {o : RawOperand} (h : (operand ip).run s = .ok (o, s')) :
    o.Tagged := by
  obtain ⟨code, s₁, -, h⟩ := bind_run_eq_ok.1 h
  cases htag : Tag.ofCode? code with
  | none =>
    simp only [htag] at h
    exact absurd h not_malformed
  | some tag =>
    simp only [htag] at h
    cases tag with
    | relStackIndex =>
      obtain ⟨base, s₂, -, h⟩ := bind_run_eq_ok.1 h
      obtain ⟨offset, s₃, -, h⟩ := bind_run_eq_ok.1 h
      obtain ⟨rfl, -⟩ := pure_run_eq_ok.1 h
      rfl
    | register =>
      obtain ⟨code, s₂, -, h⟩ := bind_run_eq_ok.1 h
      split at h
      · obtain ⟨rfl, -⟩ := pure_run_eq_ok.1 h
        rfl
      · exact absurd h not_malformed
    | _ =>
      obtain ⟨x, s₂, -, h⟩ := bind_run_eq_ok.1 h
      obtain ⟨rfl, -⟩ := pure_run_eq_ok.1 h
      trivial

theorem tagged_instruction {ip : Nat} {r : Opcode × Array RawOperand}
    (h : (instruction ip).run s = .ok (r, s')) : ∀ o ∈ r.2, o.Tagged := by
  obtain ⟨code, s₁, -, h⟩ := bind_run_eq_ok.1 h
  split at h
  · exact absurd h not_malformed
  · obtain ⟨count, s₂, -, h⟩ := bind_run_eq_ok.1 h
    obtain ⟨operands, s₃, hoperands, h⟩ := bind_run_eq_ok.1 h
    obtain ⟨rfl, -⟩ := pure_run_eq_ok.1 h
    exact forall_fields (fun _ _ _ _ => tagged_operand) (by simp) hoperands

theorem tagged_resolve {strings : Array String} {ip : Nat} {o : RawOperand} {v : Value}
    (ho : o.Tagged) (h : resolve strings ip o = .ok v) : (Tag.of? v).isSome = true := by
  simp only [resolve] at h
  split at h
  · cases h
    exact ho
  · split at h
    · cases h
      rfl
    · cases h

/-- The instructions are resolved one by one. -/
theorem resolveAll_eq_ok {strings : Array String} {raw : Array (Opcode × Array RawOperand)}
    {instructions : Array Instruction} :
    resolveAll strings raw = .ok instructions ↔
      List.Forall₂ (fun r i => i.op = r.2.1 ∧
        List.Forall₂ (fun o v => resolve strings r.1 o = .ok v) r.2.2.toList i.operands)
        (raw.toList.mapIdx fun ip r => (ip, r)) instructions.toList := by
  have heach (r : Nat × Opcode × Array RawOperand) (i : Instruction) :
      (do let operands ← r.2.2.toList.mapM (resolve strings r.1)
          return { op := r.2.1, operands } : Except LoadError Instruction) = .ok i ↔
        i.op = r.2.1 ∧
          List.Forall₂ (fun o v => resolve strings r.1 o = .ok v) r.2.2.toList i.operands := by
    rw [bind_eq_ok]
    constructor
    · rintro ⟨operands, hoperands, h⟩
      cases h
      exact ⟨rfl, mapM_eq_ok.1 hoperands⟩
    · rintro ⟨hop, hoperands⟩
      refine ⟨i.operands, mapM_eq_ok.2 hoperands, ?_⟩
      rw [← hop]
      rfl
  have hlist : resolveAll strings raw = .ok instructions ↔
      (raw.toList.mapIdx fun ip r => (ip, r)).mapM (fun r => do
        let operands ← r.2.2.toList.mapM (resolve strings r.1)
        return ({ op := r.2.1, operands } : Instruction)) = .ok instructions.toList := by
    rw [resolveAll, Array.mapM_eq_mapM_toList, Array.toList_mapIdx]
    exact map_eq_ok.trans ⟨fun ⟨is, his, h⟩ => by rw [← h]; exact his,
      fun h => ⟨_, h, Array.toArray_toList⟩⟩
  rw [hlist, mapM_eq_ok]
  simp only [heach]

/-- Every operand of an image that was read has a tag. -/
theorem tagged_image {x : Image} (h : image.run s = .ok (x, s')) : x.Tagged := by
  obtain ⟨-, s₁, -, h⟩ := bind_run_eq_ok.1 h
  obtain ⟨-, s₂, -, h⟩ := bind_run_eq_ok.1 h
  obtain ⟨stackSize, s₃, -, h⟩ := bind_run_eq_ok.1 h
  obtain ⟨globals, s₄, -, h⟩ := bind_run_eq_ok.1 h
  obtain ⟨hasMain, s₅, -, h⟩ := bind_run_eq_ok.1 h
  obtain ⟨main, s₆, -, h⟩ := bind_run_eq_ok.1 h
  obtain ⟨priority, s₇, -, h⟩ := bind_run_eq_ok.1 h
  obtain ⟨raw, s₈, hraw, h⟩ := bind_run_eq_ok.1 h
  obtain ⟨strings, s₉, -, h⟩ := bind_run_eq_ok.1 h
  obtain ⟨instructions, s₁₀, hinstructions, h⟩ := bind_run_eq_ok.1 h
  obtain ⟨functions, s₁₁, -, h⟩ := bind_run_eq_ok.1 h
  obtain ⟨hostCalls, s₁₂, -, h⟩ := bind_run_eq_ok.1 h
  obtain ⟨rfl, -⟩ := pure_run_eq_ok.1 h
  have htagged := forall_table (fun _ _ _ _ h => tagged_instruction h) hraw
  have hresolved := resolveAll_eq_ok.1 (lift_run_eq_ok.1 hinstructions).1
  intro i hi v hv
  obtain ⟨r, hr, -, hoperands⟩ := exists_of_forall₂ hresolved (Array.mem_toList_iff.2 hi)
  obtain ⟨o, ho, hv⟩ := exists_of_forall₂ hoperands hv
  obtain ⟨ip, hip, rfl⟩ := List.mem_mapIdx.1 hr
  exact tagged_resolve (htagged _ (by simp) o (Array.mem_toList_iff.1 ho)) hv

end Reader

end Executable
end ScriptMachine
