import ScriptMachine.Proofs.NestedCalls

/-!
# What an instruction touches

An instruction that meets no fault writes where its operands say and nowhere else. `Thread.Targets`
lists the locations that it may write, as they are before it is executed: the one that its first
operand names, the slot at the top of the stack, or the two slots that link a frame to its caller.
`Thread.MovesTop` says where it leaves the top of the stack. Together with the base of the current
frame, that is all of the stack that changes (`Machine.touches_step`).
-/

namespace ScriptMachine

/-- Whether an instruction writes its result to its first operand, if it has a result. -/
def Opcode.assigns : Opcode → Bool
  | push | call | ret | callHost | pause | exit | jmp | je | jne | jg | jl | jge | jle => false
  | _ => true

namespace Thread

variable {t t' : Thread} {i : Instruction} {now : UInt64} {pinned : Bool} {flow : Flow}
  {l : Location} {v : Value} {s : Stack}

/-! ## Locations -/

/-- Writing a location leaves all others. -/
theorem load_store_ne {l' : Location} (h : l' ≠ l) : (t.store l v).load l' = t.load l' := by
  cases l with
  | slot j =>
    cases l' with
    | slot k => exact Stack.slot_setSlot_ne fun hjk => h (by rw [hjk])
    | returnValue => rfl
  | returnValue =>
    cases l' with
    | slot k => rfl
    | returnValue => exact absurd rfl h

/-- Only the text of a fault depends on the top of the stack. -/
theorem resolve_drop {index : Int32} {n j : Nat} :
    (s.drop n).resolve index = .ok j ↔ s.resolve index = .ok j := by
  have hposition : (s.drop n).position index = s.position index := rfl
  simp only [Stack.resolve, hposition, Stack.capacity_drop]
  by_cases hrange : 0 ≤ s.position index ∧ s.position index < s.capacity
  · rw [if_pos hrange, if_pos hrange]
  · rw [if_neg hrange, if_neg hrange]
    simp

theorem location?_drop {n : Nat} :
    { t with stack := t.stack.drop n }.location? v = .ok (some l) ↔
      t.location? v = .ok (some l) := by
  cases v with
  | stackIndex index =>
    unfold location?
    simp only [bind_eq_ok, resolve_drop]
  | relStackIndex base offset =>
    unfold location?
    simp only [Stack.get, bind_eq_ok, map_eq_ok, resolve_drop, Stack.slot_drop]
  | register r =>
    cases r
    rfl
  | _ => rfl

/-- A destination is the location that its operand names. -/
theorem destination_eq_ok {n : Nat} :
    t.destination i n = .ok l ↔ ∃ v, i.operand n = .ok v ∧ t.location? v = .ok (some l) := by
  simp only [destination, bind_eq_ok]
  refine exists_congr fun v => and_congr_right fun _ => ⟨?_, fun hl => ⟨_, hl, rfl⟩⟩
  rintro ⟨_ | l', hl', h⟩
  · cases h
  · cases h
    exact hl'

/-- Popping a value first does not change which location is meant, not even if the popped slot says
which one it is. -/
theorem destination_drop {n k : Nat} :
    { t with stack := t.stack.drop k }.destination i n = .ok l ↔ t.destination i n = .ok l := by
  simp only [destination_eq_ok, location?_drop]

theorem destination_of_computation (h : t.computation i = .ok (some (l, v))) :
    t.destination i 0 = .ok l := by
  cases hop : i.op with
  | mov =>
    simp only [computation, hop] at h
    obtain ⟨d, hd, h⟩ := bind_eq_ok.1 h
    obtain ⟨source, -, h⟩ := bind_eq_ok.1 h
    split at h
    · cases h
    · obtain ⟨w, -, h⟩ := bind_eq_ok.1 h
      cases h
      exact hd
  | add | sub | mul | div | exp =>
    simp only [computation, hop, arithmetic] at h
    obtain ⟨d, hd, h⟩ := bind_eq_ok.1 h
    obtain ⟨a, -, h⟩ := bind_eq_ok.1 h
    obtain ⟨w, -, h⟩ := bind_eq_ok.1 h
    cases h
    exact hd
  | mod | and | or | xor | shl | shr =>
    simp only [computation, hop, integers] at h
    obtain ⟨d, hd, h⟩ := bind_eq_ok.1 h
    split at h
    · obtain ⟨b, -, h⟩ := bind_eq_ok.1 h
      obtain ⟨n, -, h⟩ := bind_eq_ok.1 h
      cases h
      exact hd
    · cases h
  | neg | inc | dec | not =>
    simp only [computation, hop, unary] at h
    obtain ⟨d, hd, h⟩ := bind_eq_ok.1 h
    obtain ⟨w, -, hv⟩ := Option.map_eq_some_iff.1 (pure_eq_ok.1 h)
    cases hv
    exact hd
  | concat | getChar | setChar =>
    simp only [computation, hop, texts] at h
    obtain ⟨d, hd, h⟩ := bind_eq_ok.1 h
    split at h
    · obtain ⟨text, -, h⟩ := bind_eq_ok.1 h
      obtain ⟨w, -, hv⟩ := Option.map_eq_some_iff.1 (pure_eq_ok.1 h)
      cases hv
      exact hd
    · cases h
  | _ =>
    rw [computation, hop] at h
    cases h

/-- What is computed goes to the first operand. -/
theorem assigns_of_computation (h : t.computation i = .ok (some (l, v))) :
    i.op.assigns = true := by
  cases hop : i.op with
  | push | call | ret | callHost | pause | exit | jmp | je | jne | jg | jl | jge | jle =>
    rw [computation, hop] at h
    cases h
  | _ => rfl

/-! ## Instructions that move the top of the stack -/

theorem execute_push_eq_ok (hop : i.op = .push) :
    t.execute i now pinned = (.ok flow, t') ↔
      ∃ v s, t.value i 0 = .ok v ∧ t.stack.push v = .ok s ∧ flow = .next ∧
        t' = { t with stack := s } := by
  simp only [execute, hop]
  cases hv : t.value i 0 with
  | error fault => simp
  | ok v =>
    cases hs : t.stack.push v with
    | error fault => simp [hs]
    | ok s => simp [hs, eq_comm]

theorem execute_pop_eq_ok (hop : i.op = .pop) :
    t.execute i now pinned = (.ok flow, t') ↔
      ∃ l, 0 < t.stack.top ∧ t.destination i 0 = .ok l ∧ flow = .next ∧
        t' = { t with stack := t.stack.drop 1 }.store l (t.stack.slot (t.stack.top - 1)) := by
  simp only [execute, hop]
  cases hpop : t.stack.pop with
  | error fault =>
    obtain ⟨hempty, -⟩ := Stack.pop_eq_error.1 hpop
    simp [hempty]
  | ok r =>
    obtain ⟨v, s⟩ := r
    obtain ⟨htop, rfl, rfl⟩ := Stack.pop_eq_ok.1 hpop
    simp only [← destination_drop (t := t) (k := 1)]
    cases hl : { t with stack := t.stack.drop 1 }.destination i 0 with
    | error fault => simp
    | ok l => simp [htop, eq_comm]

/-! ## Everything that an instruction touches -/

/-- The locations that an instruction may write. -/
inductive Targets (t : Thread) (i : Instruction) : Location → Prop
  | operand {l : Location} : i.op.assigns = true → t.destination i 0 = .ok l → Targets t i l
  | pushed : i.op = .push → Targets t i (.slot t.stack.top)
  | returnAddress : i.op = .call → Targets t i (.slot t.stack.top)
  /-- The slot below the new top. -/
  | marker {f : Nat} {callee : Function} : i.op = .call → i.funcTarget 0 = .ok f →
      t.program.functions[f]? = some callee →
      Targets t i (.slot (t.stack.top + callee.locals.toNat + 1))

/-- Where an instruction leaves the top of the stack. -/
inductive MovesTop (t : Thread) (i : Instruction) : Nat → Prop
  | stays : i.op ≠ .push → i.op ≠ .pop → i.op ≠ .call → i.op ≠ .ret → MovesTop t i t.stack.top
  | push : i.op = .push → MovesTop t i (t.stack.top + 1)
  | pop {n : Nat} : i.op = .pop → n + 1 = t.stack.top → MovesTop t i n
  | call {f : Nat} {callee : Function} : i.op = .call → i.funcTarget 0 = .ok f →
      t.program.functions[f]? = some callee →
      MovesTop t i (t.stack.top + (callee.locals.toNat + 2))
  /-- A return from the frame that a run starts in. -/
  | leave {n : Nat} : i.op = .ret → t.stack.slot (t.stack.top - 1) = .null →
      n + 1 = t.stack.top → MovesTop t i n
  | close {n : Nat} {sync : Bool} {link : FrameLink} {callee : Function} : i.op = .ret →
      t.stack.slot (t.stack.top - 1) = Thread.marker sync link →
      t.program.functions[link.function]? = some callee →
      n + (callee.params.toNat + callee.locals.toNat + 2) = t.stack.top → MovesTop t i n

/-- The thread `t'` differs from `t` in what an instruction may touch. -/
structure Touches (t : Thread) (i : Instruction) (t' : Thread) : Prop where
  capacity : t'.stack.capacity = t.stack.capacity
  load : ∀ l, ¬ t.Targets i l → t'.load l = t.load l
  top : t.MovesTop i t'.stack.top
  base : t'.stack.base ≠ t.stack.base →
    i.op = .call ∨ i.op = .ret ∧ (t.stack.slot (t.stack.top - 1)).isFrameMarker = true

theorem touches_push (hop : i.op = .push) (h : t.execute i now pinned = (.ok flow, t')) :
    t.Touches i t' := by
  obtain ⟨v, s, -, hpush, -, rfl⟩ := (execute_push_eq_ok hop).1 h
  obtain ⟨-, rfl⟩ := Stack.push_eq_ok.1 hpush
  refine ⟨Stack.capacity_push hpush, fun l hl => ?_, .push hop, fun hbase => absurd rfl hbase⟩
  have hne : l ≠ .slot t.stack.top := fun he => hl (he ▸ .pushed hop)
  have hload := load_store_ne (t := t) (v := v) hne
  cases l <;> exact hload

theorem touches_pop (hop : i.op = .pop) (h : t.execute i now pinned = (.ok flow, t')) :
    t.Touches i t' := by
  obtain ⟨d, htop, hd, -, rfl⟩ := (execute_pop_eq_ok hop).1 h
  have hassigns : i.op.assigns = true := by rw [hop]; rfl
  refine ⟨store_capacity .., fun l hl => ?_, ?_, fun hbase => absurd (store_base ..) hbase⟩
  · have hne : l ≠ d := fun he => hl (he ▸ .operand hassigns hd)
    have hload := load_store_ne (t := { t with stack := t.stack.drop 1 })
      (v := t.stack.slot (t.stack.top - 1)) hne
    cases l <;> exact hload
  · rw [store_top]
    exact .pop hop (Nat.sub_add_cancel htop)

theorem touches_call (hop : i.op = .call) (h : t.execute i now pinned = (.ok flow, t')) :
    t.Touches i t' := by
  obtain ⟨f, entry, hf, -, hcall⟩ := (execute_call_eq_ok hop).1 h
  obtain ⟨callee, hcallee, -, -, rfl⟩ := call_eq_ok.1 hcall
  refine ⟨Stack.capacity_framed .., fun l hl => ?_, ?_, fun _ => .inl hop⟩
  · cases l with
    | slot j =>
      have haddress : t.stack.top ≠ j := fun he => hl (he ▸ .returnAddress hop)
      have hmarker : t.stack.top + callee.locals.toNat + 1 ≠ j := fun he =>
        hl (he ▸ .marker hop hf hcallee)
      show (t.stack.framed _ _ _).slot j = _
      rw [Stack.slot_framed, Stack.slot_setSlot_ne hmarker, Stack.slot_setSlot_ne haddress]
      rfl
    | returnValue => rfl
  · rw [Stack.top_framed, Nat.add_assoc]
    exact .call hop hf hcallee

theorem touches_ret (hop : i.op = .ret) (h : t.execute i now pinned = (.ok flow, t')) :
    t.Touches i t' := by
  obtain ⟨htop, ⟨hnull, -, rfl⟩ | ⟨sync, link, hmarker, hclose⟩⟩ :=
    ret_eq_ok ((execute_ret hop).symm.trans h)
  · refine ⟨rfl, fun l _ => by cases l <;> rfl, ?_, fun hbase => absurd rfl hbase⟩
    exact .leave hop hnull (Nat.sub_add_cancel htop)
  · obtain ⟨callee, target, hcallee, -, hle, -, rfl⟩ := close_eq_ok.1 hclose
    have hfits : callee.params.toNat + 1 + callee.locals.toNat ≤ t.stack.top - 1 := hle
    refine ⟨rfl, fun l _ => by cases l <;> rfl, .close hop hmarker hcallee ?_, fun _ => ?_⟩
    · show t.stack.top - 1 - (callee.params.toNat + 1 + callee.locals.toNat) + _ = _
      omega
    · refine .inr ⟨hop, ?_⟩
      rw [hmarker]
      cases sync <;> rfl

/-- An instruction that meets no fault touches what its operands name and nothing else. -/
theorem touches_execute (h : t.execute i now pinned = (.ok flow, t')) : t.Touches i t' := by
  by_cases hpush : i.op = .push
  · exact touches_push hpush h
  by_cases hpop : i.op = .pop
  · exact touches_pop hpop h
  by_cases hcall : i.op = .call
  · exact touches_call hcall h
  by_cases hret : i.op = .ret
  · exact touches_ret hret h
  have htop : t.MovesTop i t.stack.top := .stays hpush hpop hcall hret
  cases does_of_execute h with
  | @write d v hcomputation =>
    refine ⟨store_capacity .., fun l hl => load_store_ne fun he => hl ?_, ?_,
      fun hbase => absurd (store_base ..) hbase⟩
    · rw [he]
      exact .operand (assigns_of_computation hcomputation) (destination_of_computation hcomputation)
    · rwa [store_top]
  | push hop => exact absurd hop hpush
  | pop hop => exact absurd hop hpop
  | call hop => exact absurd hop hcall
  | ret hop => exact absurd hop hret
  | _ => exact ⟨rfl, fun l _ => by cases l <;> rfl, htop, fun hbase => absurd rfl hbase⟩

/-- Moving the instruction pointer touches nothing. -/
theorem Touches.settle (h : t.Touches i t') (ip : Nat) (flow : Flow) :
    t.Touches i (t'.settle ip flow) where
  capacity := h.capacity
  load l hl := by
    rw [← h.load l hl]
    cases l <;> rfl
  top := h.top
  base := h.base

end Thread

namespace Machine

variable {κ μ : Type} {m m' : Machine κ μ} {id : ThreadId} {t : Thread} {now : UInt64}
  {invoke : Invoke κ μ} {i : Instruction} {flow : Flow}

/-- **Instructions write where their operands say.** An instruction that calls no host function and
meets no fault changes its thread and no other. Of the thread's slots and its return value it has
written at most the locations that it targets: the one that its first operand named before, also if
the value that it popped or wrote says where that is; the slot at the top of the stack, if it is a
push; the slots of the return address and the marker, if it is a call; and none if it is a jump, a
return, a pause or an exit. The top moves by one for a push or a pop and by whole frames for calls
and returns, the base only with frames, and the capacity never. -/
theorem touches_step (ht : m.thread? id = some t) (hi : t.instruction? t.ip = some i)
    (hop : i.op ≠ .callHost) (h : m.step invoke id now = some (.ok flow, m')) :
    ∃ t', Alters id t' m m' ∧ t.Touches i t' := by
  cases advances_of_step h with
  | unloaded hnone => cases ht.symm.trans hnone
  | own hu hj _ hexec halters =>
    cases ht.symm.trans hu
    cases hi.symm.trans hj
    exact ⟨_, halters, (Thread.touches_execute hexec).settle _ _⟩
  | host hu hj hhost _ _ _ =>
    cases ht.symm.trans hu
    cases hi.symm.trans hj
    exact absurd hhost hop

/-- A thread that is about to pop a value to the slot that this value names. -/
def popping : Thread where
  program := { instructions := #[⟨.pop, [.relStackIndex 0 1]⟩] }
  stack := { slots := #[.int 5, .int 0], top := 2, base := 0 }
  priority := .low
  timeslice := 0
  running := true

theorem touches_step_popping :
    ∃ m' t', (callingBack .roundRobin popping).step (fun _ _ _ => none) 0 0 =
        some (.ok .next, m') ∧
      Alters 0 t' (callingBack .roundRobin popping) m' ∧ t'.stack.top = 1 ∧ t'.stack.base = 0 ∧
      ∀ l, l ≠ .slot 0 → t'.load l = popping.load l := by
  have hran : ((callingBack .roundRobin popping).step (fun _ _ _ => none) 0 0).map Prod.fst =
      some (.ok .next) := by
    decide +kernel
  obtain ⟨⟨_, m'⟩, hstep, rfl⟩ := Option.map_eq_some_iff.1 hran
  let i : Instruction := ⟨.pop, [.relStackIndex 0 1]⟩
  have hi : popping.instruction? popping.ip = some i := rfl
  obtain ⟨t', halters, htouches⟩ := touches_step rfl hi (by decide) hstep
  have hbase : ¬ t'.stack.base ≠ popping.stack.base := fun hne =>
    (htouches.base hne).elim (by decide) fun hret => absurd hret.1 (by decide)
  refine ⟨m', t', hstep, halters, ?_, Classical.not_not.1 hbase, fun l hl => htouches.load l ?_⟩
  · have hmoves := htouches.top
    generalize t'.stack.top = top at hmoves ⊢
    cases hmoves with
    | pop _ hn => exact Nat.succ.inj hn
    | stays _ hpop => exact absurd rfl hpop
    | push hop | call hop | leave hop | close hop => cases hop
  · rintro (⟨-, hd⟩ | ⟨⟨⟩⟩ | ⟨⟨⟩⟩ | ⟨⟨⟩, -, -⟩)
    exact hl (Except.ok.inj hd).symm

end Machine
end ScriptMachine
