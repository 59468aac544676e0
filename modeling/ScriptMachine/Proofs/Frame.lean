import ScriptMachine.Proofs.Instruction

/-!
# What calls and returns do

A call that succeeds writes two slots, the return address at the old top and the marker below
the new one, and a return that succeeds finds the two again. The lemmas here give both in
closed form, with the sizes added up.
-/

namespace ScriptMachine

/-- The stack after a call: a return address, the locals of the callee, and a marker. -/
def Stack.framed (s : Stack) (callee : Function) (returnTo : Nat) (marker : Value) : Stack :=
  { (s.setSlot s.top (.instrIndex returnTo)).setSlot (s.top + callee.locals.toNat + 1) marker with
    top := s.top + callee.locals.toNat + 2, base := s.top + callee.locals.toNat + 2 }

namespace Stack

variable (s : Stack) (callee : Function) (returnTo : Nat) (marker : Value)

@[simp] theorem top_framed :
    (s.framed callee returnTo marker).top = s.top + callee.locals.toNat + 2 := rfl

@[simp] theorem base_framed :
    (s.framed callee returnTo marker).base = s.top + callee.locals.toNat + 2 := rfl

@[simp] theorem capacity_framed :
    (s.framed callee returnTo marker).capacity = s.capacity := by
  simp [framed, capacity, setSlot]

theorem slot_framed (j : Nat) :
    (s.framed callee returnTo marker).slot j =
      ((s.setSlot s.top (.instrIndex returnTo)).setSlot (s.top + callee.locals.toNat + 1)
        marker).slot j := rfl

theorem mem_slots_framed {v : Value} (h : v ∈ (s.framed callee returnTo marker).slots) :
    v = marker ∨ v = .instrIndex returnTo ∨ v ∈ s.slots := by
  rcases mem_slots_setSlot (s := s.setSlot s.top (.instrIndex returnTo)) h with h | h
  · exact .inl h
  · exact .inr (mem_slots_setSlot h)

end Stack

namespace Thread

variable {t t' : Thread} {f returnTo entry : Nat} {sync : Bool}

/-! ## Calls -/

/-- A call succeeds if the callee exists and its frame fits. -/
theorem call_eq_ok :
    t.call f returnTo sync = (.ok entry, t') ↔
      ∃ callee, t.program.functions[f]? = some callee ∧ callee.entry = entry ∧
        t.stack.top + callee.locals.toNat + 2 ≤ t.stack.capacity ∧
        t' = { t with
          stack := t.stack.framed callee returnTo (marker sync ⟨f, t.stack.base⟩) } := by
  simp only [call]
  cases hf : t.program.functions[f]? with
  | none => simp
  | some callee =>
    cases hp : t.stack.push (.instrIndex returnTo) with
    | error fault =>
      obtain ⟨hfull, -⟩ := Stack.push_eq_error.1 hp
      simp only [Option.some.injEq, Prod.mk.injEq, reduceCtorEq, false_and, false_iff,
        not_exists, not_and]
      rintro _ rfl _ hfits
      omega
    | ok s =>
      have hcap : s.capacity = t.stack.capacity := Stack.capacity_push hp
      obtain ⟨hroom, hs⟩ := Stack.push_eq_ok.1 hp
      have htop : s.top = t.stack.top + 1 := by rw [hs]
      cases hq : s.pushFrame (callee.locals.toNat + 1) with
      | error fault =>
        obtain ⟨hfull, -⟩ := Stack.pushFrame_eq_error.1 hq
        simp only [hq, Option.some.injEq, Prod.mk.injEq, reduceCtorEq, false_and, false_iff,
          not_exists, not_and]
        rintro _ rfl _ hfits
        omega
      | ok s' =>
        obtain ⟨hfits, hs'⟩ := Stack.pushFrame_eq_ok.1 hq
        have hle : t.stack.top + callee.locals.toNat + 2 ≤ t.stack.capacity := by omega
        have hframed : ∀ m, s'.setSlot (s'.top - 1) m = t.stack.framed callee returnTo m := by
          intro m
          have htop' : s'.top = t.stack.top + callee.locals.toNat + 2 := by
            rw [hs']
            simp only
            omega
          have hbase' : s'.base = t.stack.top + callee.locals.toNat + 2 := by
            rw [← htop', hs']
          have hslots : s'.slots = (t.stack.setSlot t.stack.top (.instrIndex returnTo)).slots := by
            rw [hs', hs]
          rw [Stack.framed, Stack.setSlot, Stack.setSlot, htop', hbase', hslots]
          rfl
        simp only [hq, hframed, Option.some.injEq, Prod.mk.injEq, Except.ok.injEq,
          exists_eq_left', hle, true_and, eq_comm (a := t')]

/-- A call that fails leaves everything but the slot of the return address and the top. -/
theorem call_eq_error {fault : Fault} (h : t.call f returnTo sync = (.error fault, t')) :
    (t.program.functions[f]? = none ∧ fault = .noSuchFunction ∧ t' = t) ∨
      fault = .stackOverflow t.stack.capacity ∧
        (t' = t ∨ ∃ s, t.stack.push (.instrIndex returnTo) = .ok s ∧
          t' = { t with stack := s }) := by
  simp only [call] at h
  cases hf : t.program.functions[f]? with
  | none =>
    rw [hf] at h
    cases h
    exact .inl ⟨rfl, rfl, rfl⟩
  | some callee =>
    rw [hf] at h
    right
    cases hp : t.stack.push (.instrIndex returnTo) with
    | error fault' =>
      obtain ⟨-, rfl⟩ := Stack.push_eq_error.1 hp
      rw [hp] at h
      cases h
      exact ⟨rfl, .inl rfl⟩
    | ok s =>
      simp only [hp] at h
      split at h
      · rename_i hq
        obtain ⟨-, rfl⟩ := Stack.pushFrame_eq_error.1 hq
        cases h
        exact ⟨by rw [Stack.capacity_push hp], .inr ⟨s, rfl, rfl⟩⟩
      · cases h

/-! ## Returns -/

theorem unwind_eq_ok {s s' : Stack} {callee : Function} {link : FrameLink} {target : Nat} :
    unwind s callee link = .ok (target, s') ↔
      s.peek callee.locals.toNat = .ok (.instrIndex target) ∧ callee.frameSize ≤ s.top ∧
        s' = (s.drop callee.frameSize).setBase link.callerBase := by
  simp only [unwind]
  rw [bind_eq_ok]
  constructor
  · rintro ⟨v, hv, h⟩
    split at h
    · obtain ⟨s₁, hs, h⟩ := bind_eq_ok.1 h
      obtain ⟨hle, rfl⟩ := Stack.popFrame_eq_ok.1 hs
      cases pure_eq_ok.1 h
      exact ⟨hv, hle, rfl⟩
    · cases h
  · rintro ⟨hv, hle, rfl⟩
    refine ⟨_, hv, ?_⟩
    simp only
    rw [Stack.popFrame_eq_ok.2 ⟨hle, rfl⟩]
    rfl

theorem unwind_eq_error {s : Stack} {callee : Function} {link : FrameLink} {fault : Fault}
    (h : unwind s callee link = .error fault) :
    fault = .stackUnderflow ∨ ∃ kind, fault = .badReturn kind := by
  simp only [unwind] at h
  rcases bind_eq_error.1 h with hp | ⟨v, -, h⟩
  · exact .inl (Stack.peek_eq_error.1 hp).2
  · split at h
    · rcases bind_eq_error.1 h with hp | ⟨s', -, h⟩
      · exact .inl (Stack.popFrame_eq_error.1 hp).2
      · cases h
    · exact .inr ⟨_, (throw_eq_error.1 h).symm⟩

theorem close_eq_ok {link : FrameLink} {flow : Flow} :
    t.close sync link = (.ok flow, t') ↔
      ∃ callee target, t.program.functions[link.function]? = some callee ∧
        t.stack.peek callee.locals.toNat = .ok (.instrIndex target) ∧
        callee.frameSize ≤ t.stack.top ∧ flow = returnFlow sync target ∧
        t' = { t with stack := (t.stack.drop callee.frameSize).setBase link.callerBase } := by
  simp only [close]
  cases hf : t.program.functions[link.function]? with
  | none => simp
  | some callee =>
    simp only
    constructor
    · intro h
      split at h
      · cases h
      · rename_i target s hu
        obtain ⟨hpeek, hle, rfl⟩ := unwind_eq_ok.1 hu
        cases h
        exact ⟨callee, target, rfl, hpeek, hle, rfl, rfl⟩
    · rintro ⟨_, target, h, hpeek, hle, rfl, rfl⟩
      cases h
      rw [unwind_eq_ok.2 ⟨hpeek, hle, rfl⟩]

theorem close_eq_error {link : FrameLink} {fault : Fault}
    (h : t.close sync link = (.error fault, t')) :
    t' = t ∧ (fault = .stackUnderflow ∨ (∃ kind, fault = .badReturn kind) ∨
      t.program.functions[link.function]? = none) := by
  simp only [close] at h
  split at h
  · rename_i hf
    cases h
    exact ⟨rfl, .inr (.inr hf)⟩
  · split at h
    · rename_i hu
      cases h
      refine ⟨rfl, ?_⟩
      rcases unwind_eq_error hu with hu | hu
      · exact .inl hu
      · exact .inr (.inl hu)
    · cases h

/-- With a marker on top, a return closes the frame below it. -/
theorem ret_of_marker {link : FrameLink} (htop : 0 < t.stack.top)
    (hmarker : t.stack.slot (t.stack.top - 1) = marker sync link) :
    t.ret = { t with stack := t.stack.drop 1 }.close sync link := by
  simp only [ret]
  rw [Stack.pop_eq_ok.2 ⟨htop, hmarker.symm, rfl⟩]
  cases sync <;> rfl

/-- What the marker on top of the stack was, when a return succeeds. -/
theorem ret_eq_ok {flow : Flow} (h : t.ret = (.ok flow, t')) :
    0 < t.stack.top ∧
    ((t.stack.slot (t.stack.top - 1) = .null ∧ flow = .stay ∧
        t' = { t with stack := t.stack.drop 1, running := false }) ∨
      ∃ sync link, t.stack.slot (t.stack.top - 1) = marker sync link ∧
        { t with stack := t.stack.drop 1 }.close sync link = (.ok flow, t')) := by
  unfold ret at h
  split at h
  · cases h
  · rename_i top s hpop
    obtain ⟨htop, rfl, rfl⟩ := Stack.pop_eq_ok.1 hpop
    refine ⟨htop, ?_⟩
    simp only at h
    split at h
    · rename_i link hmarker
      exact .inr ⟨false, link, hmarker, h⟩
    · rename_i link hmarker
      exact .inr ⟨true, link, hmarker, h⟩
    · rename_i hnull
      cases h
      exact .inl ⟨hnull, rfl, rfl⟩
    · cases h

/-- Why a return fails, and what it has done by then. -/
theorem ret_eq_error {fault : Fault} (h : t.ret = (.error fault, t')) :
    (t' = t ∨ 0 < t.stack.top ∧ t' = { t with stack := t.stack.drop 1 }) ∧
    (fault = .stackUnderflow ∨ (∃ kind, fault = .badReturn kind) ∨
      ∃ sync link, t.stack.slot (t.stack.top - 1) = marker sync link ∧
        t.program.functions[link.function]? = none) := by
  unfold ret at h
  split at h
  · rename_i hpop
    obtain ⟨-, rfl⟩ := Stack.pop_eq_error.1 hpop
    cases h
    exact ⟨.inl rfl, .inl rfl⟩
  · rename_i top s hpop
    obtain ⟨htop, rfl, rfl⟩ := Stack.pop_eq_ok.1 hpop
    simp only at h
    have closed (sync : Bool) {link : FrameLink}
        (hmarker : t.stack.slot (t.stack.top - 1) = marker sync link)
        (h : { t with stack := t.stack.drop 1 }.close sync link = (.error fault, t')) :
        t' = { t with stack := t.stack.drop 1 } ∧
          (fault = .stackUnderflow ∨ (∃ kind, fault = .badReturn kind) ∨
            ∃ sync link, t.stack.slot (t.stack.top - 1) = marker sync link ∧
              t.program.functions[link.function]? = none) := by
      obtain ⟨rfl, hf | hf | hf⟩ := close_eq_error h
      · exact ⟨rfl, .inl hf⟩
      · exact ⟨rfl, .inr (.inl hf)⟩
      · exact ⟨rfl, .inr (.inr ⟨sync, link, hmarker, hf⟩)⟩
    split at h
    · rename_i link hmarker
      obtain ⟨ht, hf⟩ := closed false hmarker h
      exact ⟨.inr ⟨htop, ht⟩, hf⟩
    · rename_i link hmarker
      obtain ⟨ht, hf⟩ := closed true hmarker h
      exact ⟨.inr ⟨htop, ht⟩, hf⟩
    · cases h
    · cases h
      exact ⟨.inr ⟨htop, rfl⟩, .inr (.inl ⟨_, rfl⟩)⟩

end Thread
end ScriptMachine
