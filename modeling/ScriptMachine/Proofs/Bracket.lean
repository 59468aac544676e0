import Mathlib.Data.List.Chain
import ScriptMachine.Proofs.Footprint

/-!
# Calls and their returns

A call opens a frame and its return closes it. In between the callee may run for as long as it
likes and call further functions, itself included. What it must not do is write the return
address or the marker of a frame that is still open, take away the slots of such a frame, or
return with anything left on top of it. `Run` is a run that keeps to this, with the frames that
are open before and after it, and `Linked` is what such a run preserves: every open frame is as
its call left it. From that the return of the frame finds its way back.
-/

namespace ScriptMachine

/-- A frame between its call and its return. -/
structure OpenFrame where
  /-- The top of the stack at the call. The return address is in this slot. -/
  bottom : Nat
  /-- The base of the frame. The marker is in the slot below. -/
  base : Nat
  returnTo : Nat
  link : FrameLink
  sync : Bool
deriving DecidableEq, Repr

namespace OpenFrame

/-- The frame that the call of a function opens, given the threads before and after. -/
def opened (t : Thread) (f returnTo : Nat) (sync : Bool) (after : Thread) : OpenFrame where
  bottom := t.stack.top
  base := after.stack.base
  returnTo := returnTo
  link := ⟨f, t.stack.base⟩
  sync := sync

/-- The slots that a return needs. -/
def linkage (F : OpenFrame) : List Nat := [F.bottom, F.base - 1]

/-- The base of the innermost frame: the stack must not fall below it. -/
def floor : List OpenFrame → Nat
  | [] => 0
  | F :: _ => F.base

/-- A frame is as its call left it. -/
structure Intact (F : OpenFrame) (t : Thread) : Prop where
  callee : ∃ callee, t.program.functions[F.link.function]? = some callee ∧
    F.base = F.bottom + callee.locals.toNat + 2
  address : t.stack.slot F.bottom = .instrIndex F.returnTo
  marker : t.stack.slot (F.base - 1) = Thread.marker F.sync F.link

theorem Intact.bottom_lt {F : OpenFrame} {t : Thread} (h : F.Intact t) : F.bottom + 2 ≤ F.base := by
  obtain ⟨callee, -, hbase⟩ := h.callee
  omega

/-- Changes elsewhere leave a frame intact. -/
theorem Intact.of_slots {F : OpenFrame} {t t' : Thread} (h : F.Intact t)
    (hprogram : t'.program = t.program)
    (hslots : ∀ j ∈ F.linkage, t'.stack.slot j = t.stack.slot j) : F.Intact t' where
  callee := by rw [hprogram]; exact h.callee
  address := by rw [hslots _ (by simp [linkage])]; exact h.address
  marker := by rw [hslots _ (by simp [linkage])]; exact h.marker

end OpenFrame

namespace Thread

open OpenFrame

variable {t t' t₁ t₂ : Thread} {i : Instruction} {now : UInt64} {pinned sync : Bool}
  {flow : Flow} {f returnTo entry : Nat} {F : OpenFrame} {frames frames' : List OpenFrame}
  {stored : List Nat}

/-- The open frames of a thread, the innermost one first. Each marker leads back to the base of
the frame below. -/
structure Linked (frames : List OpenFrame) (t : Thread) : Prop where
  intact : ∀ F ∈ frames, F.Intact t
  nested : frames.IsChain fun F G => F.link.callerBase = G.base ∧ G.base ≤ F.bottom
  base : ∀ F ∈ frames.head?, t.stack.base = F.base
  above : floor frames ≤ t.stack.top

/-! ## Bracketed runs -/

/-- An instruction that keeps to the discipline of calls, with the frames open before and after
it and the slots that it writes. -/
inductive Step (now : UInt64) (pinned : Bool) :
    List OpenFrame → Thread → List Nat → List OpenFrame → Thread → Prop
  /-- The instruction neither calls nor returns. -/
  | plain {frames : List OpenFrame} {t t' : Thread} {i : Instruction} {flow : Flow} :
      t.instruction? t.ip = some i → i.op ≠ .call → i.op ≠ .ret → i.op ≠ .callHost →
      t.execute i now pinned = (.ok flow, t') →
      (∀ j ∈ t.stores i, ∀ F ∈ frames, j ∉ F.linkage) → floor frames ≤ t'.stack.top →
      Step now pinned frames t (t.stores i) frames (t'.settle t.ip flow)
  | call {frames : List OpenFrame} {t t' : Thread} {i : Instruction} {flow : Flow} {f : Nat} :
      t.instruction? t.ip = some i → i.op = .call → i.funcTarget 0 = .ok f →
      t.execute i now pinned = (.ok flow, t') →
      Step now pinned frames t (t.stores i) (opened t f (t.ip + 1) false t' :: frames)
        (t'.settle t.ip flow)
  /-- The return from a frame that a call of the script opened. -/
  | ret {F : OpenFrame} {frames : List OpenFrame} {t t' : Thread} {i : Instruction}
      {flow : Flow} :
      t.instruction? t.ip = some i → i.op = .ret → F.sync = false → t.stack.top = F.base →
      t.execute i now pinned = (.ok flow, t') → floor frames ≤ t'.stack.top →
      Step now pinned (F :: frames) t [] frames (t'.settle t.ip flow)

/-- A run of a thread that keeps to the discipline of calls, with the frames open before and
after it and the slots that are written in it. -/
inductive Run : List OpenFrame → Thread → List Nat → List OpenFrame → Thread → Prop
  | refl {frames : List OpenFrame} {t : Thread} : Run frames t [] frames t
  | step {now : UInt64} {pinned : Bool} {frames frames₁ frames₂ : List OpenFrame}
      {t t₁ t₂ : Thread} {stored stored₁ : List Nat} :
      Step now pinned frames t stored frames₁ t₁ → Run frames₁ t₁ stored₁ frames₂ t₂ →
      Run frames t (stored ++ stored₁) frames₂ t₂
  /-- What is done to the thread between two of its instructions, and by the callback of a host
  call: turns, pauses, arguments, host returns. -/
  | outside {frames frames₂ : List OpenFrame} {t t₁ t₂ : Thread} {stored stored₁ : List Nat} :
      t₁.program = t.program → t₁.stack.base = t.stack.base → floor frames ≤ t₁.stack.top →
      (∀ j, j ∉ stored → t₁.stack.slot j = t.stack.slot j) →
      (∀ j ∈ stored, ∀ F ∈ frames, j ∉ F.linkage) → Run frames t₁ stored₁ frames₂ t₂ →
      Run frames t (stored ++ stored₁) frames₂ t₂

/-! ## What is preserved -/

theorem Linked.base_le (h : Linked frames t) (hF : F ∈ frames) : F.base ≤ floor frames := by
  have hnested := h.nested
  have hintact := h.intact
  clear h
  induction frames with
  | nil => cases hF
  | cons G frames ih =>
    rcases List.mem_cons.1 hF with rfl | hF
    · exact Nat.le_refl _
    · cases frames with
      | nil => cases hF
      | cons H frames =>
        obtain ⟨⟨-, hGH⟩, hnested⟩ := List.isChain_cons_cons.1 hnested
        have hH : F.base ≤ H.base :=
          ih hF hnested fun F hF => hintact F (List.mem_cons_of_mem _ hF)
        have hG := (hintact G List.mem_cons_self).bottom_lt
        simp only [floor]
        omega

/-- The linkage of every open frame is below the top. -/
theorem Linked.linkage_lt (h : Linked frames t) (hF : F ∈ frames) {j : Nat}
    (hj : j ∈ F.linkage) : j < t.stack.top := by
  have hbase := h.base_le hF
  have hfloor := h.above
  have hbottom := (h.intact F hF).bottom_lt
  simp only [linkage, List.mem_cons, List.not_mem_nil, or_false] at hj
  omega

/-- What does not touch the linkage keeps the open frames. -/
theorem Linked.of_slots (h : Linked frames t) (hprogram : t'.program = t.program)
    (hbase : t'.stack.base = t.stack.base) (hfloor : floor frames ≤ t'.stack.top)
    (hslots : ∀ F ∈ frames, ∀ j ∈ F.linkage, t'.stack.slot j = t.stack.slot j) :
    Linked frames t' where
  intact F hF := (h.intact F hF).of_slots hprogram (hslots F hF)
  nested := h.nested
  base F hF := by rw [hbase]; exact h.base F hF
  above := hfloor

/-- What is pushed is above all open frames. -/
theorem Linked.push (h : Linked frames t) {v : Value} {s : Stack} (hpush : t.stack.push v = .ok s) :
    Linked frames { t with stack := s } := by
  obtain ⟨-, rfl⟩ := Stack.push_eq_ok.1 hpush
  refine h.of_slots rfl rfl (Nat.le_succ_of_le h.above) fun F hF j hj => ?_
  have hlt := h.linkage_lt hF hj
  exact Stack.slot_setSlot_ne (s := t.stack) (by omega)

theorem Linked.drop (h : Linked frames t) {n : Nat} (hn : floor frames + n ≤ t.stack.top) :
    Linked frames { t with stack := t.stack.drop n } := by
  refine h.of_slots rfl rfl ?_ fun _ _ _ _ => rfl
  simp only [Stack.top_drop]
  omega

theorem Linked.settle (h : Linked frames t) {ip : Nat} : Linked frames (t.settle ip flow) :=
  h.of_slots rfl rfl h.above fun _ _ _ _ => rfl

/-- A call adds its frame to the open ones. -/
theorem Linked.call (h : Linked frames t) (hcall : t.call f returnTo sync = (.ok entry, t')) :
    Linked (opened t f returnTo sync t' :: frames) t' := by
  obtain ⟨callee, hf, -, hfits, rfl⟩ := call_eq_ok.1 hcall
  have hcapacity : ∀ v, (t.stack.setSlot t.stack.top v).capacity = t.stack.capacity :=
    fun v => Stack.capacity_setSlot _ _ v
  have hmarkerSlot : t.stack.top + callee.locals.toNat + 2 - 1 =
      t.stack.top + callee.locals.toNat + 1 := by omega
  refine ⟨?_, ?_, ?_, ?_⟩
  · intro G hG
    rcases List.mem_cons.1 hG with rfl | hG
    · refine ⟨⟨callee, hf, rfl⟩, ?_, ?_⟩
      · simp only [opened]
        rw [Stack.slot_framed, Stack.slot_setSlot_ne (by omega)]
        exact Stack.slot_setSlot_self (by omega)
      · simp only [opened, Stack.base_framed, hmarkerSlot]
        rw [Stack.slot_framed]
        exact Stack.slot_setSlot_self (by rw [hcapacity]; omega)
    · refine (h.intact G hG).of_slots rfl fun j hj => ?_
      have hlt := h.linkage_lt hG hj
      rw [Stack.slot_framed, Stack.slot_setSlot_ne (by omega), Stack.slot_setSlot_ne (by omega)]
  · cases frames with
    | nil => exact List.isChain_singleton _
    | cons G frames =>
      refine List.isChain_cons_cons.2 ⟨⟨h.base G rfl, h.above⟩, h.nested⟩
  · rintro G hG
    cases hG
    rfl
  · exact Nat.le_refl _

/-- The return from the innermost frame goes to its return address and leaves the base that the
caller had, or finds too few parameters. -/
theorem Linked.ret (h : Linked (F :: frames) t) (htop : t.stack.top = F.base) :
    ∃ callee, t.program.functions[F.link.function]? = some callee ∧
      t.ret = if callee.params.toNat ≤ F.bottom then
          (.ok (returnFlow F.sync F.returnTo), { t with stack := { t.stack with
            top := F.bottom - callee.params.toNat, base := F.link.callerBase } })
        else (.error .stackUnderflow, { t with stack := t.stack.drop 1 }) := by
  have hF := h.intact F List.mem_cons_self
  obtain ⟨callee, hcallee, hbase⟩ := hF.callee
  have hpeek : (t.stack.drop 1).peek callee.locals.toNat = .ok (.instrIndex F.returnTo) := by
    refine Stack.peek_eq_ok.2 ⟨?_, ?_⟩
    · rw [Stack.top_drop]
      omega
    · have hslot : t.stack.top - 1 - 1 - callee.locals.toNat = F.bottom := by omega
      rw [Stack.top_drop, Stack.slot_drop, hslot, hF.address]
  refine ⟨callee, hcallee, ?_⟩
  rw [ret_of_marker (by omega) (by rw [htop]; exact hF.marker)]
  by_cases hparams : callee.params.toNat ≤ F.bottom
  · rw [if_pos hparams, close_eq_ok]
    refine ⟨callee, F.returnTo, hcallee, hpeek, ?_, rfl, ?_⟩
    · simp only [Function.frameSize, Stack.top_drop]
      omega
    · have hdrop : t.stack.top - 1 - callee.frameSize = F.bottom - callee.params.toNat := by
        simp only [Function.frameSize]
        omega
      simp only [Stack.setBase, Stack.drop, hdrop]
  · have hshort : (t.stack.drop 1).popFrame callee.frameSize = .error .stackUnderflow := by
      refine Stack.popFrame_eq_error.2 ⟨?_, rfl⟩
      simp only [Function.frameSize, Stack.top_drop]
      omega
    rw [if_neg hparams]
    simp only [close, hcallee, unwind, hpeek, bind, Except.bind, hshort]

/-- Closing the innermost frame leaves those below it open. -/
theorem Linked.of_ret (h : Linked (F :: frames) t) (htop : t.stack.top = F.base)
    (hret : t.ret = (.ok flow, t')) (hfloor : floor frames ≤ t'.stack.top) :
    Linked frames t' := by
  obtain ⟨callee, -, hresult⟩ := h.ret htop
  rw [hret] at hresult
  split at hresult
  · obtain ⟨-, rfl⟩ := Prod.mk.inj hresult
    refine ⟨?_, h.nested.tail, ?_, hfloor⟩
    · intro G hG
      exact (h.intact G (List.mem_cons_of_mem _ hG)).of_slots rfl fun _ _ => rfl
    · cases frames with
      | nil => rintro G ⟨⟩
      | cons G frames =>
        rintro H ⟨⟩
        exact (List.isChain_cons_cons.1 h.nested).1.1
  · cases hresult

/-- A bracketed instruction keeps the open frames, and all slots that it does not write. -/
theorem Step.linked (hstep : Step now pinned frames t stored frames' t') (h : Linked frames t) :
    Linked frames' t' := by
  cases hstep with
  | plain hi hcall hret _ hexec hstores hfloor =>
    refine (h.of_slots (program_execute hexec) (base_execute hexec hcall hret) hfloor
      fun F hF j hj => slot_execute hexec fun hj' => ?_).settle
    exact hstores j hj' F hF hj
  | call hi hop hf hexec =>
    obtain ⟨f', entry, hf', -, hcall⟩ := (execute_call_eq_ok hop).1 hexec
    rw [hf] at hf'
    cases hf'
    exact (h.call hcall).settle
  | ret hi hop _ htop hexec hfloor =>
    rw [execute_ret hop] at hexec
    exact (h.of_ret htop hexec hfloor).settle

theorem Step.program (hstep : Step now pinned frames t stored frames' t') :
    t'.program = t.program := by
  cases hstep with
  | plain _ _ _ _ hexec => exact (program_execute hexec :)
  | call _ _ _ hexec => exact (program_execute hexec :)
  | ret _ _ _ _ hexec => exact (program_execute hexec :)

theorem Step.slot (hstep : Step now pinned frames t stored frames' t') {j : Nat}
    (hj : j ∉ stored) : t'.stack.slot j = t.stack.slot j := by
  cases hstep with
  | plain _ _ _ _ hexec => exact (slot_execute hexec hj :)
  | call _ _ _ hexec => exact (slot_execute hexec hj :)
  | ret _ hop _ _ hexec => exact (slot_execute hexec (by simp [stores_of_ret hop]) :)

/-- A bracketed run keeps the open frames. -/
theorem Run.linked (hrun : Run frames t stored frames' t') (h : Linked frames t) :
    Linked frames' t' := by
  induction hrun with
  | refl => exact h
  | step hstep _ ih => exact ih (hstep.linked h)
  | outside hprogram hbase hfloor hslots hstored _ ih =>
    refine ih (h.of_slots hprogram hbase hfloor fun F hF j hj => hslots j fun hj' => ?_)
    exact hstored j hj' F hF hj

theorem Run.program (hrun : Run frames t stored frames' t') : t'.program = t.program := by
  induction hrun with
  | refl => rfl
  | step hstep _ ih => rw [ih, hstep.program]
  | outside hprogram _ _ _ _ _ ih => rw [ih, hprogram]

/-- A bracketed run leaves every slot that it does not write. -/
theorem Run.slot (hrun : Run frames t stored frames' t') {j : Nat} (hj : j ∉ stored) :
    t'.stack.slot j = t.stack.slot j := by
  induction hrun with
  | refl => rfl
  | step hstep _ ih =>
    rw [List.mem_append, not_or] at hj
    rw [ih hj.2, hstep.slot hj.1]
  | outside _ _ _ hslots _ _ ih =>
    rw [List.mem_append, not_or] at hj
    rw [ih hj.2, hslots j hj.1]

/-! ## The matching return -/

@[simp] theorem ip_settle_returnFlow (t : Thread) (ip : Nat) (sync : Bool) (target : Nat) :
    (t.settle ip (returnFlow sync target)).ip = target := by
  cases sync <;> rfl

/-- **The return that matches a call undoes it.** After a bracketed run of the callee the return
goes to the address that the call was given, restores the base of the caller and takes the
parameters off the stack. If the stack never held that many, the return faults. -/
theorem return_matches_call (now : UInt64) (pinned : Bool) {callee : Function}
    (hf : t.program.functions[f]? = some callee)
    (hcall : t.call f returnTo sync = (.ok entry, t₁))
    (hrun : Run [opened t f returnTo sync t₁] { t₁ with ip := entry } stored
      [opened t f returnTo sync t₁] t₂)
    (hret : i.op = .ret) (htop : t₂.stack.top = t₁.stack.base) :
    (callee.params.toNat ≤ t.stack.top →
      ∃ t₃, t₂.execute i now pinned = (.ok (returnFlow sync returnTo), t₃) ∧
        (t₃.settle t₂.ip (returnFlow sync returnTo)).ip = returnTo ∧
        t₃.stack.base = t.stack.base ∧
        t₃.stack.top = t.stack.top - callee.params.toNat ∧
        ∀ j < t.stack.top, j ∉ stored → t₃.stack.slot j = t.stack.slot j) ∧
    (t.stack.top < callee.params.toNat →
      ∃ t₃, t₂.execute i now pinned = (.error .stackUnderflow, t₃)) := by
  have hnone : Linked [] t := ⟨by simp, List.isChain_nil, by simp, Nat.zero_le _⟩
  have hopen : Linked [opened t f returnTo sync t₁] { t₁ with ip := entry } :=
    (hnone.call hcall).of_slots rfl rfl (hnone.call hcall).above fun _ _ _ _ => rfl
  have hlinked : Linked [opened t f returnTo sync t₁] t₂ := hrun.linked hopen
  obtain ⟨callee₂, hf₂, hresult⟩ := hlinked.ret htop
  obtain ⟨called, -, -, -, hframed⟩ := call_eq_ok.1 hcall
  have hprogram : t₂.program = t.program := by
    rw [hrun.program, hframed]
  have hcallee : callee₂ = callee := by
    rw [hprogram] at hf₂
    exact Option.some.inj (hf₂.symm.trans hf)
  subst hcallee
  rw [execute_ret hret, hresult]
  constructor
  · intro hparams
    rw [if_pos (show callee₂.params.toNat ≤ (opened t f returnTo sync t₁).bottom from hparams)]
    refine ⟨_, rfl, ip_settle_returnFlow _ _ _ _, rfl, rfl, fun j hj hstored => ?_⟩
    have hkept : t₂.stack.slot j = t₁.stack.slot j := hrun.slot hstored
    have hcalled : t₁.stack.slot j = t.stack.slot j := by
      rw [hframed, Stack.slot_framed, Stack.slot_setSlot_ne (by omega),
        Stack.slot_setSlot_ne (by omega)]
    exact hkept.trans hcalled
  · intro hparams
    rw [if_neg (show ¬callee₂.params.toNat ≤ (opened t f returnTo sync t₁).bottom from
      Nat.not_le.2 hparams)]
    exact ⟨_, rfl⟩

/-- A thread whose first function pushes an argument, calls the second one and returns. -/
def nested (ip executed top base : Nat) (slots : Array Value) : Thread where
  program :=
    { instructions := #[⟨.push, [.int 7]⟩, ⟨.call, [.funcIndex 1]⟩, ⟨.ret, []⟩, ⟨.ret, []⟩]
      functions := #[⟨"outer", 0, 1, 0⟩, ⟨"inner", 3, 1, 0⟩] }
  stack := { slots, top, base }
  priority := .low
  timeslice := 0
  ip
  stats := { instructions := executed }

theorem return_matches_nested_call :
    ∃ t₂ t₃ : Thread, t₂.execute ⟨.ret, []⟩ 0 false = (.ok (.jump 3), t₃) ∧ t₂.ip = 2 ∧
      t₃.stack.base = 0 ∧ t₃.stack.top = 0 ∧ t₃.stack.slot 0 = .int 5 := by
  let start := nested 0 0 1 0 #[.int 5, .null, .null, .null, .null, .null]
  let called := nested 0 0 3 3 #[.int 5, .instrIndex 3, .callMarker ⟨0, 0⟩, .null, .null, .null]
  let pushed := nested 1 1 4 3 #[.int 5, .instrIndex 3, .callMarker ⟨0, 0⟩, .int 7, .null, .null]
  let inner := nested 3 2 6 6
    #[.int 5, .instrIndex 3, .callMarker ⟨0, 0⟩, .int 7, .instrIndex 2, .callMarker ⟨1, 3⟩]
  let returned := nested 2 3 3 3
    #[.int 5, .instrIndex 3, .callMarker ⟨0, 0⟩, .int 7, .instrIndex 2, .callMarker ⟨1, 3⟩]
  let frames := [opened start 0 3 false called]
  have push : Step 0 false frames called [3] frames pushed :=
    @Step.plain 0 false frames called { pushed with ip := 0, stats := {} } ⟨.push, [.int 7]⟩ .next
      rfl (by decide) (by decide) (by decide) rfl (by decide) (by decide)
  have call : Step 0 false frames pushed [4, 5] (opened pushed 1 2 false inner :: frames) inner :=
    @Step.call 0 false frames pushed { inner with ip := 1, stats := ⟨0, 1⟩ }
      ⟨.call, [.funcIndex 1]⟩ (.jump 3) 1 rfl rfl rfl rfl
  have ret : Step 0 false (opened pushed 1 2 false inner :: frames) inner [] frames returned :=
    @Step.ret 0 false _ frames inner { returned with ip := 3, stats := ⟨0, 2⟩ } ⟨.ret, []⟩ (.jump 2)
      rfl rfl rfl rfl rfl (by decide)
  have run : Run frames called [3, 4, 5] frames returned :=
    .step push (.step call (.step ret .refl))
  have hcall : start.call 0 3 false = (.ok 0, called) := rfl
  obtain ⟨t₃, hexec, -, hbase, htop, hslots⟩ :=
    (return_matches_call (i := ⟨.ret, []⟩) 0 false rfl hcall run rfl rfl).1 (by decide)
  exact ⟨returned, t₃, hexec, rfl, hbase, htop, hslots 0 (by decide) (by decide)⟩

end Thread
end ScriptMachine
