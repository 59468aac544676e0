import ScriptMachine.Proofs.Reachable
import ScriptMachine.Proofs.Succession

/-!
# Frames within the stack

The top of a stack is never above its capacity. The base of the current frame is where the top was
when the frame was opened, and the top comes back to it as long as a script takes off what it has
put on; but nothing holds it there. It falls below the base if a script pops what it has not
pushed, if a return leads nowhere or drops parameters that were never passed, or if the host drops
more than the frame holds. Nothing else does that (`HostProgram.frames_hold`).
-/

namespace ScriptMachine

namespace Thread

variable {t t' : Thread} {i : Instruction} {now : UInt64} {pinned : Bool}

/-- The top of the stack is not below the base of the current frame. -/
def Framed (t : Thread) : Prop := t.stack.base ≤ t.stack.top

instance (t : Thread) : Decidable t.Framed := inferInstanceAs (Decidable (_ ≤ _))

/-! ## What an instruction does to top and base -/

/-- A return that goes on nowhere: through the marker of the frame that a run starts in, or through
something that marks no frame. -/
def Strays (t : Thread) : Prop := ∀ sync target, t.ret.1 ≠ .ok (returnFlow sync target)

/-- Where an instruction moves the top and the base of the stack. -/
inductive Shifts (t : Thread) (i : Instruction) (s : Stack) : Prop
  | stays : s.top = t.stack.top → s.base = t.stack.base → Shifts t i s
  | pushes : t.stack.top < t.stack.capacity → s.top = t.stack.top + 1 →
      s.base = t.stack.base → Shifts t i s
  | pops : i.op = .pop → 0 < t.stack.top → s.top = t.stack.top - 1 → s.base = t.stack.base →
      Shifts t i s
  | enters : s.top ≤ t.stack.capacity → s.base = s.top → Shifts t i s
  | strays : i.op = .ret → t.Strays → 0 < t.stack.top → s.top = t.stack.top - 1 →
      s.base = t.stack.base → Shifts t i s
  | closes {sync : Bool} {link : FrameLink} {callee : Function} : i.op = .ret →
      t.stack.slot (t.stack.top - 1) = marker sync link →
      t.program.functions[link.function]? = some callee →
      s.top = t.stack.top - (callee.frameSize + 1) → s.base = link.callerBase → Shifts t i s

theorem shifts_ret {flow : Except Fault Flow} (hop : i.op = .ret) (h : t.ret = (flow, t')) :
    Shifts t i t'.stack ∧ t'.stack.capacity = t.stack.capacity := by
  cases flow with
  | error fault =>
    have hstrays : t.Strays := fun _ _ => by
      rw [h]
      rintro ⟨⟩
    obtain ⟨rfl | ⟨htop, rfl⟩, -⟩ := ret_eq_error h
    · exact ⟨.stays rfl rfl, rfl⟩
    · exact ⟨.strays hop hstrays htop rfl rfl, rfl⟩
  | ok flow =>
    obtain ⟨htop, ⟨-, rfl, rfl⟩ | ⟨sync, link, hmarker, hclose⟩⟩ := ret_eq_ok h
    · have hstrays : t.Strays := fun sync _ => by
        rw [h]
        cases sync <;> rintro ⟨⟩
      exact ⟨.strays hop hstrays htop rfl rfl, rfl⟩
    · obtain ⟨callee, target, hcallee, -, -, -, rfl⟩ := close_eq_ok.1 hclose
      refine ⟨.closes hop hmarker hcallee ?_ rfl, rfl⟩
      exact (Nat.sub_sub t.stack.top 1 callee.frameSize).trans (by rw [Nat.add_comm])

theorem shifts_execute {flow : Flow} (h : t.execute i now pinned = (.ok flow, t')) :
    Shifts t i t'.stack ∧ t'.stack.capacity = t.stack.capacity := by
  cases does_of_execute h with
  | nothing => exact ⟨.stays rfl rfl, rfl⟩
  | jump _ _ => exact ⟨.stays rfl rfl, rfl⟩
  | write _ => exact ⟨.stays (store_top ..) (store_base ..), store_capacity ..⟩
  | push _ _ hpush =>
    have hcapacity := Stack.capacity_push hpush
    obtain ⟨hroom, rfl⟩ := Stack.push_eq_ok.1 hpush
    exact ⟨.pushes hroom rfl rfl, hcapacity⟩
  | pop hop hpop _ =>
    obtain ⟨htop, -, rfl⟩ := Stack.pop_eq_ok.1 hpop
    exact ⟨.pops hop htop (store_top ..) (store_base ..), store_capacity ..⟩
  | call _ _ hcall =>
    obtain ⟨callee, -, -, hfits, rfl⟩ := call_eq_ok.1 hcall
    exact ⟨.enters hfits rfl, Stack.capacity_framed ..⟩
  | ret hop hret => exact shifts_ret hop hret
  | pause _ _ => exact ⟨.stays rfl rfl, rfl⟩
  | exit _ _ => exact ⟨.stays rfl rfl, rfl⟩

theorem shifts_execute_error {fault : Fault} (h : t.execute i now pinned = (.error fault, t')) :
    Shifts t i t'.stack ∧ t'.stack.capacity = t.stack.capacity := by
  cases fails_of_execute h with
  | popped hop hpop _ =>
    obtain ⟨htop, -, rfl⟩ := Stack.pop_eq_ok.1 hpop
    exact ⟨.pops hop htop rfl rfl, rfl⟩
  | call _ _ hcall =>
    obtain ⟨-, -, rfl⟩ | ⟨-, rfl | ⟨s, hpush, rfl⟩⟩ := call_eq_error hcall
    · exact ⟨.stays rfl rfl, rfl⟩
    · exact ⟨.stays rfl rfl, rfl⟩
    · have hcapacity := Stack.capacity_push hpush
      obtain ⟨hroom, rfl⟩ := Stack.push_eq_ok.1 hpush
      exact ⟨.pushes hroom rfl rfl, hcapacity⟩
  | ret hop hret => exact shifts_ret hop hret
  | _ => exact ⟨.stays rfl rfl, rfl⟩

/-- An instruction takes values off the stack that lie below the frame. -/
inductive Undercuts (t : Thread) (i : Instruction) : Prop
  | pop : i.op = .pop → t.stack.top = t.stack.base → Undercuts t i
  | ret : i.op = .ret → t.Strays → t.stack.top = t.stack.base → Undercuts t i
  /-- A return drops more parameters than its caller had pushed. -/
  | close {sync : Bool} {link : FrameLink} {callee : Function} : i.op = .ret →
      t.stack.slot (t.stack.top - 1) = marker sync link →
      t.program.functions[link.function]? = some callee →
      t.stack.top - (callee.frameSize + 1) < link.callerBase → Undercuts t i

/-- An instruction that does not undercut the frame leaves it within the stack. -/
theorem Framed.shift (ht : t.Framed) (h : Shifts t i t'.stack) :
    t'.Framed ∨ t.Undercuts i := by
  simp only [Framed] at ht ⊢
  cases h with
  | stays htop hbase => exact .inl (by omega)
  | pushes _ htop hbase => exact .inl (by omega)
  | enters _ hbase => exact .inl (Nat.le_of_eq hbase)
  | pops hop _ htop hbase =>
    by_cases heq : t.stack.top = t.stack.base
    · exact .inr (.pop hop heq)
    · exact .inl (by omega)
  | strays hop hstrays _ htop hbase =>
    by_cases heq : t.stack.top = t.stack.base
    · exact .inr (.ret hop hstrays heq)
    · exact .inl (by omega)
  | closes hop hmarker hcallee htop hbase =>
    rw [htop, hbase]
    exact (Nat.lt_or_ge _ _).symm.imp id (.close hop hmarker hcallee)

/-! ## What else happens to a thread -/

/-- The frames that a run starts with end at the top of the stack. -/
theorem openFrames_eq_ok {program : Image} {s s' : Stack} (h : openFrames program s = .ok s') :
    s'.base = s'.top ∧ s'.top ≤ s'.capacity := by
  have fits {s s' : Stack} {n : Nat} (h : s.pushFrame n = .ok s') :
      s'.base = s'.top ∧ s'.top ≤ s'.capacity := by
    obtain ⟨hfits, rfl⟩ := Stack.pushFrame_eq_ok.1 h
    exact ⟨rfl, hfits⟩
  obtain ⟨s₁, hglobals, h⟩ := bind_eq_ok.1 h
  split at h
  · exact fits h
  · cases pure_eq_ok.1 h
    exact fits hglobals

theorem framed_reset (h : t.reset = .ok t') : t'.Framed := by
  obtain ⟨s, hs, h⟩ := bind_eq_ok.1 h
  cases h
  exact Nat.le_of_eq (openFrames_eq_ok hs).1

theorem Born.framed (h : Born t) : t.Framed := by
  obtain ⟨digest, -, -, hcreate⟩ := h
  have hframed := framed_reset hcreate
  exact hframed

/-- A call opens a frame at the top of the stack. -/
theorem framed_of_call {f entry : Nat} {returnTo : Nat} {sync : Bool}
    (h : t.call f returnTo sync = (.ok entry, t')) : t'.Framed := by
  obtain ⟨callee, -, -, -, rfl⟩ := call_eq_ok.1 h
  exact Nat.le_refl _

theorem Framed.call_error {f returnTo : Nat} {sync : Bool} {fault : Fault} (ht : t.Framed)
    (h : t.call f returnTo sync = (.error fault, t')) : t'.Framed := by
  obtain ⟨-, -, rfl⟩ | ⟨-, rfl | ⟨s, hpush, rfl⟩⟩ := call_eq_error h
  · exact ht
  · exact ht
  · obtain ⟨-, rfl⟩ := Stack.push_eq_ok.1 hpush
    exact Nat.le_succ_of_le ht

/-! ## The top of the stack -/

theorem Shifts.top_le {s : Stack} (h : Shifts t i s) (ht : t.stack.top ≤ t.stack.capacity) :
    s.top ≤ t.stack.capacity := by
  cases h with
  | enters hfits _ => exact hfits
  | _ => omega

/-- The top of a stack is not above its capacity. -/
theorem invariant_top : Invariant fun t => t.stack.top ≤ t.stack.capacity where
  born h := by
    obtain ⟨digest, -, -, hcreate⟩ := h
    obtain ⟨s, hs, hcreate⟩ := bind_eq_ok.1 hcreate
    cases hcreate
    exact (openFrames_eq_ok hs).2
  move {t t'} hmove ht := by
    have pushed {v : Value} {s : Stack} (hpush : t.stack.push v = .ok s) : s.top ≤ s.capacity := by
      rw [Stack.capacity_push hpush]
      obtain ⟨hroom, rfl⟩ := Stack.push_eq_ok.1 hpush
      exact hroom
    have shifted {i : Instruction} {s : Stack}
        (h : Shifts t i s ∧ s.capacity = t.stack.capacity) : s.top ≤ s.capacity := by
      rw [h.2]
      exact h.1.top_le ht
    cases hmove with
    | reset hreset =>
      obtain ⟨s, hs, hreset⟩ := bind_eq_ok.1 hreset
      cases hreset
      exact (openFrames_eq_ok hs).2
    | pass hpush => exact pushed hpush
    | drop _ => exact Nat.le_trans (Nat.sub_le _ _) ht
    | enter hcall =>
      obtain ⟨callee, -, -, hfits, rfl⟩ := call_eq_ok.1 hcall
      rw [Stack.capacity_framed]
      exact hfits
    | refused _ hcall =>
      obtain ⟨-, -, rfl⟩ | ⟨-, rfl | ⟨s, hpush, rfl⟩⟩ := call_eq_error hcall
      · exact ht
      · exact ht
      · exact pushed hpush
    | own _ _ hexec =>
      have hexecuted := shifted (shifts_execute hexec)
      exact hexecuted
    | fault _ _ hexec =>
      have hexecuted := shifted (shifts_execute_error hexec)
      exact hexecuted
    | _ => exact ht

end Thread

/-! ## Frames from instant to instant -/

namespace Machine

variable {κ μ : Type} {m m' m'' : Machine κ μ} {id x : ThreadId} {t t' : Thread} {now : UInt64}
  {invoke : Invoke κ μ} {callbacks : Callbacks κ μ}

/-- The thread in a slot is framed if the one that was there before was, or if there was none. -/
def KeepsFrame (id : ThreadId) (m m' : Machine κ μ) : Prop :=
  ∀ t', m'.thread? id = some t' → (∀ t, m.thread? id = some t → t.Framed) → t'.Framed

namespace KeepsFrame

theorem refl (m : Machine κ μ) : KeepsFrame id m m := fun t ht hframed => hframed t ht

theorem trans (h : KeepsFrame id m m') (h' : KeepsFrame id m' m'') : KeepsFrame id m m'' :=
  fun _ ht'' hframed => h' _ ht'' fun _ ht' => h _ ht' hframed

theorem same (h : m'.threads = m.threads) : KeepsFrame id m m' := by
  intro t' ht' hframed
  rw [thread?, h] at ht'
  exact hframed t' ht'

theorem log (e : Event) : KeepsFrame id m (m.log e) := same rfl

/-- A change of one thread keeps its frame, unless it is of a kind that does not. -/
theorem alter_or {C : Prop} (ht : m.thread? x = some t) (h : Alters x t' m m')
    (hframed : t.Framed → t'.Framed ∨ C) : KeepsFrame id m m' ∨ x = id ∧ C := by
  by_cases hx : x = id
  · subst hx
    by_cases hC : C
    · exact .inr ⟨rfl, hC⟩
    · refine .inl fun u hu hall => ?_
      rw [h.thread] at hu
      cases hu
      exact (hframed (hall t ht)).resolve_right hC
  · refine .inl fun u hu hall => ?_
    rw [h.other (Ne.symm hx)] at hu
    exact hall u hu

theorem alter (ht : m.thread? x = some t) (h : Alters x t' m m') (hframed : t.Framed → t'.Framed) :
    KeepsFrame id m m' :=
  (alter_or (C := False) ht h fun hf => .inl (hframed hf)).resolve_right fun hfalse => hfalse.2

theorem modify {f : Thread → Thread} (hf : ∀ t, (f t).stack = t.stack) :
    KeepsFrame id m (m.modifyThread x f) := by
  intro u hu hall
  rw [thread?_modifyThread] at hu
  split at hu
  · obtain ⟨t, ht, rfl⟩ := Option.map_eq_some_iff.1 hu
    rw [Thread.Framed, hf]
    exact hall t ht
  · exact hall u hu

theorem onThread {f : Thread → Except CallError Thread}
    (hf : ∀ t t', f t = .ok t' → t.Framed → t'.Framed) :
    KeepsFrame id m (m.onThread x f).2 := by
  simp only [Machine.onThread]
  split
  · exact refl m
  · rename_i t ht
    split
    · rename_i t' ht'
      exact alter ht (.setThread (lt_size_of_thread? ht) t') (hf t t' ht')
    · exact refl m

theorem logged {event : Event} {r : Except CallError Unit × Machine κ μ}
    (h : KeepsFrame id m r.2) : KeepsFrame id m (Machine.logged event r).2 := by
  simp only [Machine.logged]
  split
  · exact h.trans (same rfl)
  · exact h

theorem fault (fault : Fault) : KeepsFrame id m (m.faultThread x fault) := by
  cases ht : m.thread? x with
  | none =>
    simp only [faultThread, ht]
    exact refl m
  | some t => exact alter ht (.faultThread ht fault) fun hframed => hframed

/-! ## What the host does -/

theorem place (h : t.Framed) : KeepsFrame id m (m.place x t) := by
  unfold Machine.place
  dsimp only
  split
  · intro u hu hall
    rw [thread?_setThread] at hu
    split at hu
    · cases hu
      exact h
    · exact hall u hu
  · intro u hu hall
    simp only [thread?, Array.getElem?_push] at hu
    split at hu
    · cases hu
      exact h
    · exact hall u hu

theorem loaded {programs : Image → Prop} (h : Loaded programs m m') : KeepsFrame id m m' := by
  cases h with
  | failed => exact refl m
  | placed _ ht _ => exact place ht.framed

theorem unload : KeepsFrame id m (m.unload x) := by
  simp only [Machine.unload]
  split
  · exact refl m
  · intro u hu hall
    have hremoved : (m.setThread x none).thread? id = some u := hu
    rw [thread?_setThread] at hremoved
    split at hremoved
    · cases hremoved
    · exact hall u hremoved

theorem reset : KeepsFrame id m (m.reset x).2 := by
  refine (onThread fun t t' h _ => ?_).logged
  cases hreset : t.reset with
  | error fault =>
    rw [hreset] at h
    cases h
  | ok u =>
    rw [hreset] at h
    cases h
    exact Thread.framed_reset hreset

theorem start : KeepsFrame id m (m.start x).2 := by
  have hon : KeepsFrame id m (m.onThread x fun t => .ok { t with running := true }).2 :=
    onThread fun t t' h hframed => by
      cases h
      exact hframed
  simp only [Machine.start]
  split
  · rename_i hr
    rw [hr] at hon
    exact hon
  · rename_i hr
    rw [hr] at hon
    split
    · exact hon.trans (same rfl)
    · exact hon.trans (same rfl)

theorem pass (v : HostValue) : KeepsFrame id m (m.pass x v).2 := by
  refine onThread fun t t' h hframed => ?_
  split at h
  · rename_i s hpush
    obtain ⟨-, rfl⟩ := Stack.push_eq_ok.1 hpush
    cases h
    exact Nat.le_succ_of_le hframed
  · cases h

theorem beginCall (name : String) (sync : Bool) :
    KeepsFrame id m (m.beginCall x name sync).2 := by
  simp only [Machine.beginCall]
  split
  · exact refl m
  · rename_i t ht
    have hset := Alters.setThread (m := m) (lt_size_of_thread? ht)
    split
    · exact refl m
    · split
      · rename_i hcall
        have hframed := Thread.framed_of_call hcall
        exact alter ht (hset _) fun _ => hframed
      · rename_i hcall
        exact (alter ht (hset _) fun hframed => hframed.call_error hcall).trans (fault _)

theorem pin : KeepsFrame id m (m.pin x) := by
  have hrunning : KeepsFrame id m (m.modifyThread x fun t => { t with running := true }) :=
    modify fun _ => rfl
  exact hrunning.trans (same rfl)

theorem unpin (saved : Scheduler) (wasRunning : Bool) (outcome : RunOutcome) :
    KeepsFrame id m (m.unpin x saved wasRunning outcome).2 := by
  have hgiven : KeepsFrame id m { m with scheduler := saved } := same rfl
  simp only [Machine.unpin]
  split
  · exact hgiven.trans (modify fun _ => rfl)
  · exact hgiven

/-- Dropping no more than the frame holds. -/
theorem hostReturn (params : Nat) (v : Option HostValue) :
    KeepsFrame id m (m.hostReturn x params v) ∨
      ∃ t, m.thread? id = some t ∧ x = id ∧ t.stack.top < t.stack.base + params := by
  unfold Machine.hostReturn
  split
  · exact .inl (refl m)
  · rename_i t ht
    have hset := Alters.setThread (m := m) (lt_size_of_thread? ht)
    simp only
    split
    · rename_i s hpop
      obtain ⟨-, rfl⟩ := Stack.popFrame_eq_ok.1 hpop
      refine (alter_or ht (hset _) fun _ => ?_).imp (fun h => h) fun ⟨hx, hcut⟩ =>
        ⟨t, hx ▸ ht, hx, hcut⟩
      refine (Nat.lt_or_ge t.stack.top (t.stack.base + params)).symm.imp_left fun hle => ?_
      exact Nat.le_sub_of_add_le hle
    · refine .inl (trans ?_ (fault _))
      exact alter ht (hset _) fun hframed => hframed

/-! ## Turns and instructions -/

theorem ready (now : UInt64) : KeepsFrame id m (m.ready x now).2 := by
  obtain h | h := ready_snd m x now
  · rw [h]
    exact refl m
  · rw [h]
    exact modify fun _ => rfl

theorem schedule (runnable : ThreadId) (now : UInt64) :
    KeepsFrame id m (m.schedule runnable now).2 := by
  obtain h | ⟨first, h⟩ := schedule_snd m runnable now
  · rw [h]
    exact refl m
  · rw [h]
    simp only [beginTurn]
    refine trans (trans ?_ (modify ?_)) (log _)
    · exact same rfl
    · exact fun _ => rfl

/-- A thread that executes an instruction of its own keeps its frame or undercuts it. -/
theorem step {r : Except Fault Flow} (hown : m.callback? x = none)
    (h : m.step invoke x now = some (r, m')) :
    KeepsFrame id m m' ∨ ∃ t i, m.thread? id = some t ∧ t.instruction? t.ip = some i ∧
      t.Undercuts i := by
  have executes {u u' : Thread} {i : Instruction} (hu : m.thread? x = some u)
      (hi : u.instruction? u.ip = some i) (halters : Alters x u' m m')
      (hshifts : Thread.Shifts u i u'.stack) :
      KeepsFrame id m m' ∨ ∃ t i, m.thread? id = some t ∧ t.instruction? t.ip = some i ∧
        t.Undercuts i :=
    (alter_or hu halters fun hframed => hframed.shift hshifts).imp (fun h => h)
      fun ⟨hx, hcut⟩ => ⟨u, i, hx ▸ hu, hi, hcut⟩
  cases advances_of_step h with
  | unloaded _ => exact .inl (refl m)
  | off _ _ => exact .inl (refl m)
  | own hu hi _ hexec halters => exact executes hu hi halters (Thread.shifts_execute hexec).1
  | fault hu hi _ hexec halters =>
    exact executes hu hi halters (Thread.shifts_execute_error hexec).1
  | unnamed hu _ _ _ halters => exact .inl (alter hu halters fun hframed => hframed)
  | unresolved hu _ _ _ _ halters => exact .inl (alter hu halters fun hframed => hframed)
  | @host t i call f _ hu hi hop hcall hresolve _ =>
    rw [callback?_eq_some.2 ⟨t, i, call, hu, hi, hop, hcall, hresolve, rfl⟩] at hown
    cases hown

end KeepsFrame
end Machine

section

open Machine Instant

variable {κ μ : Type} {callbacks : Callbacks κ μ} {p q : Instant κ μ} {id : ThreadId}

/-- What is about to happen takes values of a thread off its stack that lie below its frame. -/
inductive Instant.Underruns (id : ThreadId) (p : Instant κ μ) : Prop
  | executes {t : Thread} {i : Instruction} : p.machine.thread? id = some t →
      t.instruction? t.ip = some i → t.Undercuts i → Underruns id p
  | drops {t : Thread} {params : Nat} {v : Option HostValue} :
      p.begins = some (.hostReturn id params v) → p.machine.thread? id = some t →
      t.stack.top < t.stack.base + params → Underruns id p

theorem keepsFrame_of_perform {m m' : Machine κ μ} {op : HostOp κ} {answer : op.Answer}
    {fuel : Nat} (hop : op.Atomic) (h : m.perform callbacks fuel op = some (answer, m')) :
    KeepsFrame id m m' ∨ Underruns id { machine := m, begins := some op } := by
  cases fuel with
  | zero => cases h
  | succ fuel =>
    cases op with
    | load image priority => exact .inl (of_answer h (.loaded (loaded_load m image priority)))
    | loadFile contents priority =>
      exact .inl (of_answer h (.loaded (loaded_loadFile m contents priority)))
    | unload x => exact .inl (of_answer h .unload)
    | reset x => exact .inl (of_answer h .reset)
    | start x => exact .inl (of_answer h .start)
    | stop x =>
      exact .inl (of_answer h (KeepsFrame.onThread fun t t' h hframed => by
        cases h
        exact hframed).logged)
    | pause x ms =>
      have hread : KeepsFrame id m m.now.2 := .same rfl
      exact .inl (of_answer h (hread.trans (.onThread fun t t' h hframed => by
        cases h
        exact hframed)))
    | unpause x =>
      exact .inl (of_answer h (.onThread fun t t' h hframed => by
        cases h
        exact hframed))
    | invoke x name => exact .inl (of_answer h (.beginCall name false))
    | pass x v => exact .inl (of_answer h (.pass v))
    | hostReturn x params v =>
      cases h
      refine (KeepsFrame.hostReturn params v).imp_right ?_
      rintro ⟨t, ht, rfl, hcut⟩
      exact .drops rfl ht hcut
    | run | call => exact hop.elim
    | shutdown =>
      refine .inl (of_answer h fun u hu => ?_)
      simp [Machine.shutdown, thread?, Machine.log, Machine.emit] at hu
    | _ => exact .inl (of_answer h (.same rfl))

/-- From an instant to the next one, a thread keeps its frame unless its stack is underrun. -/
theorem Instant.Next.keepsFrame (h : Next callbacks p q) (id : ThreadId) :
    KeepsFrame id p.machine q.machine ∨ Underruns id p := by
  cases h with
  | idle => exact .inl (.refl _)
  | begins op => exact .inl (.refl _)
  | remember f => exact .inl (.same rfl)
  | performed hop hperform => exact keepsFrame_of_perform hop hperform
  | run => exact .inl (.same rfl)
  | @refused x name e m m' hbegin =>
    have hset : KeepsFrame id m (m.beginCall x name true).2 := .beginCall name true
    rw [hbegin] at hset
    exact .inl hset
  | @called x name m m₁ hbegin =>
    have hset : KeepsFrame id m (m.beginCall x name true).2 := .beginCall name true
    rw [hbegin] at hset
    exact .inl ((hset.trans .pin).trans (.same rfl))
  | returned wasRunning _ => exact .inl (.unpin _ wasRunning _)
  | @turn runnable m _ =>
    have hread : KeepsFrame id m m.now.2 := .same rfl
    exact .inl (hread.trans (.schedule runnable _))
  | wakes x now => exact .inl (.ready now)
  | executed hown hstep =>
    exact (KeepsFrame.step hown hstep).imp_right fun ⟨t, i, ht, hi, hcut⟩ => .executes ht hi hcut
  | @faulted x now fault fuel m m' hown hstep =>
    exact (KeepsFrame.step hown hstep).imp (fun hstep => hstep.trans (.fault fault))
      fun ⟨t, i, ht, hi, hcut⟩ => .executes ht hi hcut
  | entered hcallback =>
    obtain ⟨t, i, call, ht, -, -, -, -, rfl⟩ := callback?_eq_some.1 hcallback
    exact .inl (.alter ht (entering_alters ht i) fun hframed => hframed)
  | left x ip => exact .inl (.modify fun _ => rfl)

/-! ## Frames in the course of a timeline -/

/-- The threads keep their invariants throughout. -/
theorem HostProgram.timeline_threads {P : Thread → Prop} (hP : Thread.Invariant P) {α : Type}
    {fuel : Nat} {program : HostProgram κ μ α} {config : Config} {clock : Clock} {memory : μ}
    (hq : q ∈ program.timeline callbacks fuel (create config clock memory)) :
    Threads P q.machine := by
  refine (next_timeline callbacks fuel program _).induction (fun q => Threads P q.machine) _
    (fun _ _ hnext hp => hp.evolves hP (.single hnext.changes)) (fun _ j t ht => ?_) q hq
  have hnone := thread?_create (κ := κ) config clock memory j
  cases hnone.symm.trans ht

/-- A thread that is not framed has been underrun, and has not been framed since. -/
theorem exists_underrun {instants : List (Instant κ μ)} {t : Thread}
    (hchain : (instants ++ [q]).IsChain (Next callbacks))
    (hfirst : ∀ p ∈ (instants ++ [q]).head?, p.machine.thread? id = none)
    (ht : q.machine.thread? id = some t) (hbroken : ¬ t.Framed) :
    ∃ before a b since, instants ++ [q] = before ++ a :: b :: since ∧ Underruns id a ∧
      (∀ u, a.machine.thread? id = some u → u.Framed) ∧
      ∀ c ∈ b :: since, ∃ u, c.machine.thread? id = some u ∧ ¬ u.Framed := by
  have hstep {a b : Instant κ μ} (hnext : Next callbacks a b)
      (hb : ∃ u, b.machine.thread? id = some u ∧ ¬ u.Framed) :
      (Underruns id a ∧ ∀ u, a.machine.thread? id = some u → u.Framed) ∨
        ∃ u, a.machine.thread? id = some u ∧ ¬ u.Framed := by
    refine or_iff_not_imp_right.2 fun hnone => ?_
    have hframed : ∀ u, a.machine.thread? id = some u → u.Framed := fun u hu =>
      Decidable.byContradiction fun hunframed => hnone ⟨u, hu, hunframed⟩
    obtain ⟨u, hu, hunframed⟩ := hb
    exact ⟨(hnext.keepsFrame id).resolve_left fun hkeeps => hunframed (hkeeps u hu hframed),
      hframed⟩
  have hfirst' : ∀ c ∈ (instants ++ [q]).head?,
      ¬ ∃ u, c.machine.thread? id = some u ∧ ¬ u.Framed := by
    rintro c hc ⟨u, hu, -⟩
    rw [hfirst c hc] at hu
    cases hu
  obtain ⟨before, a, b, since, heq, -, ⟨hunderrun, hframed⟩, hsince⟩ :=
    exists_step_since (P := fun c => ∃ u, c.machine.thread? id = some u ∧ ¬ u.Framed) hstep hchain
      hfirst' ⟨t, ht, hbroken⟩
  exact ⟨before, a, b, since, heq, hunderrun, hframed, hsince⟩

/-- **Frames stay within the stack.** Whatever a host and its callbacks do, at every instant the
top of the stack of a thread is not above its capacity, nor is the base of the current frame, if
the program has only operands that can be written in an executable. The base is not above the top
either, unless values have been taken from below the frame: by a pop, by a return, or by the host;
and then it has been above the top ever since. -/
theorem HostProgram.frames_hold {α : Type} {fuel : Nat} {program : HostProgram κ μ α}
    {config : Config} {clock : Clock} {memory : μ} {before after : List (Instant κ μ)}
    {t : Thread}
    (h : program.timeline callbacks fuel (create config clock memory) = before ++ q :: after)
    (ht : q.machine.thread? id = some t) :
    t.stack.top ≤ t.stack.capacity ∧
      (t.program.Tagged → t.stack.base ≤ t.stack.capacity) ∧
      (t.stack.base ≤ t.stack.top ∨
        ∃ earlier a b since, before ++ [q] = earlier ++ a :: b :: since ∧ Underruns id a ∧
          (∀ u, a.machine.thread? id = some u → u.stack.base ≤ u.stack.top) ∧
          ∀ c ∈ b :: since, ∃ u, c.machine.thread? id = some u ∧ u.stack.top < u.stack.base) := by
  have hmem : q ∈ program.timeline callbacks fuel (create config clock memory) := by
    rw [h]
    exact List.mem_append_right _ List.mem_cons_self
  refine ⟨timeline_threads Thread.invariant_top hmem id t ht, fun htagged => ?_, ?_⟩
  · have hsound := (timeline_threads Thread.invariant_sound hmem id t ht).2 htagged
    exact hsound.stack.base
  · refine or_iff_not_imp_left.2 fun hbroken => ?_
    have hchain := next_timeline callbacks fuel program (create config clock memory)
    rw [h, List.isChain_split] at hchain
    have hfirst : ∀ p ∈ (before ++ [q]).head?, p.machine.thread? id = none := by
      intro p hp
      rw [eq_of_head? h hp]
      exact thread?_create config clock memory id
    obtain ⟨earlier, a, b, since, heq, hunderrun, hframed, hsince⟩ :=
      exists_underrun hchain.1 hfirst ht hbroken
    refine ⟨earlier, a, b, since, heq, hunderrun, hframed, fun c hc => ?_⟩
    obtain ⟨u, hu, hunframed⟩ := hsince c hc
    exact ⟨u, hu, Nat.lt_of_not_le hunframed⟩

/-- A program that returns from the frame that its run starts in. -/
def leaving : Image where
  stackSize := 8
  globals := 2
  main := some 0
  instructions := #[⟨.ret, []⟩]
  functions := #[⟨"_Main", 0, 0, 0⟩]

theorem run_leaving :
    ∃ m t, (loadAndRun leaving).run (perform (fun _ _ => .pure ()) 9)
        (create {} (.ticking 0) ()) = some ((), m) ∧ m.thread? 0 = some t ∧
      (t.program, t.stack.top, t.stack.base) = (leaving, 2, 3) :=
  exists_of_loadAndRun (by decide +kernel)

/-- Its stack is underrun, and by then the base was within the stack. -/
theorem frames_hold_leaving :
    ∃ before q t, (loadAndRun leaving).timeline (fun _ _ => .pure ()) 9
        (create {} (.ticking 0) ()) = before ++ [q] ∧ q.machine.thread? 0 = some t ∧
      t.stack.top = 2 ∧ t.stack.base = 3 ∧ t.stack.base ≤ t.stack.capacity ∧
      ∃ earlier a b since, before ++ [q] = earlier ++ a :: b :: since ∧ Underruns 0 a ∧
        (∀ u, a.machine.thread? 0 = some u → u.stack.base ≤ u.stack.top) ∧
        ∀ c ∈ b :: since, ∃ u, c.machine.thread? 0 = some u ∧ u.stack.top < u.stack.base := by
  obtain ⟨m, t, hrun, ht, hthread⟩ := run_leaving
  simp only [Prod.mk.injEq] at hthread
  obtain ⟨hprogram, htop, hbase⟩ := hthread
  obtain ⟨q, hlast, rfl⟩ := Option.map_eq_some_iff.1 (HostProgram.getLast?_timeline hrun)
  have hsplit := (List.dropLast_append_getLast? q hlast).symm
  have htagged : t.program.Tagged := by
    rw [hprogram, Image.Tagged]
    decide
  obtain ⟨-, hwithin, hframes⟩ := HostProgram.frames_hold hsplit ht
  have habove : ¬ t.stack.base ≤ t.stack.top := by omega
  exact ⟨_, q, t, hsplit, ht, htop, hbase, hwithin htagged, hframes.resolve_left habove⟩

/-- A program that returns through a marker of its own making, which says that the frame of the
caller began far above the stack. -/
def relocating : Image where
  stackSize := 8
  main := some 0
  instructions := #[⟨.push, [.instrIndex 3]⟩, ⟨.push, [.callMarker ⟨1, 100⟩]⟩, ⟨.ret, []⟩,
    ⟨.exit, [.int 0]⟩]
  functions := #[⟨"_Main", 0, 0, 0⟩, ⟨"function", 3, 0, 0⟩]

theorem run_relocating :
    ∃ m t, (loadAndRun relocating).run (perform (fun _ _ => .pure ()) 9)
        (create {} (.ticking 0) ()) = some ((), m) ∧ m.thread? 0 = some t ∧
      (t.stack.base, t.stack.capacity) = (100, 8) :=
  exists_of_loadAndRun (by decide +kernel)

/-- The base of a frame may be above the top of the stack, and above its capacity if the program
has a marker among its operands. -/
theorem base_above_top :
    (∃ (m : Machine Unit Unit) (t : Thread), Reachable (fun _ _ => .pure ()) m ∧
      m.thread? 0 = some t ∧ t.program = leaving ∧ t.stack.top < t.stack.base) ∧
    ∃ (m : Machine Unit Unit) (t : Thread), Reachable (fun _ _ => .pure ()) m ∧
      m.thread? 0 = some t ∧ t.stack.capacity < t.stack.base := by
  have hcreated : Reachable (fun _ _ => .pure ())
      (create {} (.ticking 0) () : Machine Unit Unit) :=
    .create {} (.ticking 0) ()
  constructor
  · obtain ⟨m, t, hrun, ht, hthread⟩ := run_leaving
    simp only [Prod.mk.injEq] at hthread
    exact ⟨m, t, hcreated.program hrun, ht, hthread.1, by omega⟩
  · obtain ⟨m, t, hrun, ht, hthread⟩ := run_relocating
    simp only [Prod.mk.injEq] at hthread
    exact ⟨m, t, hcreated.program hrun, ht, by omega⟩

end
end ScriptMachine
