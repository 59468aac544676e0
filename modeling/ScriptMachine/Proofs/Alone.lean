import ScriptMachine.Proofs.Footprint

/-!
# Threads on their own

What a thread computes depends on nothing but the thread: the clock and whether it is pinned show
only in its pause. `Thread.proceed` executes an instruction of a thread without a machine, and
`Thread.alone` as many as are asked for. Two threads compute the same (`Thread.Same`) if they differ
in nothing but their pause and the number of their turns, which no instruction reads.
-/

namespace ScriptMachine

/-- An image without calls of the host. -/
def Image.HostFree (image : Image) : Prop :=
  ∀ i ∈ image.instructions, i.op ≠ .callHost

namespace Thread

variable {t u v : Thread} {i : Instruction} {now : UInt64} {pinned : Bool} {flow : Flow}

/-! ## What does not matter -/

/-- A thread with another pause, other statistics and another digest. -/
def veiled (t : Thread) (paused : Bool) (wakeAt : UInt64) (stats : Stats)
    (digest : Option (List UInt8)) : Thread :=
  { t with paused, wakeAt, stats, digest }

/-- A thread with another pause and other statistics. -/
def paced (t : Thread) (paused : Bool) (wakeAt : UInt64) (stats : Stats) : Thread :=
  { t with paused, wakeAt, stats }

section Veiled

variable (paused : Bool) (wakeAt : UInt64) (stats : Stats) (digest : Option (List UInt8))

@[simp] theorem stack_veiled (t : Thread) :
    (t.veiled paused wakeAt stats digest).stack = t.stack := rfl

@[simp] theorem value_veiled (t : Thread) (i : Instruction) (n : Nat) :
    (t.veiled paused wakeAt stats digest).value i n = t.value i n := rfl

@[simp] theorem intValue_veiled (t : Thread) (i : Instruction) (n : Nat) :
    (t.veiled paused wakeAt stats digest).intValue i n = t.intValue i n := rfl

@[simp] theorem destination_veiled (t : Thread) (i : Instruction) (n : Nat) :
    (t.veiled paused wakeAt stats digest).destination i n = t.destination i n := rfl

@[simp] theorem branch_veiled (t : Thread) (i : Instruction) :
    (t.veiled paused wakeAt stats digest).branch i = t.branch i := rfl

@[simp] theorem computation_veiled (t : Thread) (i : Instruction) :
    (t.veiled paused wakeAt stats digest).computation i = t.computation i := rfl

@[simp] theorem store_veiled (t : Thread) (l : Location) (v : Value) :
    (t.veiled paused wakeAt stats digest).store l v =
      (t.store l v).veiled paused wakeAt stats digest := by
  cases l <;> rfl

theorem call_veiled (t : Thread) (f returnTo : Nat) (sync : Bool) :
    (t.veiled paused wakeAt stats digest).call f returnTo sync =
      ((t.call f returnTo sync).1,
        (t.call f returnTo sync).2.veiled paused wakeAt stats digest) := by
  simp only [call, veiled]
  cases t.program.functions[f]? with
  | none => rfl
  | some callee =>
    cases t.stack.push (.instrIndex returnTo) with
    | error fault => rfl
    | ok s =>
      simp only
      cases s.pushFrame (callee.locals.toNat + 1) <;> rfl

theorem close_veiled (t : Thread) (sync : Bool) (link : FrameLink) :
    (t.veiled paused wakeAt stats digest).close sync link =
      ((t.close sync link).1, (t.close sync link).2.veiled paused wakeAt stats digest) := by
  simp only [close, veiled]
  cases t.program.functions[link.function]? with
  | none => rfl
  | some callee =>
    simp only
    cases unwind t.stack callee link <;> rfl

theorem ret_veiled (t : Thread) :
    (t.veiled paused wakeAt stats digest).ret =
      (t.ret.1, t.ret.2.veiled paused wakeAt stats digest) := by
  simp only [ret, stack_veiled]
  cases t.stack.pop with
  | error fault => rfl
  | ok r =>
    obtain ⟨top, s⟩ := r
    cases top with
    | callMarker link =>
      exact close_veiled paused wakeAt stats digest { t with stack := s } false link
    | stackBaseMarker link =>
      exact close_veiled paused wakeAt stats digest { t with stack := s } true link
    | _ => rfl

/-- No instruction but a pause reads the clock, and none the pause, the statistics or the digest of
its thread. -/
theorem execute_veiled (t : Thread) (now : UInt64) (pinned : Bool) (hop : i.op ≠ .pause) :
    (t.veiled paused wakeAt stats digest).execute i now pinned =
      ((t.execute i 0 false).1, (t.execute i 0 false).2.veiled paused wakeAt stats digest) := by
  cases hi : i.op with
  | push =>
    simp only [execute, hi, value_veiled]
    cases t.value i 0 with
    | error fault => rfl
    | ok v =>
      simp only [stack_veiled]
      cases t.stack.push v <;> rfl
  | pop =>
    simp only [execute, hi, stack_veiled]
    cases t.stack.pop with
    | error fault => rfl
    | ok r =>
      obtain ⟨v, s⟩ := r
      have hpopped : { t.veiled paused wakeAt stats digest with stack := s } =
          ({ t with stack := s } : Thread).veiled paused wakeAt stats digest := rfl
      simp only [hpopped, destination_veiled]
      cases ({ t with stack := s } : Thread).destination i 0 with
      | error fault => rfl
      | ok l => simp only [store_veiled]
  | call =>
    simp only [execute, hi]
    cases i.funcTarget 0 with
    | error fault => rfl
    | ok f =>
      simp only [call_veiled, show (t.veiled paused wakeAt stats digest).ip = t.ip from rfl]
      cases t.call f (t.ip + 1) false with
      | mk r t' => cases r <;> rfl
  | ret =>
    simp only [execute, hi]
    exact ret_veiled paused wakeAt stats digest t
  | pause => exact absurd hi hop
  | exit =>
    simp only [execute, hi, intValue_veiled]
    cases t.intValue i 0 <;> rfl
  | jmp | je | jne | jg | jl | jge | jle =>
    simp only [execute, hi, branch_veiled]
    rfl
  | _ =>
    simp only [execute, hi, computation_veiled]
    cases t.computation i with
    | error fault => rfl
    | ok r =>
      cases r with
      | none => rfl
      | some r => simp only [store_veiled]

end Veiled

/-- No instruction reads the pause or the statistics of its thread, and only a pause reads the
clock. -/
theorem execute_paced (t : Thread) (i : Instruction) (now : UInt64) (pinned : Bool)
    (paused : Bool) (wakeAt : UInt64) (stats : Stats) :
    ∃ paused' wakeAt', (t.paced paused wakeAt stats).execute i now pinned =
      ((t.execute i 0 false).1, (t.execute i 0 false).2.paced paused' wakeAt' stats) := by
  by_cases hop : i.op = .pause
  · simp only [execute, hop,
      show (t.paced paused wakeAt stats).intValue i 0 = t.intValue i 0 from rfl]
    cases t.intValue i 0 with
    | error fault => exact ⟨_, _, rfl⟩
    | ok ms =>
      cases pinned with
      | false => exact ⟨_, _, rfl⟩
      | true => exact ⟨paused, wakeAt, rfl⟩
  · refine ⟨paused, wakeAt, (execute_veiled paused wakeAt stats t.digest t now pinned hop).trans ?_⟩
    -- the digest that the instruction leaves is the one it found
    have hself := execute_veiled t.paused t.wakeAt t.stats t.digest t 0 false hop
    exact Prod.ext rfl (congrArg (fun r => r.2.paced paused wakeAt stats) hself.symm)

/-! ## Threads that compute the same -/

/-- A thread that differs from another one in its pause and its turns at most. -/
def Same (t u : Thread) : Prop :=
  ∃ paused wakeAt turns, t = u.paced paused wakeAt { u.stats with turns }

/-- A thread after an instruction at `ip`: a fault stops it. -/
def conclude (ip : Nat) : Except Fault Flow × Thread → Thread
  | (.ok flow, t) => t.settle ip flow
  | (.error fault, t) => t.stopWith fault

/-- The next instruction of a thread and what comes of it, at no particular time. -/
def next (t : Thread) : Except Fault Flow × Thread :=
  match t.instruction? t.ip with
  | none => (.error (.instructionPointer t.ip t.program.instructions.size), t)
  | some i => t.execute i 0 false

/-- Execute the next instruction without a machine. -/
def proceed (t : Thread) : Thread := conclude t.ip t.next

theorem next_of_none (hi : t.instruction? t.ip = none) :
    t.next = (.error (.instructionPointer t.ip t.program.instructions.size), t) := by
  simp only [next, hi]

theorem next_of_some (hi : t.instruction? t.ip = some i) : t.next = t.execute i 0 false := by
  simp only [next, hi]

theorem stats_execute_snd (t : Thread) (i : Instruction) (now : UInt64) (pinned : Bool) :
    (t.execute i now pinned).2.stats = t.stats := by
  cases hexec : t.execute i now pinned with
  | mk r t' =>
    cases r with
    | ok flow => exact stats_execute hexec
    | error fault => exact stats_execute_error hexec

theorem program_execute_snd (t : Thread) (i : Instruction) (now : UInt64) (pinned : Bool) :
    (t.execute i now pinned).2.program = t.program := by
  cases hexec : t.execute i now pinned with
  | mk r t' =>
    cases r with
    | ok flow => exact program_execute hexec
    | error fault => exact program_execute_error hexec

theorem program_conclude (ip : Nat) (r : Except Fault Flow × Thread) :
    (conclude ip r).program = r.2.program := by
  obtain ⟨_ | _, _⟩ := r <;> rfl

theorem program_proceed (t : Thread) : t.proceed.program = t.program := by
  rw [proceed, program_conclude, next]
  split
  · rfl
  · exact program_execute_snd t _ 0 false

namespace Same

theorem refl (t : Thread) : Same t t := ⟨t.paused, t.wakeAt, t.stats.turns, rfl⟩

theorem trans (h : Same t u) (h' : Same u v) : Same t v := by
  obtain ⟨paused, wakeAt, turns, rfl⟩ := h
  obtain ⟨_, _, _, rfl⟩ := h'
  exact ⟨paused, wakeAt, turns, rfl⟩

theorem program (h : Same t u) : t.program = u.program := by
  obtain ⟨_, _, _, rfl⟩ := h
  rfl

theorem running (h : Same t u) : t.running = u.running := by
  obtain ⟨_, _, _, rfl⟩ := h
  rfl

theorem instructions (h : Same t u) : t.stats.instructions = u.stats.instructions := by
  obtain ⟨_, _, _, rfl⟩ := h
  rfl

/-- They do the same with an instruction, whenever they execute it. -/
theorem execute (h : Same t u) (i : Instruction) (now : UInt64) (pinned : Bool) :
    (t.execute i now pinned).1 = (u.execute i 0 false).1 ∧
      Same (t.execute i now pinned).2 (u.execute i 0 false).2 := by
  obtain ⟨paused, wakeAt, turns, rfl⟩ := h
  obtain ⟨paused', wakeAt', hexec⟩ :=
    execute_paced u i now pinned paused wakeAt { u.stats with turns }
  rw [hexec]
  exact ⟨rfl, paused', wakeAt', turns, by rw [stats_execute_snd]⟩

theorem conclude (h : Same t u) (ip : Nat) (r : Except Fault Flow) :
    Same (conclude ip (r, t)) (Thread.conclude ip (r, u)) := by
  obtain ⟨paused, wakeAt, turns, rfl⟩ := h
  cases r <;> exact ⟨paused, wakeAt, turns, rfl⟩

theorem next (h : Same t u) : t.next.1 = u.next.1 ∧ Same t.next.2 u.next.2 := by
  have hall := h
  obtain ⟨paused, wakeAt, turns, rfl⟩ := h
  cases hi : u.instruction? u.ip with
  | none =>
    have hi' : (u.paced paused wakeAt { u.stats with turns }).instruction? u.ip = none := hi
    rw [next_of_none hi, next_of_none hi']
    exact ⟨rfl, hall⟩
  | some i =>
    have hi' : (u.paced paused wakeAt { u.stats with turns }).instruction? u.ip = some i := hi
    rw [next_of_some hi, next_of_some hi']
    exact hall.execute i 0 false

theorem proceed (h : Same t u) : Same t.proceed u.proceed := by
  obtain ⟨hflow, hsame⟩ := h.next
  have hip : t.ip = u.ip := by
    obtain ⟨_, _, _, rfl⟩ := h
    rfl
  rw [Thread.proceed, Thread.proceed, hip]
  have hconclude := hsame.conclude u.ip t.next.1
  rw [show (t.next.1, u.next.2) = u.next from Prod.ext hflow rfl] at hconclude
  exact hconclude

/-- What an instruction does to a thread in a machine, it does to the same thread without one. -/
theorem own (hi : t.instruction? t.ip = some i) {r : Except Fault Flow} {t' : Thread}
    (hexec : t.execute i now pinned = (r, t')) :
    Same (Thread.conclude t.ip (r, t')) t.proceed := by
  obtain ⟨hflow, hsame⟩ := (refl t).execute i now pinned
  rw [hexec] at hflow hsame
  have hnext : t.next = (r, (t.execute i 0 false).2) :=
    (next_of_some hi).trans (Prod.ext hflow.symm rfl)
  rw [Thread.proceed, hnext]
  exact hsame.conclude t.ip r

end Same

/-! ## A thread that goes on alone -/

/-- Execute instructions as long as the thread is running, `n` of them at most. -/
def alone : Nat → Thread → Thread
  | 0, t => t
  | n + 1, t => if (alone n t).running then (alone n t).proceed else alone n t

/-- A thread that comes from another one by some of its instructions. -/
def Follows (t u : Thread) : Prop := ∃ n, Same t (alone n u)

namespace Follows

theorem of_same (h : Same t u) : Follows t u := ⟨0, h⟩

/-- One more instruction. -/
theorem proceed (h : Follows t u) (hrunning : t.running = true) (hv : Same v t.proceed) :
    Follows v u := by
  obtain ⟨n, h⟩ := h
  refine ⟨n + 1, ?_⟩
  rw [alone, if_pos (by rw [← h.running, hrunning])]
  exact hv.trans h.proceed

theorem same (h : Follows t u) (hv : Same v t) : Follows v u := by
  obtain ⟨n, h⟩ := h
  exact ⟨n, hv.trans h⟩

theorem trans (h : Follows t u) (h' : Follows v t) : Follows v u := by
  obtain ⟨n, h'⟩ := h'
  induction n generalizing v with
  | zero => exact h.same h'
  | succ n ih =>
    rw [alone] at h'
    have hn : Follows (alone n t) u := ih (.refl _)
    split at h'
    · rename_i hrunning
      exact hn.proceed hrunning h'
    · exact hn.same h'

theorem program (h : Follows t u) : t.program = u.program := by
  obtain ⟨n, h⟩ := h
  rw [h.program]
  clear h
  induction n with
  | zero => rfl
  | succ n ih =>
    rw [alone]
    split
    · rw [program_proceed, ih]
    · exact ih

end Follows

/-- An instruction is counted unless it meets a fault, which stops the thread. -/
theorem instructions_proceed (t : Thread) :
    (∃ flow, t.next.1 = .ok flow) ∧
        t.proceed.stats.instructions = t.stats.instructions + 1 ∨
      (∃ fault, t.next.1 = .error fault) ∧ t.proceed.running = false ∧
        t.proceed.stats.instructions = t.stats.instructions := by
  have hstats : t.next.2.stats = t.stats := by
    rw [next]
    split
    · rfl
    · exact stats_execute_snd t _ 0 false
  rw [proceed]
  cases hnext : t.next with
  | mk r t' =>
    rw [hnext] at hstats
    cases r with
    | ok flow => exact .inl ⟨⟨flow, rfl⟩, by rw [← hstats]; rfl⟩
    | error fault => exact .inr ⟨⟨fault, rfl⟩, rfl, by rw [← hstats]; rfl⟩

/-- A thread that goes on alone completes its instructions one by one, or has met a fault after
the last one. -/
theorem alone_eq (t : Thread) (n : Nat) :
    ∃ k, (alone n t).stats.instructions = t.stats.instructions + k ∧
      (alone n t = alone k t ∨
        (alone k t).running = true ∧ (∃ fault, (alone k t).next.1 = .error fault) ∧
          alone n t = (alone k t).proceed) := by
  induction n with
  | zero => exact ⟨0, rfl, .inl rfl⟩
  | succ n ih =>
    obtain ⟨k, hcount, hk⟩ := ih
    rw [alone]
    by_cases hrunning : (alone n t).running = true
    · rw [if_pos hrunning]
      obtain hk | ⟨-, ⟨fault, hfault⟩, hk⟩ := hk
      · rw [hk] at hcount hrunning ⊢
        rcases instructions_proceed (alone k t) with ⟨-, hone⟩ | ⟨hfault, -, hnone⟩
        · refine ⟨k + 1, by rw [hone, hcount, Nat.add_assoc], .inl ?_⟩
          rw [alone, if_pos hrunning]
        · exact ⟨k, by rw [hnone, hcount], .inr ⟨hrunning, hfault, rfl⟩⟩
      · rcases instructions_proceed (alone k t) with ⟨⟨flow, hflow⟩, -⟩ | ⟨-, hstopped, -⟩
        · rw [hfault] at hflow
          cases hflow
        · rw [hk, hstopped] at hrunning
          cases hrunning
    · rw [if_neg hrunning]
      exact ⟨k, hcount, hk⟩

end Thread
end ScriptMachine
