import ScriptMachine.Proofs.Running

/-!
# Pauses

A paused thread waits until the clock shows the end of its pause to a cycle that selects it. Until
then it executes nothing and stays as it is, whatever other threads and their callbacks do, unless
the host operates on it or waits for a synchronous call of it (`Point.Ensues.waiting`). In the first
cycle that selects it and sees that the pause is over, it wakes and executes the instruction it
stands at (`HostProgram.exists_executes`).
-/

namespace ScriptMachine

open Machine Point

/-- The host is about to operate on a thread. -/
def Act.Addresses {κ : Type} (id : ThreadId) : Act κ → Prop
  | begins op => op.Addresses id
  | rests | selects .. | executes .. => False

/-- The host operates on a thread, or waits for a synchronous call of it. -/
def Point.Concerns {κ μ : Type} (id : ThreadId) (p : Point κ μ) : Prop :=
  p.act.Addresses id ∨ p.machine.scheduler.mode = .pinned id

instance {κ : Type} (id : ThreadId) (a : Act κ) : Decidable (a.Addresses id) := by
  cases a <;> unfold Act.Addresses <;> infer_instance

variable {κ μ : Type} {callbacks : Callbacks κ μ} {p q : Point κ μ} {m m' : Machine κ μ}
  {id : ThreadId} {t : Thread} {now : UInt64}

theorem HostOp.Unloads.addresses {op : HostOp κ} (h : op.Unloads id) : op.Addresses id := by
  cases op with
  | unload x => exact h
  | shutdown => trivial
  | _ => cases h

/-! ## Beginning to wait -/

/-- What is about to happen pauses a thread, until `e`: the thread executes a pause while threads
take turns, and a negative operand stands for no time, or the host pauses it. -/
inductive Point.Pauses (id : ThreadId) (e : UInt64) (p : Point κ μ) : Prop
  | executes {now : UInt64} {t : Thread} {i : Instruction} {d : Int32} :
      p.act = .executes id now → p.machine.scheduler.mode = .roundRobin →
      p.machine.thread? id = some t → t.instruction? t.ip = some i → i.op = .pause →
      t.intValue i 0 = .ok d → (e.toNat : Int) = now.toNat + max d.toInt 0 → Pauses id e p
  | host {ms : UInt64} : p.act = .begins (.pause id ms) → (p.machine.thread? id).isSome = true →
      e = p.machine.now.1 + ms → Pauses id e p

theorem Thread.execute_pause {i : Instruction} {d : Int32} (hop : i.op = .pause)
    (hd : t.intValue i 0 = .ok d) :
    t.execute i now false = (.ok .next,
      { t with paused := true, wakeAt := now + UInt64.ofNat d.toInt.toNat }) := by
  simp [Thread.execute, hop, hd]

theorem Machine.thread?_pause (ht : m.thread? id = some t) (ms : UInt64) :
    (m.pause id ms).2.thread? id =
      some { t with paused := true, wakeAt := m.now.1 + ms } := by
  have hread : m.now.2.thread? id = some t := ht
  simp only [pause, onThread, hread]
  exact (Alters.setThread (lt_size_of_thread? hread) _).thread

/-- The thread is paused then. -/
theorem Point.Ensues.pauses {e : UInt64} (h : Ensues callbacks p q) (hpauses : p.Pauses id e) :
    ∃ t, q.machine.thread? id = some t ∧ t.paused = true ∧ t.wakeAt = e := by
  cases hpauses with
  | @executes now t i d hact hmode ht hi hop hd he =>
    have hown : i.op ≠ .callHost := by
      rw [hop]
      decide
    have hexec : t.execute i now (p.machine.scheduler.mode ≠ .roundRobin) = (.ok .next,
        { t with paused := true, wakeAt := now + UInt64.ofNat d.toInt.toNat }) := by
      rw [hmode]
      exact Thread.execute_pause hop hd
    obtain ⟨m', hstep, halters⟩ := step_own ht hi hown hexec
    have hwakeAt : now + UInt64.ofNat d.toInt.toNat = e := by
      rw [← UInt64.toNat_inj, UInt64.toNat_add, UInt64.toNat_ofNat']
      have := UInt64.toNat_lt e
      omega
    cases h with
    | executed _ hran =>
      cases hact
      cases (hstep _).symm.trans hran
      exact ⟨_, halters.thread, rfl, hwakeAt⟩
    | faulted _ hran =>
      cases hact
      cases (hstep _).symm.trans hran
    | entered hcallback =>
      cases hact
      obtain ⟨u, j, _, hu, hj, hhost, -⟩ := callback?_eq_some.1 hcallback
      cases ht.symm.trans hu
      cases hi.symm.trans hj
      exact absurd hhost hown
    | _ => cases hact
  | @host ms hact hloaded he =>
    obtain ⟨t, ht⟩ := Option.isSome_iff_exists.1 hloaded
    cases h with
    | @performed op answer fuel m m' hatomic hperform =>
      cases hact
      cases fuel with
      | zero => cases hperform
      | succ fuel =>
        exact ⟨_, of_answer (Q := fun m' => m'.thread? id = some _) hperform (thread?_pause ht ms),
          rfl, he.symm⟩
    | _ => cases hact

/-! ## Waiting -/

/-- A thread waits: it is as it was, except for what has been counted, and executes nothing. -/
structure Point.Waiting (id : ThreadId) (t : Thread) (p : Point κ μ) : Prop where
  thread : ∃ stats, p.machine.thread? id = some { t with stats }
  idle : ∀ now, p.act ≠ .executes id now

/-- A paused thread executes nothing unless the host waits for a call of it. -/
theorem Point.Coherent.waiting (h : Coherent p)
    (ht : ∃ stats, p.machine.thread? id = some { t with stats }) (hpaused : t.paused = true)
    (hmode : p.machine.scheduler.mode ≠ .pinned id) : Waiting id t p := by
  refine ⟨ht, fun now hact => ?_⟩
  obtain ⟨⟨u, hu, -, hgoes⟩, hpinned⟩ := h.executes hact
  obtain ⟨stats, ht⟩ := ht
  cases hu.symm.trans ht
  cases hp : p.machine.scheduler.mode with
  | roundRobin => exact Bool.eq_false_iff.1 (hgoes hp) hpaused
  | pinned x => exact hmode (by rw [hp, hpinned x hp])

/-- From a point to the next one a paused thread goes on waiting. -/
theorem Point.Ensues.waiting (h : Ensues callbacks p q) (hp : Coherent p)
    (hwaiting : Waiting id t p) (hpaused : t.paused = true) (hleft : ¬ p.Concerns id)
    (hearly : ∀ now, p.act = .selects id now → now < t.wakeAt) : Waiting id t q := by
  obtain ⟨⟨stats, ht⟩, hidle⟩ := hwaiting
  have hthread : ∃ stats, q.machine.thread? id = some { t with stats } := by
    have hslot := h.becomes id
    rw [ht] at hslot
    generalize q.machine.thread? id = u at hslot
    cases hslot with
    | rests => exact ⟨stats, rfl⟩
    | counts stats => exact ⟨stats, rfl⟩
    | unloads hact hunloads => exact absurd (.inl (by rw [hact]; exact hunloads.addresses)) hleft
    | host hact haddresses _ => exact absurd (.inl (by rw [hact]; exact haddresses)) hleft
    | wakes hact _ hover => exact absurd hover (UInt64.not_le.2 (hearly _ hact))
    | executes hact _ => exact absurd hact (hidle _)
    | returns _ hmode _ => exact absurd (.inr hmode) hleft
  refine ⟨hthread, fun now hact => ?_⟩
  have hcoherent := h.coherent hp
  -- the cycle that lets it go on has found the thread pinned
  cases h with
  | @wakes x time m m' hready =>
    have hsame : m'.scheduler = m.scheduler := by
      rw [show m' = (m.ready x time).2 by rw [hready], scheduler_ready]
    have hmode : m'.scheduler.mode ≠ .pinned id := by
      rw [hsame]
      exact fun hmode => hleft (.inr hmode)
    exact (hcoherent.waiting hthread hpaused hmode).idle now hact
  | _ => cases hact

theorem HostProgram.waiting_course {α : Type} {fuel : Nat} {program : HostProgram κ μ α}
    {created : Machine κ μ} {before since after : List (Point κ μ)}
    (h : program.course callbacks fuel created = before ++ p :: since ++ q :: after)
    (ht : p.machine.thread? id = some t) (hpaused : t.paused = true)
    (hleft : ∀ c ∈ p :: since, ¬ c.Concerns id)
    (hearly : ∀ c ∈ p :: since, ∀ now, c.act = .selects id now → now < t.wakeAt) :
    Waiting id t q := by
  have hcoherent : ∀ c ∈ p :: since, Coherent c := fun c hc => by
    have hmem : c ∈ program.course callbacks fuel created := by
      rw [h]
      exact List.mem_append_left _ (List.mem_append_right _ hc)
    exact coherent_course hmem
  have hp : Waiting id t p := by
    have hmem : p ∈ p :: since := List.mem_cons_self
    exact (hcoherent p hmem).waiting ⟨t.stats, ht⟩ hpaused fun hmode => hleft p hmem (.inr hmode)
  obtain hq | ⟨c, hc, hbroken⟩ := exists_of_isChain (P := Waiting id t)
    (C := fun c => ¬ (Coherent c ∧ ¬ c.Concerns id ∧
      ∀ now, c.act = .selects id now → now < t.wakeAt))
    (fun hensues hwaiting => or_iff_not_imp_right.2 fun hkept => by
      obtain ⟨hcoherent, hleft, hearly⟩ := Classical.not_not.1 hkept
      exact hensues.waiting hcoherent hwaiting hpaused hleft hearly)
    (stretch_of_course h) hp
  · exact hq
  · exact absurd ⟨hcoherent c hc, hleft c hc, hearly c hc⟩ hbroken

/-! ## Going on -/

/-- A thread that is ready when it is selected executes its next instruction in the same cycle. -/
theorem HostProgram.exists_executes {α : Type} {fuel : Nat} {program : HostProgram κ μ α}
    {created : Machine κ μ} {before after : List (Point κ μ)}
    (h : program.course callbacks fuel created =
      before ++ { machine := m, act := .selects id now } :: after)
    (hready : m.ready id now = (true, m')) :
    ∃ rest, after = { machine := m', act := .executes id now } :: rest := by
  cases after with
  | nil =>
    have hunbroken := unbroken_course callbacks fuel program created
    rw [h] at hunbroken
    refine absurd ⟨id, now, rfl, ?_⟩ (hunbroken _ (List.getLast?_concat ..))
    rw [hready]
  | cons q rest =>
    have hchain := ensues_course callbacks fuel program created
    rw [h, List.isChain_append_cons_cons] at hchain
    cases hchain.2.1 with
    | waits hwaits => cases hready.symm.trans hwaits
    | wakes hwakes =>
      cases hready.symm.trans hwakes
      exact ⟨rest, rfl⟩

theorem Machine.ready_of_over (ht : m.thread? id = some t) (hmode : m.scheduler.mode = .roundRobin)
    (hpaused : t.paused = true) (hover : t.wakeAt ≤ now) :
    m.ready id now = (true, m.modifyThread id fun t => { t with paused := false }) := by
  simp [ready, ht, hmode, hpaused, hover]

/-- **Pauses are honoured.** A pause that a thread executes while threads take turns ends at the
time of its cycle plus its operand, a pause by the host at the time of the operation plus its
length. From then on the thread executes nothing and stays as it is, whatever other threads and
their callbacks do, as long as no cycle selects it at the end of the pause or later, and the host
does not operate on it otherwise than by running the threads. The first cycle that does select it
then wakes it, and it executes the instruction that it stands at. -/
theorem HostProgram.pauses_honoured {α : Type} {fuel : Nat} {program : HostProgram κ μ α}
    {config : Config} {clock : Clock} {memory : μ} {course : List (Point κ μ)}
    (hcourse : program.course callbacks fuel (create config clock memory) = course)
    (id : ThreadId) :
    (∀ before p q after e, course = before ++ p :: q :: after → p.Pauses id e →
      ∃ t, q.machine.thread? id = some t ∧ t.paused = true ∧ t.wakeAt = e) ∧
    ∀ before p since q after t, course = before ++ p :: since ++ q :: after →
      p.machine.thread? id = some t → t.paused = true →
      (∀ c ∈ p :: since, ¬ c.Concerns id) →
      (∀ c ∈ p :: since, ∀ now, c.act = .selects id now → now < t.wakeAt) →
      (∃ stats, q.machine.thread? id = some { t with stats }) ∧
        (∀ now, q.act ≠ .executes id now) ∧
        ∀ now, q.act = .selects id now → q.machine.scheduler.mode = .roundRobin →
          t.wakeAt ≤ now →
          ∃ m stats rest, after = { machine := m, act := .executes id now } :: rest ∧
            m.thread? id = some { t with paused := false, stats } := by
  constructor
  · rintro before p q after e rfl hpauses
    have hchain := ensues_course callbacks fuel program (create config clock memory)
    rw [hcourse, List.isChain_append_cons_cons] at hchain
    exact hchain.2.1.pauses hpauses
  · rintro before p since q after t rfl ht hpaused hleft hearly
    obtain ⟨⟨stats, hq⟩, hidle⟩ := waiting_course hcourse ht hpaused hleft hearly
    refine ⟨⟨stats, hq⟩, hidle, fun now hact hmode hover => ?_⟩
    obtain ⟨m, act⟩ := q
    cases hact
    obtain ⟨rest, hrest⟩ := exists_executes hcourse (ready_of_over hq hmode hpaused hover)
    refine ⟨_, stats, rest, hrest, ?_⟩
    rw [thread?_modifyThread, if_pos rfl, hq, Option.map_some]

/-- What a host does that loads a program, pauses it for a time, and runs it. -/
def loadAndPause (program : Image) (ms : UInt64) : HostProgram Unit Unit Unit :=
  .perform (.load program none) fun _ => .perform (.start 0) fun _ =>
    .perform (.pause 0 ms) fun _ => .perform (.run .unlimited) fun _ => .pure ()

/-- A thread that is paused until the clock shows 3 waits in the cycle where it shows 2, and goes on
in the next one. -/
theorem pauses_honoured_off_end :
    ∃ before p since q after t, (loadAndPause offEnd 3).course (fun _ _ => .pure ()) 9
        (create {} (.ticking 1) ()) = before ++ p :: since ++ q :: after ∧
      p.machine.thread? 0 = some t ∧ t.paused = true ∧ t.wakeAt = 3 ∧
      .selects 0 2 ∈ since.map Point.act ∧
      ∃ m stats rest, after = { machine := m, act := .executes 0 3 } :: rest ∧
        m.thread? 0 = some { t with paused := false, stats } := by
  let meanwhile : List (Act Unit) :=
    [.begins (.run .unlimited), .rests, .selects 0 2, .rests]
  generalize hcourse : (loadAndPause offEnd 3).course (fun _ _ => .pure ()) 9
    (create {} (.ticking 1) ()) = course
  have hacts : course.map Point.act =
      [.rests, .begins (.load offEnd none), .rests, .begins (.start 0), .rests] ++
        .begins (.pause 0 3) :: .rests :: (meanwhile ++ .selects 0 3 :: [.executes 0 3, .rests,
          .selects 0 4, .executes 0 4, .rests, .selects 0 5, .executes 0 5, .rests, .rests,
          .rests]) := by
    rw [← hcourse]
    decide +kernel
  have hmode : ∀ c ∈ course, c.machine.scheduler.mode = .roundRobin := by
    rw [← hcourse]
    decide +kernel
  have hpause : ∀ c ∈ course, c.act = .begins (.pause 0 3) →
      (c.machine.thread? 0).isSome = true ∧ 3 = c.machine.now.1 + 3 := by
    rw [← hcourse]
    decide +kernel
  obtain ⟨before, _, rfl, -, hacts⟩ := List.map_eq_append_iff.1 hacts
  obtain ⟨a, _, rfl, ha, hacts⟩ := List.map_eq_cons_iff.1 hacts
  obtain ⟨p, _, rfl, hp, hacts⟩ := List.map_eq_cons_iff.1 hacts
  obtain ⟨since, _, rfl, hsince, hacts⟩ := List.map_eq_append_iff.1 hacts
  obtain ⟨q, after, rfl, hq, -⟩ := List.map_eq_cons_iff.1 hacts
  obtain ⟨hpauses, hwaits⟩ := HostProgram.pauses_honoured hcourse 0
  obtain ⟨hloaded, hnow⟩ := hpause a (by simp) ha
  obtain ⟨t, ht, hpaused, hwakeAt⟩ := hpauses before a p _ 3 rfl (.host ha hloaded hnow)
  have hmeanwhile : ∀ c ∈ p :: since, c.act ∈ Act.rests :: meanwhile := fun c hc => by
    rw [← hp, ← hsince, ← List.map_cons]
    exact List.mem_map_of_mem hc
  have hleft : ∀ c ∈ p :: since, ¬ c.Concerns 0 := by
    rintro c hc (haddresses | hpinned)
    · have hnone : ∀ act ∈ Act.rests :: meanwhile, ¬ act.Addresses 0 := by decide
      exact hnone _ (hmeanwhile c hc) haddresses
    · have hmem : c ∈ before ++ a :: (p :: since ++ q :: after) :=
        List.mem_append_right _ (List.mem_cons_of_mem _ (List.mem_append_left _ hc))
      cases (hmode c hmem).symm.trans hpinned
  have hearly : ∀ c ∈ p :: since, ∀ now, c.act = .selects 0 now → now < t.wakeAt := by
    intro c hc now hact
    have hmem := hmeanwhile c hc
    rw [hact] at hmem
    obtain rfl : now = 2 := by simpa [meanwhile] using hmem
    rw [hwakeAt]
    decide
  have hsplit : before ++ a :: p :: (since ++ q :: after) =
      (before ++ [a]) ++ p :: since ++ q :: after := by simp
  obtain ⟨-, -, hwakes⟩ := hwaits (before ++ [a]) p since q after t hsplit ht hpaused hleft hearly
  have hexecutes := hwakes 3 hq (hmode q (by simp)) (UInt64.le_of_eq hwakeAt)
  exact ⟨before ++ [a], p, since, q, after, t, hsplit, ht, hpaused, hwakeAt,
    by rw [hsince]; decide, hexecutes⟩

end ScriptMachine
