import ScriptMachine.Proofs.Slots
import ScriptMachine.Proofs.Turns

/-!
# Only running threads execute

A thread executes an instruction only in a cycle that has given it the turn, and a cycle gives the
turn only to a running thread, and only to the pinned one while one is pinned
(`Point.Ensues.coherent`). Nothing but a start or a synchronous call lets a thread run
(`Point.Ensues.isRunning`). So a thread that has stopped executes nothing until one of them.
-/

namespace ScriptMachine

open Machine Point

namespace Machine

variable {κ μ : Type} {m : Machine κ μ} {id runnable : ThreadId}

/-- If there is a thread that can run, the search for the next one finds one, so the turn does not
depend on what it would fall back on. -/
theorem schedule_eq (h : m.runnable? = some runnable) (other : ThreadId) (now : UInt64) :
    m.schedule other now = m.schedule runnable now := by
  have hbegin (first : ThreadId) :
      m.beginTurn first other now = m.beginTurn first runnable now := by
    obtain ⟨j, hj⟩ := exists_nextRunning? first (isRunning_of_runnable? h)
    rw [beginTurn, beginTurn, hj, Option.getD_some, Option.getD_some]
  simp only [schedule, rotate, hbegin]

end Machine

variable {κ μ : Type} {callbacks : Callbacks κ μ} {p q : Point κ μ} {id : ThreadId} {now : UInt64}

/-- A cycle is about a thread that is running, and pinned if any is. It is ready for its next
instruction: only a pinned thread does not wait for the end of its pause. -/
structure Point.Coherent (p : Point κ μ) : Prop where
  selects : ∀ {id now}, p.act = .selects id now →
    p.machine.isRunning id = true ∧ ∀ x, p.machine.scheduler.mode = .pinned x → id = x
  executes : ∀ {id now}, p.act = .executes id now →
    (∃ t, p.machine.thread? id = some t ∧ t.running = true ∧
      (p.machine.scheduler.mode = .roundRobin → t.paused = false)) ∧
    ∀ x, p.machine.scheduler.mode = .pinned x → id = x

theorem Point.coherent_rests (m : Machine κ μ) : Coherent { machine := m } :=
  ⟨(nomatch ·), (nomatch ·)⟩

/-- A thread that is ready is not paused, unless a thread is pinned. -/
theorem paused_of_ready {m m' : Machine κ μ} (h : m.ready id now = (true, m')) :
    ∃ t, m'.thread? id = some t ∧ (m'.scheduler.mode = .roundRobin → t.paused = false) := by
  simp only [ready] at h
  split at h
  · cases h
  · rename_i t ht
    split at h
    · rename_i hgoes
      cases h
      refine ⟨t, ht, fun hmode => ?_⟩
      simpa [hmode] using hgoes
    · split at h
      · cases h
        exact ⟨_, by rw [thread?_modifyThread, if_pos rfl, ht, Option.map_some], fun _ => rfl⟩
      · cases h

theorem Point.Ensues.coherent (h : Ensues callbacks p q) (hp : Coherent p) : Coherent q := by
  cases h with
  | begins op => exact ⟨(nomatch ·), (nomatch ·)⟩
  | @selects runnable m hrunnable =>
    refine ⟨fun hact => ?_, (nomatch ·)⟩
    cases hact
    refine ⟨isRunning_schedule (m := m.now.2) hrunnable m.now.1, fun x hmode => ?_⟩
    have hpinned : m.now.2.scheduler.mode = .pinned x := (mode_schedule _ _).symm.trans hmode
    rw [schedule_of_pinned hpinned]
  | @wakes x now m m' hready =>
    refine ⟨(nomatch ·), fun hact => ?_⟩
    cases hact
    obtain ⟨hrunning, hpinned⟩ := hp.selects rfl
    obtain ⟨t, ht, hpaused⟩ := paused_of_ready hready
    have hafter : m'.isRunning x = true := by
      rw [show m' = (m.ready x now).2 by rw [hready], isRunning_ready]
      exact hrunning
    refine ⟨⟨t, ht, by simpa [isRunning, ht] using hafter, hpaused⟩, fun y hmode => ?_⟩
    refine hpinned y ?_
    rw [← hmode, show m' = (m.ready x now).2 by rw [hready], scheduler_ready]
  | _ => exact coherent_rests _

/-- A thread is running after a point only if it was, or is started or called. -/
theorem Point.Ensues.isRunning (h : Ensues callbacks p q) (hq : q.machine.isRunning id = true) :
    p.machine.isRunning id = true ∨ ∃ op, p.act = .begins op ∧ op.Starts id := by
  have hslot := h.becomes id
  simp only [Machine.isRunning] at hq ⊢
  generalize p.machine.thread? id = u, q.machine.thread? id = u' at hslot hq
  cases hslot with
  | rests => exact .inl hq
  | counts => exact .inl hq
  | loads hnew =>
    rw [Option.any_some, hnew] at hq
    cases hq
  | unloads => cases hq
  | host hact _ hrunning => exact (hrunning hq).imp_right fun hstarts => ⟨_, hact, hstarts⟩
  | wakes => exact .inl hq
  | executes _ hrunning => exact .inl (hrunning hq)
  | returns _ _ hrunning => exact .inl hrunning

theorem HostProgram.coherent_course {α : Type} {fuel : Nat} {program : HostProgram κ μ α}
    {m : Machine κ μ} (hq : q ∈ program.course callbacks fuel m) : Coherent q := by
  refine (ensues_course callbacks fuel program m).induction Coherent _
    (fun _ _ hensues hp => hensues.coherent hp) ?_ q hq
  exact fun _ => coherent_rests m

/-- A stretch of a course goes from point to point. -/
theorem HostProgram.stretch_of_course {α : Type} {fuel : Nat} {program : HostProgram κ μ α}
    {m : Machine κ μ} {earlier since after : List (Point κ μ)}
    (h : program.course callbacks fuel m = earlier ++ p :: since ++ q :: after) :
    (p :: since ++ [q]).IsChain (Ensues callbacks) := by
  have hchain := ensues_course callbacks fuel program m
  rw [h] at hchain
  exact hchain.infix ⟨earlier, after, by simp⟩

/-- **Only running threads execute.** Whatever a host and its callbacks do, a thread that executes
an instruction is loaded and running, and it is the pinned one if any is. The scheduler never falls
back on another thread than the next running one. A thread that was not running before has been
started since, or called synchronously: until then it executes nothing. -/
theorem HostProgram.only_running_execute {α : Type} {fuel : Nat} {program : HostProgram κ μ α}
    {config : Config} {clock : Clock} {memory : μ} {m : Machine κ μ}
    {before after : List (Point κ μ)}
    (h : program.course callbacks fuel (create config clock memory) =
      before ++ { machine := m, act := .executes id now } :: after) :
    (∃ t, m.thread? id = some t ∧ t.running = true) ∧
      (∀ x, m.scheduler.mode = .pinned x → id = x) ∧
      (∀ (m : Machine κ μ) runnable, m.runnable? = some runnable →
        ∀ fallback now, m.schedule fallback now = m.schedule runnable now) ∧
      ∀ earlier p since, before = earlier ++ p :: since → p.machine.isRunning id = false →
        ∃ c ∈ p :: since, ∃ op, c.act = .begins op ∧ op.Starts id := by
  have hmem : { machine := m, act := .executes id now } ∈
      program.course callbacks fuel (create config clock memory) := by
    rw [h]
    exact List.mem_append_right _ List.mem_cons_self
  obtain ⟨⟨t, ht, hrunning, -⟩, hpinned⟩ := (coherent_course hmem).executes rfl
  refine ⟨⟨t, ht, hrunning⟩, hpinned, fun m runnable hrunnable => schedule_eq hrunnable, ?_⟩
  rintro earlier p since rfl hstopped
  have hchain := stretch_of_course h
  obtain hnever | hstarts := exists_of_isChain
    (P := fun a => a.machine.isRunning id = false)
    (C := fun a => ∃ op, a.act = .begins op ∧ op.Starts id)
    (fun hensues hstopped => or_iff_not_imp_right.2 fun hnone => Bool.eq_false_iff.2 fun hafter =>
      (hensues.isRunning hafter).elim (Bool.eq_false_iff.1 hstopped) hnone) hchain hstopped
  · rw [isRunning, ht, Option.any_some, hrunning] at hnever
    cases hnever
  · exact hstarts

/-- What a host does that loads a program, runs it for a moment and stops it, and then starts it
again and lets it run. -/
def stopAndGoOn (program : Image) : HostProgram Unit Unit Unit :=
  .perform (.load program none) fun _ => .perform (.start 0) fun _ =>
    .perform (.run (.millis 0)) fun _ => .perform (.stop 0) fun _ => .perform (.start 0) fun _ =>
      .perform (.run .unlimited) fun _ => .pure ()

/-- A thread that has executed an instruction and has been stopped executes the next one, and has
been started in between. -/
theorem only_running_execute_off_end :
    ∃ earlier p since m now after, (stopAndGoOn offEnd).course (fun _ _ => .pure ()) 9
        (create {} (.ticking 1) ()) =
          earlier ++ p :: since ++ { machine := m, act := .executes 0 now } :: after ∧
      (∃ c ∈ earlier, c.act = .executes 0 1) ∧ p.machine.isRunning 0 = false ∧
      (∃ t, m.thread? 0 = some t ∧ t.running = true) ∧
      ∃ c ∈ p :: since, ∃ op, c.act = .begins op ∧ op.Starts 0 := by
  generalize hcourse : (stopAndGoOn offEnd).course (fun _ _ => .pure ()) 9
    (create {} (.ticking 1) ()) = course
  have hpoints : course.map (fun c => (c.act, c.machine.isRunning 0)) =
      [(.rests, false), (.begins (.load offEnd none), false), (.rests, false),
        (.begins (.start 0), false), (.rests, true), (.begins (.run (.millis 0)), true),
        (.rests, true), (.selects 0 1, true), (.executes 0 1, true), (.rests, true),
        (.rests, true), (.begins (.stop 0), true)] ++
      (.rests, false) :: ([(.begins (.start 0), false), (.rests, true),
        (.begins (.run .unlimited), true), (.rests, true), (.selects 0 3, true)] ++
      (.executes 0 3, true) :: [(.rests, true), (.selects 0 4, true), (.executes 0 4, true),
        (.rests, false), (.rests, false), (.rests, false)]) := by
    rw [← hcourse]
    decide +kernel
  obtain ⟨earlier, _, rfl, hearlier, hpoints⟩ := List.map_eq_append_iff.1 hpoints
  obtain ⟨p, _, rfl, hp, hpoints⟩ := List.map_eq_cons_iff.1 hpoints
  obtain ⟨since, _, rfl, -, hpoints⟩ := List.map_eq_append_iff.1 hpoints
  obtain ⟨⟨m, act⟩, after, rfl, hq, -⟩ := List.map_eq_cons_iff.1 hpoints
  obtain ⟨rfl, -⟩ : act = .executes 0 3 ∧ m.isRunning 0 = true := Prod.mk.inj hq
  have hran : (.executes 0 1, true) ∈ earlier.map fun c => (c.act, c.machine.isRunning 0) := by
    rw [hearlier]
    decide
  obtain ⟨c, hc, hexecuted⟩ := List.mem_map.1 hran
  have hstopped : p.machine.isRunning 0 = false := (Prod.mk.inj hp).2
  have hsplit : earlier ++ p :: (since ++ { machine := m, act := .executes 0 3 } :: after) =
      earlier ++ p :: since ++ { machine := m, act := .executes 0 3 } :: after := by simp
  obtain ⟨hrunning, -, -, hstarted⟩ := HostProgram.only_running_execute (hcourse.trans hsplit)
  exact ⟨earlier, p, since, m, 3, after, hsplit, ⟨c, hc, (Prod.mk.inj hexecuted).1⟩, hstopped,
    hrunning, hstarted earlier p since rfl hstopped⟩

end ScriptMachine
