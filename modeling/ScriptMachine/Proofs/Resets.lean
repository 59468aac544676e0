import ScriptMachine.Proofs.Loading
import ScriptMachine.Proofs.Lockstep

/-!
# Resets

A reset brings a thread back to where it was when it was loaded, whatever has become of it since: it
makes the thread anew of what a load settles once and for all, and keeps only whether the thread is
running and what is on record about it. It cannot fail, since the frames that it opens have fitted
on the same stack before.

What a thread does depends on nothing else, so a machine goes on after a reset as it would if the
thread had been loaded afresh (`Leeway.afresh`).
-/

namespace ScriptMachine

open Machine

variable {κ μ : Type} {callbacks : Callbacks κ μ} {p q : Point κ μ} {id : ThreadId} {t t' : Thread}

/-! ## Where a thread comes from -/

namespace Machine

variable {m m' : Machine κ μ}

/-- Machines of one configuration make the same threads. -/
theorem loadedThread_eq (h : m'.config = m.config) (program : Image) (priority : Option Priority)
    (digest : Option (List UInt8)) :
    m'.loadedThread program priority digest = m.loadedThread program priority digest := by
  simp only [loadedThread, stackSize, h]

/-- A thread that comes into an empty slot by a load is the new one. -/
theorem LoadsAtomically.thread {programs : Image → Prop} {priority : Option Priority}
    {digest : Option (List UInt8)} {r : Except LoadError ThreadId × Machine κ μ}
    (h : LoadsAtomically programs priority digest m r) (hfree : m.thread? id = none)
    (ht : r.2.thread? id = some t) :
    t = m.loadedThread t.program (some t.priority) t.digest := by
  cases hr : r.1 with
  | error e =>
    rw [h.failed hr, hfree] at ht
    cases ht
  | ok slot =>
    obtain ⟨-, -, program, -, halters⟩ := h.placed hr
    by_cases hslot : id = slot
    · subst hslot
      cases ht.symm.trans halters.thread
      rfl
    · rw [halters.other hslot, hfree] at ht
      cases ht

/-- So it is if a load puts it there. -/
theorem eq_loadedThread_of_perform {op : HostOp κ} {answer : op.Answer} {fuel : Nat}
    (hsize : m.threads.size ≤ m.config.maxThreads) (hload : op.Loads)
    (h : m.perform callbacks fuel op = some (answer, m')) (hfree : m.thread? id = none)
    (ht : m'.thread? id = some t) : t = m.loadedThread t.program (some t.priority) t.digest := by
  cases fuel with
  | zero => cases h
  | succ fuel =>
    cases op with
    | load image priority =>
      rw [show m' = _ from (congrArg Prod.snd (Option.some.inj h)).symm] at ht
      exact (loadsAtomically_load hsize image priority).thread hfree ht
    | loadFile contents priority =>
      rw [show m' = _ from (congrArg Prod.snd (Option.some.inj h)).symm] at ht
      cases contents with
      | error e => cases hfree.symm.trans ht
      | ok bytes => exact (loadsAtomically_loadBytes hsize bytes priority).thread hfree ht
    | _ => exact hload.elim

/-- A thread that was not there before has been born. -/
theorem Changes.born (h : Changes m m') (hfree : m.thread? id = none)
    (ht : m'.thread? id = some t) : Thread.Born t := by
  obtain hdescends | ⟨programs, hloaded⟩ := h
  · obtain ⟨u, hu, -⟩ := hdescends.thread ht
    cases hfree.symm.trans hu
  · cases hloaded with
    | failed => cases hfree.symm.trans ht
    | @placed slot u hslot hborn _ =>
      rw [thread?_place_of_freeSlot hslot] at ht
      split at ht
      · cases ht
        exact hborn
      · cases hfree.symm.trans ht

end Machine

/-- Only a load puts a thread into an empty slot. -/
theorem Point.Ensues.loads (h : Ensues callbacks p q)
    (hsize : p.machine.threads.size ≤ p.machine.config.maxThreads)
    (hfree : p.machine.thread? id = none) (ht : q.machine.thread? id = some t) :
    (∃ op, p.act = .begins op ∧ op.Loads) ∧
      t = p.machine.loadedThread t.program (some t.priority) t.digest := by
  have hload : ∃ op, p.act = .begins op ∧ op.Loads := by
    by_contra hnone
    have hdescends : Descends p.machine q.machine := by
      refine h.next.descends fun op hbegins hload => hnone ⟨op, ?_, hload⟩
      cases hact : p.act with
      | begins op' =>
        rw [Point.instant, hact] at hbegins
        rw [Option.some.inj hbegins]
      | _ =>
        rw [Point.instant, hact] at hbegins
        cases hbegins
    obtain ⟨u, hu, -⟩ := hdescends.thread ht
    cases hfree.symm.trans hu
  refine ⟨hload, ?_⟩
  obtain ⟨op, hact, hload⟩ := hload
  cases h with
  | performed hop hperform =>
    cases hact
    exact eq_loadedThread_of_perform hsize hload hperform hfree ht
  | run | refused | called =>
    cases hact
    exact hload.elim
  | _ => cases hact

/-- The loading of a thread, in a course from a machine without threads: the slot was empty, and has
been taken ever since by what has become of the thread. -/
theorem HostProgram.exists_load {α : Type} {fuel : Nat} {program : HostProgram κ μ α}
    {config : Config} {clock : Clock} {memory : μ} {before after : List (Point κ μ)}
    (h : program.course callbacks fuel (create config clock memory) = before ++ q :: after)
    (ht : q.machine.thread? id = some t) :
    ∃ earlier p p' since t₀, before ++ [q] = earlier ++ p :: p' :: since ∧
      p.Ensues callbacks p' ∧ p.machine.thread? id = none ∧ p'.machine.thread? id = some t₀ ∧
      t₀.Moves t ∧ ∀ c ∈ since, (c.machine.thread? id).isSome = true := by
  have hchain := ensues_course callbacks fuel program (create config clock memory)
  rw [h, List.isChain_split] at hchain
  have hfirst : ∀ c ∈ (before ++ [q]).head?,
      ¬ ∃ u, c.machine.thread? id = some u ∧ u.Moves t := by
    rintro c hc ⟨u, hu, -⟩
    rw [eq_of_head? h hc, thread?_create] at hu
    cases hu
  have hstep {a b : Point κ μ} (hnext : a.Ensues callbacks b)
      (hb : ∃ u, b.machine.thread? id = some u ∧ u.Moves t) :
      a.machine.thread? id = none ∨ ∃ u, a.machine.thread? id = some u ∧ u.Moves t := by
    obtain ⟨u', hu', hmoves⟩ := hb
    cases hu : a.machine.thread? id with
    | none => exact .inl rfl
    | some u => exact .inr ⟨u, rfl, (hnext.next.changes.moves hu hu').trans hmoves⟩
  obtain ⟨earlier, p, p', since, heq, hnext, hfree, hsince⟩ :=
    exists_step_since (P := fun c => ∃ u, c.machine.thread? id = some u ∧ u.Moves t) hstep hchain.1
      hfirst ⟨t, ht, .refl⟩
  obtain ⟨t₀, ht₀, hmoves⟩ := hsince p' List.mem_cons_self
  refine ⟨earlier, p, p', since, t₀, heq, hnext, hfree, ht₀, hmoves, fun c hc => ?_⟩
  obtain ⟨u, hu, -⟩ := hsince c (List.mem_cons_of_mem p' hc)
  rw [hu, Option.isSome_some]

/-! ## After a reset -/

/-- How a machine on which the thread in a slot has been reset may differ from one on which it has
been loaded afresh: what is on record about the thread before the reset adds to what is later, its
digest may be another one, and the journals began in different ways. -/
def Leeway.afresh (id : ThreadId) (kept : Thread) (digest : Option (List UInt8))
    (old new : Array Emission) : Leeway where
  stats x s s' := s = s' ∨ x = id ∧ s.turns = kept.stats.turns + s'.turns ∧
    s.instructions = kept.stats.instructions + s'.instructions
  digest x d d' := d = d' ∨ x = id ∧ d = kept.digest ∧ d' = digest
  tracing := (· = ·)
  journal j j' := ∃ added, j = old ++ added ∧ j' = new ++ added
  stats_refl _ _ := .inl rfl
  digest_refl _ _ := .inl rfl
  tracing_refl _ := rfl
  turn := by
    rintro x s s' (rfl | ⟨hx, hturns, hinstructions⟩)
    · exact .inl rfl
    · exact .inr ⟨hx, by rw [hturns, Nat.add_assoc], hinstructions⟩
  instruction := by
    rintro x s s' (rfl | ⟨hx, hturns, hinstructions⟩)
    · exact .inl rfl
    · exact .inr ⟨hx, hturns, by rw [hinstructions, Nat.add_assoc]⟩
  emit := by
    rintro _ _ e ⟨added, rfl, rfl⟩
    exact ⟨added.push e, by rw [Array.append_push], by rw [Array.append_push]⟩
  trace := by
    rintro b _ _ _ text rfl ⟨added, rfl, rfl⟩
    cases b with
    | false => exact ⟨added, rfl, rfl⟩
    | true =>
      refine ⟨added.push (.output text), ?_, ?_⟩
      · rw [if_pos rfl, Array.append_push]
      · rw [if_pos rfl, Array.append_push]

namespace Machine

variable {m m' : Machine κ μ}

/-- Machines that differ in what is on record about one thread, and in their journals. -/
theorem alike_setThread {L : Leeway} (ht : m.thread? id = some t) (hadmits : L.Admits id t t')
    {journal : Array Emission} (hjournal : L.journal m.journal journal) :
    Alike L m { m.setThread id (some t') with journal } where
  size := size_setThread ..
  thread j := by
    show Option.Rel (L.Admits j) (m.thread? j) ((m.setThread id (some t')).thread? j)
    rw [thread?_setThread]
    split
    · rename_i hj
      obtain ⟨rfl, -⟩ := hj
      rw [ht]
      exact .some hadmits
    · cases m.thread? j with
      | none => exact .none
      | some u => exact .some (.refl L j u)
  tracing := L.tracing_refl _
  journal := hjournal
  rest := rfl

theorem reset_eq (ht : m.thread? id = some t) (hreset : t.reset = .ok t') :
    m.reset id = (.ok (), (m.setThread id (some t')).log (.reset id)) := by
  simp only [reset, onThread, ht, hreset]
  rfl

end Machine

/-- **Resets are complete.** Whatever a host and its callbacks have done so far, a thread `t` that
is loaded has been `t₀` right after its load: since then its slot has been taken. A reset succeeds,
and leaves the thread `t₀` again in every respect, except that it is running if it was and that its
statistics stay; no other thread has changed, nor the registry, the scheduler or anything else but
the journal. `t₀` is what the machine would make of the program today.

From there everything goes as it would if the thread had just been loaded and set running as it is,
whatever digest it got and whatever the journal was: point by point the same happens, with the same
results, and the machines differ in nothing but the statistics and the digest of that thread, and in
what their journals began with. -/
theorem HostProgram.reset_restores {α : Type} {fuel : Nat} {program : HostProgram κ μ α}
    {config : Config} {clock : Clock} {memory : μ} {before after : List (Point κ μ)}
    (h : program.course callbacks fuel (create config clock memory) = before ++ q :: after)
    (ht : q.machine.thread? id = some t) :
    ∃ earlier p p' since t₀, before ++ [q] = earlier ++ p :: p' :: since ∧
      (∃ op, p.act = .begins op ∧ op.Loads) ∧ p.machine.thread? id = none ∧
      p'.machine.thread? id = some t₀ ∧ (∀ c ∈ since, (c.machine.thread? id).isSome = true) ∧
      t₀ = q.machine.loadedThread t.program (some t.priority) t.digest ∧
      ∀ n, ∃ m', q.machine.perform callbacks (n + 1) (.reset id) = some (.ok (), m') ∧
        Alters id { t₀ with running := t.running, stats := t.stats } q.machine m' ∧
        ∀ digest journal, Lockstep (.afresh id t digest m'.journal journal) callbacks m'
          { m'.setThread id (some { t₀ with running := t.running, digest }) with journal } := by
  obtain ⟨earlier, p, p', since, t₀, hcourse, hnext, hfree, ht₀, hmoves, htaken⟩ :=
    exists_load h ht
  have hsizes {c : Point κ μ} (hc : c ∈ before ++ [q]) :
      c.machine.config = config ∧ c.machine.threads.size ≤ config.maxThreads := by
    have hmem : c ∈ program.course callbacks fuel (create config clock memory) := by
      rw [h, ← List.singleton_append, ← List.append_assoc]
      exact List.mem_append_left after hc
    exact (evolves_of_mem_course hmem).size (Nat.zero_le _)
  obtain ⟨hconfig, hsize⟩ := hsizes (c := p) (by rw [hcourse]; simp)
  have hconfig' : q.machine.config = config := (hsizes (by simp)).1
  obtain ⟨hload, hnew⟩ := hnext.loads (hconfig.symm ▸ hsize) hfree ht₀
  -- what a load settles is as it was, and the frames of a run fit on the stack as they did then
  have hkin : t₀.Kin t := hmoves.kin
  obtain ⟨hloaded, hfits⟩ := (hnext.next.changes.born hfree ht₀).eq_loaded
  rw [← hkin.program, ← hkin.capacity, ← hkin.priority, ← hkin.timeslice, ← hkin.digest] at hloaded
  rw [← hkin.program, ← hkin.capacity] at hfits
  have hreset : t.reset = .ok { t₀ with running := t.running, stats := t.stats } :=
    Thread.reset_eq_ok.2 ⟨hfits, by rw [← hloaded]⟩
  refine ⟨earlier, p, p', since, t₀, hcourse, hload, hfree, ht₀, htaken, ?_, fun n => ?_⟩
  · rw [hkin.program, hkin.priority, hkin.digest, loadedThread_eq (hconfig'.trans hconfig.symm)]
    exact hnew
  · have halters := (Alters.setThread (lt_size_of_thread? ht)
      { t₀ with running := t.running, stats := t.stats }).emit (.log (.reset id))
    refine ⟨_, congrArg some (reset_eq ht hreset), halters, fun digest journal => ?_⟩
    refine Alike.lockstep (alike_setThread halters.thread ?_ ?_) callbacks
    · have hstats : t₀.stats = {} := congrArg Thread.stats hloaded
      refine ⟨t₀.stats, digest, .inr ⟨rfl, ?_⟩, .inr ⟨rfl, hkin.digest.symm, rfl⟩, rfl⟩
      rw [hstats]
      exact ⟨rfl, rfl⟩
    · exact ⟨#[], Array.append_empty.symm, Array.append_empty.symm⟩

/-- What a host does that starts a thread and reads what it returns. -/
def startAndRead : HostProgram Unit Unit Value :=
  .perform (.start 0) fun _ => .perform (.run .unlimited) fun _ => .look (·.returnValue 0)

/-- A thread that has run off its end is reset, started and run again, as it would be if it were
new, and returns the same. -/
theorem reset_restores_off_end :
    ∃ before q after t t₀ m', (loadAndRun offEnd).course (fun _ _ => .pure ()) 9
        (create {} (.ticking 0) ()) = before ++ q :: after ∧
      q.machine.thread? 0 = some t ∧ t.fault = some (.instructionPointer 2 2) ∧
      t₀ = q.machine.loadedThread t.program (some t.priority) t.digest ∧
      q.machine.perform (fun _ _ => .pure ()) 1 (.reset 0) = some (.ok (), m') ∧
      m'.thread? 0 = some { t₀ with running := t.running, stats := t.stats } ∧
      ∀ fuel, Option.Rel (Matches (.afresh 0 t none m'.journal #[]))
        (startAndRead.run (perform (fun _ _ => .pure ()) fuel) m')
        (startAndRead.run (perform (fun _ _ => .pure ()) fuel)
          { m'.setThread 0 (some { t₀ with running := t.running, digest := none }) with
            journal := #[] }) := by
  have hfaulted : ((loadAndRun offEnd).course (fun _ _ => .pure ()) 9
      (create {} (.ticking 0) ())).any (fun p => (p.machine.thread? 0).any fun t =>
        t.fault = some (.instructionPointer 2 2)) = true := by
    decide +kernel
  obtain ⟨q, hmem, hq⟩ := List.any_eq_true.1 hfaulted
  obtain ⟨t, ht, hfault⟩ := (Option.any_eq_true _ _).1 hq
  obtain ⟨before, after, h⟩ := List.append_of_mem hmem
  obtain ⟨-, -, -, -, t₀, -, -, -, -, -, hnew, hreset⟩ := HostProgram.reset_restores h ht
  obtain ⟨m', hperform, halters, hafresh⟩ := hreset 0
  refine ⟨before, q, after, t, t₀, m', h, ht, of_decide_eq_true hfault, hnew, hperform,
    halters.thread, fun fuel => ?_⟩
  have hblind (L : Leeway) : startAndRead.Blind L := by
    intro _ _
    exact HostProgram.blind_look fun _ _ halike => halike.returnValue 0
  exact (hafresh none #[] (fun _ _ => trivial) startAndRead (hblind _) fuel).2

end ScriptMachine
