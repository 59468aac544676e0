import Mathlib.Data.List.Chain
import ScriptMachine.Proofs.Course
import ScriptMachine.Proofs.Moves

/-!
# From point to point

`Point.Ensues` lists what can come next in a course: an operation that begins or is over, a turn
that is given, a thread that waits or wakes, an instruction, a callback that begins or returns, a
call that returns. Every course is a chain of it (`HostProgram.ensues_course`). What is to be known
of all that comes about while a host does what it does follows from this list, one case after the
other. `Instant.Next` is the same for timelines, where it does not show which thread is at it.
-/

namespace ScriptMachine

open Machine

variable {κ μ : Type} {m m' : Machine κ μ} {id : ThreadId} {now start : UInt64}
  {budget : Budget} {callbacks : Callbacks κ μ} {fuel : Nat}

/-- What comes next in a course. -/
inductive Point.Ensues (callbacks : Callbacks κ μ) : Point κ μ → Point κ μ → Prop
  /-- Nothing: a cycle that finds no thread to run, or the end of a run. -/
  | idle {m : Machine κ μ} : Ensues callbacks { machine := m } { machine := m }
  | begins {m : Machine κ μ} (op : HostOp κ) :
      Ensues callbacks { machine := m } { machine := m, act := .begins op }
  | remember {m : Machine κ μ} (f : μ → μ) :
      Ensues callbacks { machine := m } { machine := { m with memory := f m.memory } }
  | performed {op : HostOp κ} {answer : op.Answer} {fuel : Nat} {m m' : Machine κ μ} :
      op.Atomic → m.perform callbacks fuel op = some (answer, m') →
      Ensues callbacks { machine := m, act := .begins op } { machine := m' }
  /-- A run reads the clock. -/
  | run {budget : Budget} {m : Machine κ μ} :
      Ensues callbacks { machine := m, act := .begins (.run budget) } { machine := m.now.2 }
  /-- A synchronous call cannot be set up. -/
  | refused {id : ThreadId} {name : String} {e : CallError} {m m' : Machine κ μ} :
      m.beginCall id name true = (.error e, m') →
      Ensues callbacks { machine := m, act := .begins (.call id name) } { machine := m' }
  /-- A synchronous call is set up, and its thread pinned. -/
  | called {id : ThreadId} {name : String} {m m₁ : Machine κ μ} :
      m.beginCall id name true = (.ok (), m₁) →
      Ensues callbacks { machine := m, act := .begins (.call id name) }
        { machine := (m₁.pin id).now.2 }
  /-- The run of a synchronous call is over. -/
  | returned {id : ThreadId} {m₁ ended : Machine κ μ} {fuel : Nat} {outcome : RunOutcome}
      (wasRunning : Bool) :
      (m₁.pin id).run (invoke callbacks fuel) fuel .unlimited = some (outcome, ended) →
      Ensues callbacks { machine := ended }
        { machine := (ended.unpin id m₁.scheduler wasRunning outcome).2 }
  /-- A cycle gives the turn. -/
  | selects {runnable : ThreadId} {m : Machine κ μ} : m.runnable? = some runnable →
      Ensues callbacks { machine := m }
        { machine := (m.now.2.schedule runnable m.now.1).2,
          act := .selects (m.now.2.schedule runnable m.now.1).1 m.now.1 }
  | waits {id : ThreadId} {now : UInt64} {m m' : Machine κ μ} : m.ready id now = (false, m') →
      Ensues callbacks { machine := m, act := .selects id now } { machine := m' }
  | wakes {id : ThreadId} {now : UInt64} {m m' : Machine κ μ} : m.ready id now = (true, m') →
      Ensues callbacks { machine := m, act := .selects id now }
        { machine := m', act := .executes id now }
  /-- A thread executes an instruction that calls no callback. -/
  | executed {id : ThreadId} {now : UInt64} {flow : Flow} {fuel : Nat} {m m' : Machine κ μ} :
      m.callback? id = none → m.step (invoke callbacks fuel) id now = some (.ok flow, m') →
      Ensues callbacks { machine := m, act := .executes id now } { machine := m' }
  | faulted {id : ThreadId} {now : UInt64} {fault : Fault} {fuel : Nat} {m m' : Machine κ μ} :
      m.callback? id = none → m.step (invoke callbacks fuel) id now = some (.error fault, m') →
      Ensues callbacks { machine := m, act := .executes id now }
        { machine := m'.faultThread id fault }
  /-- A callback begins. -/
  | entered {id : ThreadId} {now : UInt64} {callback : κ} {m m' : Machine κ μ} :
      m.callback? id = some (callback, m') →
      Ensues callbacks { machine := m, act := .executes id now } { machine := m' }
  /-- A callback is over, and its thread goes on. -/
  | left {m : Machine κ μ} (id : ThreadId) (ip : Nat) :
      Ensues callbacks { machine := m } { machine := m.modifyThread id (·.settle ip .stay) }

open Point

theorem Machine.callback?_eq_some {f : κ} :
    m.callback? id = some (f, m') ↔
      ∃ t i call, m.thread? id = some t ∧ t.instruction? t.ip = some i ∧ i.op = .callHost ∧
        i.hostCallTarget 0 = .ok call ∧ m.registry.resolve? (t.hostCallName call) id = some f ∧
        m' = m.entering id t i := by
  simp only [callback?, Option.bind_eq_some_iff]
  constructor
  · rintro ⟨t, ht, i, hi, h⟩
    split at h
    · rename_i call hop hcall
      obtain ⟨f', hresolve, h⟩ := Option.map_eq_some_iff.1 h
      cases h
      exact ⟨t, i, call, ht, hi, hop, hcall, hresolve, rfl⟩
    · cases h
  · rintro ⟨t, i, call, ht, hi, hop, hcall, hresolve, rfl⟩
    refine ⟨t, ht, i, hi, ?_⟩
    simp only [hop, hcall, hresolve, Option.map_some]

/-! ## Along a chain -/

/-- A property that every step keeps, unless something in particular holds of the point before, is
kept along a chain unless that holds somewhere. -/
theorem exists_of_isChain {α : Type} {R : α → α → Prop} {P C : α → Prop}
    (hstep : ∀ {a b}, R a b → P a → P b ∨ C a) {p q : α} {since : List α}
    (h : (p :: since ++ [q]).IsChain R) (hp : P p) : P q ∨ ∃ c ∈ p :: since, C c := by
  induction since generalizing p with
  | nil =>
    exact (hstep (List.isChain_pair.1 h) hp).imp_right fun hc => ⟨p, List.mem_cons_self, hc⟩
  | cons r since ih =>
    obtain ⟨hnext, hrest⟩ := List.isChain_cons_cons.1 h
    obtain hr | hc := hstep hnext hp
    · exact (ih hrest hr).imp_right fun ⟨c, hmem, hc⟩ => ⟨c, List.mem_cons_of_mem p hmem, hc⟩
    · exact .inr ⟨p, List.mem_cons_self, hc⟩

/-- What holds at the end of a chain and not at its beginning has been brought about by a point,
and every point since then has kept it. -/
theorem exists_since {α : Type} {R : α → α → Prop} {P A K : α → Prop} {q : α} {before : List α}
    (hstep : ∀ {a b}, R a b → P b → A a ∨ P a ∧ K a) (h : (before ++ [q]).IsChain R)
    (hfirst : ∀ c ∈ (before ++ [q]).head?, ¬ P c) (hq : P q) :
    ∃ earlier a since, before = earlier ++ a :: since ∧ A a ∧ ∀ c ∈ since, P c ∧ K c := by
  induction before using List.reverseRecOn generalizing q with
  | nil => exact absurd hq (hfirst q rfl)
  | append_singleton before c ih =>
    rw [List.append_assoc, List.singleton_append, List.isChain_split, List.isChain_pair] at h
    obtain ⟨hchain, hlast⟩ := h
    obtain ha | ⟨hc, hkept⟩ := hstep hlast hq
    · exact ⟨before, c, [], rfl, ha, fun _ hmem => nomatch hmem⟩
    · have hfirst' : ∀ d ∈ (before ++ [c]).head?, ¬ P d := fun d hd =>
        hfirst d (List.mem_head?_append_of_mem_head? hd)
      obtain ⟨earlier, a, since, rfl, ha, hsince⟩ := ih hchain hfirst' hc
      refine ⟨earlier, a, since ++ [c], by simp, ha, fun d hd => ?_⟩
      obtain hd | hd := List.mem_append.1 hd
      · exact hsince d hd
      · rw [List.mem_singleton.1 hd]
        exact ⟨hc, hkept⟩

/-- A step of the chain has brought it about. -/
theorem exists_step_since {α : Type} {R : α → α → Prop} {P A : α → Prop} {q : α} {before : List α}
    (hstep : ∀ {a b}, R a b → P b → A a ∨ P a) (h : (before ++ [q]).IsChain R)
    (hfirst : ∀ c ∈ (before ++ [q]).head?, ¬ P c) (hq : P q) :
    ∃ earlier a b since, before ++ [q] = earlier ++ a :: b :: since ∧ R a b ∧ A a ∧
      ∀ c ∈ b :: since, P c := by
  obtain ⟨earlier, a, since, rfl, ha, hsince⟩ := exists_since (P := P) (K := fun _ => True)
    (fun hnext hb => (hstep hnext hb).imp_right fun hp => ⟨hp, trivial⟩) h hfirst hq
  have hafter : ∀ c ∈ since ++ [q], P c := by
    intro c hc
    obtain hc | hc := List.mem_append.1 hc
    · exact (hsince c hc).1
    · rwa [List.mem_singleton.1 hc]
  obtain ⟨b, rest, hrest⟩ := List.exists_cons_of_ne_nil (List.concat_ne_nil q since)
  rw [List.append_assoc, List.cons_append, hrest] at h ⊢
  have hnext : R a b := (List.isChain_cons_cons.1 (List.isChain_append.1 h).2.1).1
  exact ⟨earlier, a, b, rest, rfl, hnext, ha, hrest ▸ hafter⟩

/-- What a list begins with is what its front begins with. -/
theorem eq_of_head? {α : Type} {l before after : List α} {a q c : α}
    (h : a :: l = before ++ q :: after) (hc : c ∈ (before ++ [q]).head?) : c = a := by
  have hfirst : (before ++ q :: after).head? = some a := congrArg List.head? h.symm
  rw [List.append_cons, List.head?_append, hc] at hfirst
  exact Option.some.inj hfirst

/-! ## Chains -/

/-- What follows an activity in a course, given the machine that the activity leaves, if it comes
to an end. -/
structure Resumes (callbacks : Callbacks κ μ) (r : Option (Machine κ μ))
    (rest : List (Point κ μ)) : Prop where
  head : ∀ q ∈ rest.head?, ∃ m ∈ r, Ensues callbacks { machine := m } q
  chain : rest.IsChain (Ensues callbacks)

namespace Resumes

variable {rest : List (Point κ μ)}

theorem nil (r : Option (Machine κ μ)) : Resumes callbacks r [] where
  head _ hq := nomatch hq
  chain := .nil

theorem stuck (h : Resumes callbacks (none : Option (Machine κ μ)) rest) : rest = [] := by
  cases rest with
  | nil => rfl
  | cons q rest =>
    obtain ⟨m, hm, -⟩ := h.head q rfl
    cases hm

theorem cons (h : Resumes callbacks (some m) rest) :
    ({ machine := m } :: rest).IsChain (Ensues callbacks) := by
  refine List.isChain_cons.2 ⟨fun q hq => ?_, h.chain⟩
  obtain ⟨_, ⟨⟩, hensues⟩ := h.head q hq
  exact hensues

end Resumes

/-- The machine that an activity leaves, as a point. -/
def ends (r : Option (Machine κ μ)) : List (Point κ μ) := r.toList.map fun m => { machine := m }

theorem chain_ends {p : Point κ μ} {r : Option (Machine κ μ)}
    (h : ∀ m ∈ r, Ensues callbacks p { machine := m }) :
    (p :: ends r).IsChain (Ensues callbacks) := by
  cases r with
  | none => exact .singleton p
  | some m => exact .cons_cons (h m rfl) (.singleton _)

theorem resumes_ends {r r' : Option (Machine κ μ)}
    (h : ∀ m' ∈ r', ∃ m ∈ r, Ensues callbacks { machine := m } { machine := m' }) :
    Resumes callbacks r (ends r') := by
  cases r' with
  | none => exact .nil r
  | some m' =>
    refine ⟨fun q hq => ?_, .singleton _⟩
    cases hq
    exact h m' rfl

/-- Every operation goes from point to point. -/
def Links (callbacks : Callbacks κ μ) (fuel : Nat) : Prop :=
  ∀ (op : HostOp κ) (m : Machine κ μ),
    ({ machine := m, act := .begins op } ::
      (Machine.points callbacks fuel op m ++
        ends ((m.perform callbacks fuel op).map Prod.snd))).IsChain (Ensues callbacks)

theorem chain_program (hall : Links callbacks fuel) {α : Type} (p : HostProgram κ μ α)
    (m : Machine κ μ) {rest : List (Point κ μ)}
    (hrest : Resumes callbacks ((p.run (Machine.perform callbacks fuel) m).map Prod.snd) rest) :
    ({ machine := m } :: (p.points (Machine.perform callbacks fuel)
      (Machine.points callbacks fuel) m ++ rest)).IsChain (Ensues callbacks) := by
  induction p generalizing m with
  | pure a => exact hrest.cons
  | perform op next ih =>
    have hop := hall op m
    simp only [HostProgram.run] at hrest
    simp only [HostProgram.points, List.append_assoc, List.cons_append]
    refine List.IsChain.cons_cons (.begins op) ?_
    cases hperform : m.perform callbacks fuel op with
    | none =>
      simp only [hperform] at hrest
      simpa [hperform, ends, hrest.stuck] using hop
    | some r =>
      simp only [hperform] at hrest
      simp only [hperform] at hop
      exact List.isChain_cons_split.2 ⟨hop, ih r.1 r.2 hrest⟩
  | inspect next ih => exact ih m m hrest
  | remember f next ih => exact (ih _ hrest).cons_cons (.remember f)

/-- The points of a callback, as a cycle takes them. -/
abbrev inside (callbacks : Callbacks κ μ) (fuel : Nat) (callback : κ) (id : ThreadId) :
    Machine κ μ → List (Point κ μ) :=
  (callbacks callback id).points (Machine.perform callbacks fuel)
    (Machine.points callbacks fuel)

/-- An instruction of a thread that is ready, with the callback that it may call. -/
theorem chain_step (hall : Links callbacks fuel) (m : Machine κ μ) (id : ThreadId)
    (now : UInt64) {r : Option (Machine κ μ)}
    (hr : ∀ m' ∈ r,
      (∃ flow, m.step (invoke callbacks fuel) id now = some (.ok flow, m')) ∨
        ∃ fault m₁, m.step (invoke callbacks fuel) id now = some (.error fault, m₁) ∧
          m' = m₁.faultThread id fault) :
    ({ machine := m, act := .executes id now } ::
      (m.stepPoints (inside callbacks fuel) id ++ ends r)).IsChain (Ensues callbacks) := by
  cases hcallback : m.callback? id with
  | none =>
    simp only [stepPoints, hcallback, List.nil_append]
    refine chain_ends fun m' hm' => ?_
    obtain ⟨flow, hstep⟩ | ⟨fault, m₁, hstep, rfl⟩ := hr m' hm'
    · exact .executed hcallback hstep
    · exact .faulted hcallback hstep
  | some f =>
    obtain ⟨t, i, call, ht, hi, hop, hcall, hresolve, hf⟩ := callback?_eq_some.1 hcallback
    have hstep := step_host (invoke callbacks fuel) now ht hi hop hcall
    simp only [hresolve, ← hf] at hstep
    simp only [stepPoints, hcallback, List.cons_append]
    refine (chain_program hall _ f.2 (resumes_ends fun m' hm' => ?_)).cons_cons (.entered hcallback)
    obtain ⟨flow, hp⟩ | ⟨fault, m₁, hp, -⟩ := hr m' hm'
    · rw [hstep] at hp
      obtain ⟨m₁, hinvoke, hsettled⟩ := Option.map_eq_some_iff.1 hp
      cases hsettled
      exact ⟨m₁, hinvoke, .left id t.ip⟩
    · rw [hstep] at hp
      obtain ⟨m₂, -, hsettled⟩ := Option.map_eq_some_iff.1 hp
      cases hsettled

/-- What a cycle does after the turn is given: the thread may wake, and then it executes its
instruction. -/
theorem chain_attempt (hall : Links callbacks fuel) (m : Machine κ μ) (id : ThreadId)
    (now : UInt64) {r : Option (Machine κ μ)}
    (hr : ∀ m' ∈ r, ∃ flow, m.attempt (invoke callbacks fuel) id now = some (flow, m')) :
    (m.attemptPoints (inside callbacks fuel) id now ++ ends r).IsChain (Ensues callbacks) := by
  cases hready : m.ready id now with
  | mk woken m₁ =>
  simp only [attemptPoints, hready]
  cases woken with
  | false =>
    refine chain_ends fun m' hm' => ?_
    obtain ⟨flow, h⟩ := hr m' hm'
    obtain ⟨-, hwaits⟩ | ⟨m₂, hgoes, -⟩ := attempt_cases h
    · exact .waits hwaits
    · cases hready.symm.trans hgoes
  | true =>
    refine (chain_step hall m₁ id now fun m' hm' => ?_).cons_cons (.wakes hready)
    obtain ⟨flow, h⟩ := hr m' hm'
    obtain ⟨-, hwaits⟩ | ⟨m₂, hgoes, hstep⟩ := attempt_cases h
    · cases hready.symm.trans hwaits
    · cases hready.symm.trans hgoes
      obtain ⟨f, -, hstep⟩ | ⟨fault, m₃, -, hstep, rfl⟩ := hstep
      · exact .inl ⟨f, hstep⟩
      · exact .inr ⟨fault, m₃, hstep, rfl⟩

/-- A cycle: the turn is given, and the thread attempts its instruction. -/
theorem chain_cycle (hall : Links callbacks fuel) (start : UInt64) (budget : Budget)
    (m : Machine κ μ) :
    ({ machine := m } :: (m.cyclePoints (inside callbacks fuel) ++
      ends ((m.cycle (invoke callbacks fuel) start budget).map Prod.snd))).IsChain
        (Ensues callbacks) := by
  cases hrunnable : m.runnable? with
  | none =>
    simp only [cyclePoints, hrunnable, List.nil_append]
    refine chain_ends fun m' hm' => ?_
    obtain ⟨p, hp, rfl⟩ := Option.map_eq_some_iff.1 hm'
    obtain ⟨-, hsame, -⟩ | ⟨_, _, _, _, hsome, -⟩ := cycle_cases hp
    · rw [hsame]
      exact .idle
    · rw [hrunnable] at hsome
      cases hsome
  | some runnable =>
    simp only [cyclePoints, hrunnable]
    refine (chain_attempt hall _ _ m.now.1 fun m' hm' => ?_).cons_cons (.selects hrunnable)
    obtain ⟨p, hp, rfl⟩ := Option.map_eq_some_iff.1 hm'
    obtain ⟨hnone, -⟩ | ⟨_, id, m₁, flow, hsome, hscheduled, hattempt, -⟩ := cycle_cases hp
    · rw [hrunnable] at hnone
      cases hnone
    · rw [hrunnable] at hsome
      cases hsome
      rw [hscheduled]
      exact ⟨flow, hattempt⟩

theorem chain_cycles (hall : Links callbacks fuel) {n : Nat} (m : Machine κ μ)
    {rest : List (Point κ μ)}
    (hrest : Resumes callbacks
      ((m.cycles (invoke callbacks fuel) start budget n).map Prod.snd) rest) :
    ({ machine := m } :: (m.cyclesPoints (invoke callbacks fuel) (inside callbacks fuel) start
      budget n ++ rest)).IsChain (Ensues callbacks) := by
  induction n generalizing m with
  | zero => exact hrest.stuck ▸ .singleton _
  | succ n ih =>
    have hcycle := chain_cycle hall start budget m
    simp only [cycles] at hrest
    simp only [cyclesPoints, List.append_assoc]
    cases h : m.cycle (invoke callbacks fuel) start budget with
    | none =>
      simp only [h] at hrest hcycle
      rw [hrest.stuck]
      exact hcycle
    | some r =>
      obtain ⟨outcome, m'⟩ := r
      simp only [h] at hrest hcycle
      cases outcome with
      | none => exact List.isChain_cons_split.2 ⟨hcycle, ih m' hrest⟩
      | some outcome => exact List.isChain_cons_split.2 ⟨hcycle, hrest.cons⟩

/-- A synchronous call: its frame is set up, its thread runs pinned, and the scheduler goes on. -/
theorem chain_call (hall : Links callbacks fuel) (id : ThreadId) (name : String)
    (m : Machine κ μ) :
    ({ machine := m, act := .begins (.call id name) } ::
      (Machine.points callbacks (fuel + 1) (.call id name) m ++
        ends ((m.perform callbacks (fuel + 1) (.call id name)).map Prod.snd))).IsChain
          (Ensues callbacks) := by
  cases hbegin : m.beginCall id name true with
  | mk r m₁ =>
  cases r with
  | error e =>
    simp only [Machine.points, hbegin, List.nil_append]
    refine chain_ends fun m' hm' => ?_
    obtain ⟨r, hr, rfl⟩ := Option.map_eq_some_iff.1 hm'
    obtain ⟨_, -, hfailed⟩ | ⟨_, _, _, _, -, hdone, -⟩ := callFunction_eq_some hr
    · rw [hbegin] at hfailed
      cases hfailed
      exact .refused hbegin
    · rw [hbegin] at hdone
      cases hdone
  | ok u =>
    simp only [Machine.points, hbegin, List.cons_append]
    refine (chain_cycles hall _ (resumes_ends fun m' hm' => ?_)).cons_cons (.called hbegin)
    obtain ⟨r, hr, rfl⟩ := Option.map_eq_some_iff.1 hm'
    obtain ⟨_, -, hfailed⟩ | ⟨t, m₂, outcome, ended, -, hdone, hrun, hended⟩ :=
      callFunction_eq_some hr
    · rw [hbegin] at hfailed
      cases hfailed
    · rw [hbegin] at hdone
      cases hdone
      refine ⟨ended, Option.map_eq_some_iff.2 ⟨_, hrun, rfl⟩, ?_⟩
      rw [congrArg Prod.snd hended]
      exact .returned t.running hrun

/-- Whatever operation it is, it goes from point to point. -/
theorem links (callbacks : Callbacks κ μ) (fuel : Nat) : Links callbacks fuel := by
  induction fuel with
  | zero => exact fun op m => .singleton _
  | succ fuel ih =>
    intro op m
    have atomic (hop : op.Atomic) (hnone : Machine.points callbacks (fuel + 1) op m = []) :
        ({ machine := m, act := .begins op } ::
          (Machine.points callbacks (fuel + 1) op m ++
            ends ((m.perform callbacks (fuel + 1) op).map Prod.snd))).IsChain
              (Ensues callbacks) := by
      rw [hnone, List.nil_append]
      refine chain_ends fun m' hm' => ?_
      obtain ⟨r, hr, rfl⟩ := Option.map_eq_some_iff.1 hm'
      exact .performed hop hr
    cases op with
    | run budget =>
      exact (chain_cycles ih m.now.2 (resumes_ends fun m' hm' => ⟨m', hm', .idle⟩)).cons_cons .run
    | call x name => exact chain_call ih x name m
    | _ => exact atomic trivial rfl

/-- **A course goes from point to point.** -/
theorem HostProgram.ensues_course {α : Type} (callbacks : Callbacks κ μ) (fuel : Nat)
    (p : HostProgram κ μ α) (m : Machine κ μ) :
    (p.course callbacks fuel m).IsChain (Ensues callbacks) := by
  have hchain := chain_program (links callbacks fuel) p m (.nil _)
  rwa [List.append_nil] at hchain

/-! ## Timelines -/

/-- What comes next in a timeline. -/
inductive Instant.Next (callbacks : Callbacks κ μ) : Instant κ μ → Instant κ μ → Prop
  /-- Nothing: a cycle that finds no thread to run, or the end of a run. -/
  | idle {m : Machine κ μ} : Next callbacks { machine := m } { machine := m }
  | begins {m : Machine κ μ} (op : HostOp κ) :
      Next callbacks { machine := m } { machine := m, begins := some op }
  | remember {m : Machine κ μ} (f : μ → μ) :
      Next callbacks { machine := m } { machine := { m with memory := f m.memory } }
  | performed {op : HostOp κ} {answer : op.Answer} {fuel : Nat} {m m' : Machine κ μ} :
      op.Atomic → m.perform callbacks fuel op = some (answer, m') →
      Next callbacks { machine := m, begins := some op } { machine := m' }
  /-- A run reads the clock. -/
  | run {budget : Budget} {m : Machine κ μ} :
      Next callbacks { machine := m, begins := some (.run budget) } { machine := m.now.2 }
  /-- A synchronous call cannot be set up. -/
  | refused {id : ThreadId} {name : String} {e : CallError} {m m' : Machine κ μ} :
      m.beginCall id name true = (.error e, m') →
      Next callbacks { machine := m, begins := some (.call id name) } { machine := m' }
  /-- A synchronous call is set up, and its thread pinned. -/
  | called {id : ThreadId} {name : String} {m m₁ : Machine κ μ} :
      m.beginCall id name true = (.ok (), m₁) →
      Next callbacks { machine := m, begins := some (.call id name) }
        { machine := (m₁.pin id).now.2 }
  /-- The run of a synchronous call is over. -/
  | returned {id : ThreadId} {m₁ ended : Machine κ μ} {fuel : Nat} {outcome : RunOutcome}
      (wasRunning : Bool) :
      (m₁.pin id).run (invoke callbacks fuel) fuel .unlimited = some (outcome, ended) →
      Next callbacks { machine := ended }
        { machine := (ended.unpin id m₁.scheduler wasRunning outcome).2 }
  /-- A cycle gives the turn. -/
  | turn {runnable : ThreadId} {m : Machine κ μ} : m.runnable? = some runnable →
      Next callbacks { machine := m } { machine := (m.now.2.schedule runnable m.now.1).2 }
  | wakes {m : Machine κ μ} (id : ThreadId) (now : UInt64) :
      Next callbacks { machine := m } { machine := (m.ready id now).2 }
  /-- A thread executes an instruction that calls no callback. -/
  | executed {id : ThreadId} {now : UInt64} {flow : Flow} {fuel : Nat} {m m' : Machine κ μ} :
      m.callback? id = none → m.step (invoke callbacks fuel) id now = some (.ok flow, m') →
      Next callbacks { machine := m } { machine := m' }
  | faulted {id : ThreadId} {now : UInt64} {fault : Fault} {fuel : Nat} {m m' : Machine κ μ} :
      m.callback? id = none → m.step (invoke callbacks fuel) id now = some (.error fault, m') →
      Next callbacks { machine := m } { machine := m'.faultThread id fault }
  /-- A callback begins. -/
  | entered {id : ThreadId} {callback : κ} {m m' : Machine κ μ} :
      m.callback? id = some (callback, m') → Next callbacks { machine := m } { machine := m' }
  /-- A callback is over, and its thread goes on. -/
  | left {m : Machine κ μ} (id : ThreadId) (ip : Nat) :
      Next callbacks { machine := m } { machine := m.modifyThread id (·.settle ip .stay) }

/-- From an instant to the next one, the threads of the machine descend from those before, unless a
load begins. -/
theorem Instant.Next.descends {p q : Instant κ μ} (h : Next callbacks p q)
    (hload : ∀ op, p.begins = some op → ¬ op.Loads) : Descends p.machine q.machine := by
  cases h with
  | performed hop hperform => exact descends_of_perform hop (hload _ rfl) hperform
  | @refused x name e m m' hbegin =>
    have hset : Descends m (m.beginCall x name true).2 := .beginCall x name true
    rw [hbegin] at hset
    exact hset
  | @called x name m m₁ hbegin =>
    have hset : Descends m (m.beginCall x name true).2 := .beginCall x name true
    rw [hbegin] at hset
    exact hset.trans ((Descends.pin x).trans (.same rfl rfl))
  | @returned x m₁ ended fuel outcome wasRunning _ => exact .unpin x _ wasRunning outcome
  | @turn runnable m _ =>
    have hread : Descends m m.now.2 := .same rfl rfl
    exact hread.trans (.schedule runnable _)
  | wakes x now => exact .ready x now
  | executed hown hstep =>
    refine .step hstep fun t i call ht hi hop hcall => ?_
    refine Option.eq_none_iff_forall_ne_some.2 fun f hresolve => ?_
    rw [callback?_eq_some.2 ⟨t, i, call, ht, hi, hop, hcall, hresolve, rfl⟩] at hown
    cases hown
  | faulted _ hstep => exact .step_error hstep
  | entered hcallback =>
    obtain ⟨t, i, call, ht, hi, hop, -, -, rfl⟩ := callback?_eq_some.1 hcallback
    exact .entering ht hi hop
  | left x ip => exact .settle x ip
  | _ => exact .same rfl rfl

/-- From an instant to the next one, the threads of the machine descend from those before, or one is
loaded. -/
theorem Instant.Next.changes {p q : Instant κ μ} (h : Next callbacks p q) :
    Changes p.machine q.machine := by
  by_cases hload : ∃ op, p.begins = some op ∧ op.Loads
  · obtain ⟨op, hbegins, hload⟩ := hload
    cases h with
    | performed hop hperform => exact changes_of_perform hop hperform
    | run | refused | called =>
      cases hbegins
      exact hload.elim
    | _ => cases hbegins
  · exact .inl (h.descends fun op hbegins hloads => hload ⟨op, hbegins, hloads⟩)

/-- What comes next in a course comes next in its timeline. -/
theorem Point.Ensues.next {p q : Point κ μ} (h : Ensues callbacks p q) :
    Instant.Next callbacks p.instant q.instant := by
  cases h with
  | idle => exact .idle
  | begins op => exact .begins op
  | remember f => exact .remember f
  | performed hop hperform => exact .performed hop hperform
  | run => exact .run
  | refused hbegin => exact .refused hbegin
  | called hbegin => exact .called hbegin
  | returned wasRunning hrun => exact .returned wasRunning hrun
  | selects hrunnable => exact .turn hrunnable
  | @waits id now m m' hready =>
    rw [show m' = (m.ready id now).2 by rw [hready]]
    exact .wakes id now
  | @wakes id now m m' hready =>
    rw [show m' = (m.ready id now).2 by rw [hready]]
    exact .wakes id now
  | executed hown hstep => exact .executed hown hstep
  | faulted hown hstep => exact .faulted hown hstep
  | entered hcallback => exact .entered hcallback
  | left id ip => exact .left id ip

/-- **A timeline goes from instant to instant.** -/
theorem HostProgram.next_timeline {α : Type} (callbacks : Callbacks κ μ) (fuel : Nat)
    (p : HostProgram κ μ α) (m : Machine κ μ) :
    (p.timeline callbacks fuel m).IsChain (Instant.Next callbacks) := by
  rw [← map_instant_course, List.isChain_map]
  exact (ensues_course callbacks fuel p m).imp fun _ _ => Ensues.next

end ScriptMachine
