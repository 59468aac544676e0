import ScriptMachine.Proofs.Alone
import ScriptMachine.Proofs.Moves

/-!
# Machines that do the same

Nothing that a machine does depends on what is on record about its threads, which is their
statistics and digests, nor on its journal, and whether it traces shows in the journal alone. A
`Leeway` says how far two machines may differ in these, and `Machine.Alike` that they differ in
nothing else.

Whatever a host does to one of two such machines, it does to the other one as well: the answers are
the same, and the machines are still alike afterwards (`Machine.Alike.perform`). What the host and
its callbacks see of a machine is up to them, so they have to be such that they do the same
whichever of the two they see (`HostProgram.Blind`).
-/

namespace ScriptMachine

/-- How far two machines may differ: in what is on record about the thread in each slot, in whether
they trace, and in their journals. -/
structure Leeway where
  stats : ThreadId → Stats → Stats → Prop
  digest : ThreadId → Option (List UInt8) → Option (List UInt8) → Prop
  tracing : Bool → Bool → Prop
  journal : Array Emission → Array Emission → Prop
  stats_refl : ∀ id s, stats id s s
  digest_refl : ∀ id d, digest id d d
  tracing_refl : ∀ b, tracing b b
  /-- Both threads get a turn. -/
  turn : ∀ {id s s'}, stats id s s' →
    stats id { s with turns := s.turns + 1 } { s' with turns := s'.turns + 1 }
  /-- Both threads have executed an instruction. -/
  instruction : ∀ {id s s'}, stats id s s' →
    stats id { s with instructions := s.instructions + 1 }
      { s' with instructions := s'.instructions + 1 }
  emit : ∀ {j j'} e, journal j j' → journal (j.push e) (j'.push e)
  /-- Each machine that traces prints what comes next. -/
  trace : ∀ {b b' j j'} text, tracing b b' → journal j j' →
    journal (if b then j.push (.output text) else j) (if b' then j'.push (.output text) else j')

/-! ## Threads -/

namespace Thread

/-- A thread with something else on record. -/
def recorded (t : Thread) (stats : Stats) (digest : Option (List UInt8)) : Thread :=
  { t with stats, digest }

section Recorded

variable (stats : Stats) (digest : Option (List UInt8))

theorem call_recorded (t : Thread) (f returnTo : Nat) (sync : Bool) :
    (t.recorded stats digest).call f returnTo sync =
      ((t.call f returnTo sync).1, (t.call f returnTo sync).2.recorded stats digest) := by
  have hself := call_veiled t.paused t.wakeAt t.stats t.digest t f returnTo sync
  exact (call_veiled t.paused t.wakeAt stats digest t f returnTo sync).trans
    (Prod.ext rfl (congrArg (fun r => r.2.recorded stats digest) hself.symm))

/-- Instructions read neither the statistics of their thread nor its digest. -/
theorem execute_recorded (t : Thread) (i : Instruction) (now : UInt64) (pinned : Bool) :
    (t.recorded stats digest).execute i now pinned =
      ((t.execute i now pinned).1, (t.execute i now pinned).2.recorded stats digest) := by
  by_cases hop : i.op = .pause
  · simp only [execute, hop,
      show (t.recorded stats digest).intValue i 0 = t.intValue i 0 from rfl]
    cases t.intValue i 0 with
    | error fault => rfl
    | ok ms => cases pinned <;> rfl
  · have hself := execute_veiled t.paused t.wakeAt t.stats t.digest t now pinned hop
    refine (execute_veiled t.paused t.wakeAt stats digest t now pinned hop).trans ?_
    exact (congrArg (fun r => (r.1, r.2.recorded stats digest)) hself).symm

theorem reset_recorded (t : Thread) :
    (t.recorded stats digest).reset = t.reset.map (·.recorded stats digest) := by
  simp only [reset, recorded]
  cases openFrames t.program t.stack.clear <;> rfl

end Recorded
end Thread

/-- Either both are there and related, or neither is there. -/
theorem rel_cases {α β : Type} {R : α → β → Prop} {x : Option α} {y : Option β}
    (h : Option.Rel R x y) :
    x = none ∧ y = none ∨ ∃ a b, x = some a ∧ y = some b ∧ R a b := by
  cases h with
  | none => exact .inl ⟨rfl, rfl⟩
  | some hr => exact .inr ⟨_, _, rfl, rfl, hr⟩

namespace Leeway

variable {L : Leeway} {id : ThreadId} {t t' : Thread}

/-- Two threads in a slot differ in what is on record about them, no further than they may. -/
def Admits (L : Leeway) (id : ThreadId) (t t' : Thread) : Prop :=
  ∃ stats digest, L.stats id t.stats stats ∧ L.digest id t.digest digest ∧
    t' = t.recorded stats digest

namespace Admits

theorem refl (L : Leeway) (id : ThreadId) (t : Thread) : L.Admits id t t :=
  ⟨t.stats, t.digest, L.stats_refl id _, L.digest_refl id _, rfl⟩

theorem running (h : L.Admits id t t') : t'.running = t.running := by
  obtain ⟨_, _, -, -, rfl⟩ := h
  rfl

/-- A change of the thread and an answer that have nothing to do with what is on record. -/
theorem answers {α : Type} {f : Thread → α × Thread}
    (hf : ∀ t stats digest, f (t.recorded stats digest) = ((f t).1, (f t).2.recorded stats digest))
    (h : L.Admits id t t') :
    ∃ a u u', f t = (a, u) ∧ f t' = (a, u') ∧ L.Admits id u u' := by
  obtain ⟨stats, digest, hstats, hdigest, rfl⟩ := h
  -- the change leaves what is on record, as setting that to what it is already shows
  have hself : f t = ((f t).1, (f t).2.recorded t.stats t.digest) := hf t t.stats t.digest
  have hstats' : (f t).2.stats = t.stats := congrArg (fun r => r.2.stats) hself
  have hdigest' : (f t).2.digest = t.digest := congrArg (fun r => r.2.digest) hself
  exact ⟨(f t).1, (f t).2, _, rfl, hf t stats digest, stats, digest, hstats'.symm ▸ hstats,
    hdigest'.symm ▸ hdigest, rfl⟩

/-- A change of the thread that has nothing to do with what is on record. -/
theorem map {f : Thread → Thread}
    (hf : ∀ t stats digest, f (t.recorded stats digest) = (f t).recorded stats digest)
    (h : L.Admits id t t') : L.Admits id (f t) (f t') := by
  obtain ⟨a, u, u', hu, hu', hadmits⟩ := h.answers (f := fun t => ((), f t))
    fun t stats digest => Prod.ext rfl (hf t stats digest)
  cases hu
  cases hu'
  exact hadmits

/-- A change of the thread that may fail, and has nothing to do with what is on record. -/
theorem changes {ε : Type} {f : Thread → Except ε Thread}
    (hf : ∀ t stats digest, f (t.recorded stats digest) = (f t).map (·.recorded stats digest))
    (h : L.Admits id t t') :
    (∃ e, f t = .error e ∧ f t' = .error e) ∨
      ∃ u u', f t = .ok u ∧ f t' = .ok u' ∧ L.Admits id u u' := by
  obtain ⟨stats, digest, hstats, hdigest, rfl⟩ := h
  have hself : f t = (f t).map (·.recorded t.stats t.digest) := hf t t.stats t.digest
  rw [hf]
  cases hu : f t with
  | error e => exact .inl ⟨e, rfl, rfl⟩
  | ok u =>
    rw [hu] at hself
    have hrecorded : u = u.recorded t.stats t.digest := Except.ok.inj hself
    refine .inr ⟨u, _, rfl, rfl, stats, digest, ?_, ?_, rfl⟩
    · rwa [hrecorded]
    · rwa [hrecorded]

theorem turn (h : L.Admits id t t') :
    L.Admits id { t with stats := { t.stats with turns := t.stats.turns + 1 } }
      { t' with stats := { t'.stats with turns := t'.stats.turns + 1 } } := by
  obtain ⟨stats, digest, hstats, hdigest, rfl⟩ := h
  exact ⟨_, digest, L.turn hstats, hdigest, rfl⟩

theorem settle (h : L.Admits id t t') (ip : Nat) (flow : Flow) :
    L.Admits id (t.settle ip flow) (t'.settle ip flow) := by
  obtain ⟨stats, digest, hstats, hdigest, rfl⟩ := h
  exact ⟨_, digest, L.instruction hstats, hdigest, rfl⟩

theorem stopWith (h : L.Admits id t t') (fault : Fault) :
    L.Admits id (t.stopWith fault) (t'.stopWith fault) :=
  h.map (f := (·.stopWith fault)) fun _ _ _ => rfl

end Admits
end Leeway

namespace Machine

variable {κ μ α : Type} {L : Leeway} {m m' : Machine κ μ} {id : ThreadId}

/-! ## Machines -/

/-- Two machines differ no further than they may. -/
structure Alike (L : Leeway) (m m' : Machine κ μ) : Prop where
  size : m'.threads.size = m.threads.size
  thread : ∀ id, Option.Rel (L.Admits id) (m.thread? id) (m'.thread? id)
  tracing : L.tracing m.tracing m'.tracing
  journal : L.journal m.journal m'.journal
  rest : m' = { m with threads := m'.threads, tracing := m'.tracing, journal := m'.journal }

/-- Two machines that are alike, with the same answer. -/
structure Matches (L : Leeway) (r r' : α × Machine κ μ) : Prop where
  answer : r'.1 = r.1
  machine : Alike L r.2 r'.2

theorem Matches.exists_eq {r r' : α × Machine κ μ} (h : Matches L r r') :
    ∃ a n n', r = (a, n) ∧ r' = (a, n') ∧ Alike L n n' :=
  ⟨r.1, r.2, r'.2, rfl, Prod.ext h.answer rfl, h.machine⟩

/-- Either both come to an end with machines that are alike, and with the same answer, or neither
does. -/
theorem matches_cases {x x' : Option (α × Machine κ μ)} (h : Option.Rel (Matches L) x x') :
    x = none ∧ x' = none ∨ ∃ a n n', x = some (a, n) ∧ x' = some (a, n') ∧ Alike L n n' := by
  obtain hnone | ⟨r, r', hr, hr', hmatches⟩ := rel_cases h
  · exact .inl hnone
  · obtain ⟨a, n, n', rfl, rfl, hn⟩ := hmatches.exists_eq
    exact .inr ⟨a, n, n', hr, hr', hn⟩

namespace Alike

theorem exists_eq (h : Alike L m m') : ∃ threads tracing journal,
    m' = { m with threads, tracing, journal } := ⟨_, _, _, h.rest⟩

/-- What is read off a slot is the same, unless it is on record. -/
theorem read (h : Alike L m m') {f : Option Thread → α}
    (hf : ∀ t stats digest, f (some (t.recorded stats digest)) = f (some t)) (id : ThreadId) :
    f (m'.thread? id) = f (m.thread? id) := by
  obtain ⟨ht, ht'⟩ | ⟨t, t', ht, ht', stats, digest, -, -, rfl⟩ := rel_cases (h.thread id)
  · rw [ht, ht']
  · rw [ht, ht', hf]

theorem isSome_thread? (h : Alike L m m') (id : ThreadId) :
    (m'.thread? id).isSome = (m.thread? id).isSome :=
  h.read (f := Option.isSome) (fun _ _ _ => rfl) id

theorem isRunning (h : Alike L m m') (id : ThreadId) : m'.isRunning id = m.isRunning id :=
  h.read (f := Option.any (·.running)) (fun _ _ _ => rfl) id

theorem returnValue (h : Alike L m m') (id : ThreadId) : m'.returnValue id = m.returnValue id :=
  h.read (f := fun u => (u.map Thread.returnValue).getD Value.null) (fun _ _ _ => rfl) id

theorem scheduler (h : Alike L m m') : m'.scheduler = m.scheduler := by rw [h.rest]

theorem registry (h : Alike L m m') : m'.registry = m.registry := by rw [h.rest]

theorem config (h : Alike L m m') : m'.config = m.config := by rw [h.rest]

/-- What does not show in the threads may change in the same way. -/
theorem equip (h : Alike L m m') (registry : Registry κ) (scheduler : Scheduler) (clock : Clock)
    (memory : μ) :
    Alike L { m with registry, scheduler, clock, memory }
      { m' with registry, scheduler, clock, memory } where
  size := h.size
  thread := h.thread
  tracing := h.tracing
  journal := h.journal
  rest := by rw [h.rest]

theorem setThread (h : Alike L m m') {u u' : Option Thread} (hu : Option.Rel (L.Admits id) u u') :
    Alike L (m.setThread id u) (m'.setThread id u') where
  size := by rw [size_setThread, size_setThread, h.size]
  thread j := by
    simp only [thread?_setThread, h.size]
    split
    · rename_i hj
      exact hj.1 ▸ hu
    · exact h.thread j
  tracing := h.tracing
  journal := h.journal
  rest := by rw [h.rest]; rfl

theorem set (h : Alike L m m') {t t' : Thread} (ht : L.Admits id t t') :
    Alike L (m.setThread id (some t)) (m'.setThread id (some t')) := h.setThread (.some ht)

theorem modifyThread (h : Alike L m m') {f : Thread → Thread}
    (hf : ∀ t t', L.Admits id t t' → L.Admits id (f t) (f t')) :
    Alike L (m.modifyThread id f) (m'.modifyThread id f) where
  size := by rw [size_modifyThread, size_modifyThread, h.size]
  thread j := by
    rw [thread?_modifyThread, thread?_modifyThread]
    split
    · rename_i hj
      subst hj
      obtain ⟨ht, ht'⟩ | ⟨t, t', ht, ht', hadmits⟩ := rel_cases (h.thread id)
      · rw [ht, ht']
        exact .none
      · rw [ht, ht']
        exact .some (hf t t' hadmits)
    · exact h.thread j
  tracing := h.tracing
  journal := h.journal
  rest := by rw [h.rest]; rfl

/-- A thread may be changed in what is not on record. -/
theorem control (h : Alike L m m') {f : Thread → Thread}
    (hf : ∀ t stats digest, f (t.recorded stats digest) = (f t).recorded stats digest) :
    Alike L (m.modifyThread id f) (m'.modifyThread id f) :=
  h.modifyThread fun _ _ hadmits => hadmits.map hf

theorem emit (h : Alike L m m') (e : Emission) : Alike L (m.emit e) (m'.emit e) where
  size := h.size
  thread := h.thread
  tracing := h.tracing
  journal := L.emit e h.journal
  rest := by rw [h.rest]; rfl

theorem log (h : Alike L m m') (e : Event) : Alike L (m.log e) (m'.log e) := h.emit _

theorem printTrace (h : Alike L m m') {t t' : Thread} (ht : L.Admits id t t') (i : Instruction) :
    Alike L (m.printTrace id t i) (m'.printTrace id t' i) := by
  obtain ⟨stats, digest, -, -, rfl⟩ := ht
  have hjournal := L.trace (unlines (t.trace id i)) h.tracing h.journal
  have hprinted (m : Machine κ μ) (t : Thread) : m.printTrace id t i =
      { m with journal := if m.tracing then m.journal.push (.output (unlines (t.trace id i)))
        else m.journal } := by
    simp only [Machine.printTrace]
    split <;> rfl
  rw [hprinted, hprinted]
  exact ⟨h.size, h.thread, h.tracing, hjournal, by rw [h.rest]⟩

theorem now (h : Alike L m m') : Matches L m.now m'.now := by
  obtain ⟨_, _, _, rfl⟩ := h.exists_eq
  exact ⟨rfl, h.equip m.registry m.scheduler _ m.memory⟩

theorem faultThread (h : Alike L m m') (id : ThreadId) (fault : Fault) :
    Alike L (m.faultThread id fault) (m'.faultThread id fault) := by
  simp only [Machine.faultThread]
  obtain ⟨ht, ht'⟩ | ⟨t, t', ht, ht', stats, digest, -, -, rfl⟩ := rel_cases (h.thread id)
  · rw [ht, ht']
    exact h
  · rw [ht, ht']
    exact (h.log _).control fun _ _ _ => rfl

/-! ## What the host does -/

theorem onThread (h : Alike L m m') {f : Thread → Except CallError Thread}
    (hf : ∀ t stats digest, f (t.recorded stats digest) = (f t).map (·.recorded stats digest)) :
    Matches L (m.onThread id f) (m'.onThread id f) := by
  simp only [Machine.onThread]
  obtain ⟨ht, ht'⟩ | ⟨t, t', ht, ht', hadmits⟩ := rel_cases (h.thread id)
  · rw [ht, ht']
    exact ⟨rfl, h⟩
  · rw [ht, ht']
    obtain ⟨e, hu, hu'⟩ | ⟨u, u', hu, hu', hadmits'⟩ := hadmits.changes hf
    · simp only [hu, hu']
      exact ⟨rfl, h⟩
    · simp only [hu, hu']
      exact ⟨rfl, h.set hadmits'⟩

theorem logged {r r' : Except CallError Unit × Machine κ μ} (h : Matches L r r') (event : Event) :
    Matches L (Machine.logged event r) (Machine.logged event r') := by
  obtain ⟨answer, n, n', rfl, rfl, hn⟩ := h.exists_eq
  cases answer with
  | error e => exact ⟨rfl, hn⟩
  | ok u => exact ⟨rfl, hn.log event⟩

theorem reset (h : Alike L m m') (id : ThreadId) : Matches L (m.reset id) (m'.reset id) := by
  refine logged (h.onThread fun t stats digest => ?_) _
  rw [Thread.reset_recorded]
  cases t.reset <;> rfl

theorem start (h : Alike L m m') (id : ThreadId) : Matches L (m.start id) (m'.start id) := by
  have hrun : Matches L (m.onThread id fun t => .ok { t with running := true })
      (m'.onThread id fun t => .ok { t with running := true }) := h.onThread fun _ _ _ => rfl
  obtain ⟨answer, n, n', hr, hr', hn⟩ := hrun.exists_eq
  simp only [Machine.start, hr, hr']
  cases answer with
  | error e => exact ⟨rfl, hn⟩
  | ok u =>
    refine ⟨rfl, log ?_ _⟩
    obtain ⟨_, _, _, rfl⟩ := hn.exists_eq
    simp only
    split
    · exact hn.equip n.registry _ n.clock n.memory
    · exact hn

theorem stop (h : Alike L m m') (id : ThreadId) : Matches L (m.stop id) (m'.stop id) :=
  logged (h.onThread fun _ _ _ => rfl) _

theorem pause (h : Alike L m m') (id : ThreadId) (ms : UInt64) :
    Matches L (m.pause id ms) (m'.pause id ms) := by
  simp only [Machine.pause, h.now.answer]
  exact h.now.machine.onThread fun _ _ _ => rfl

theorem unpause (h : Alike L m m') (id : ThreadId) : Matches L (m.unpause id) (m'.unpause id) :=
  h.onThread fun _ _ _ => rfl

theorem pass (h : Alike L m m') (id : ThreadId) (v : HostValue) :
    Matches L (m.pass id v) (m'.pass id v) := by
  refine h.onThread fun t stats digest => ?_
  simp only [Thread.recorded]
  cases t.stack.push v.toValue <;> rfl

theorem hostReturn (h : Alike L m m') (id : ThreadId) (params : Nat) (v : Option HostValue) :
    Alike L (m.hostReturn id params v) (m'.hostReturn id params v) := by
  simp only [Machine.hostReturn]
  obtain ⟨ht, ht'⟩ | ⟨t, t', ht, ht', hadmits⟩ := rel_cases (h.thread id)
  · rw [ht, ht']
    exact h
  · rw [ht, ht']
    have hreturned : L.Admits id
        { t with returnValue := (v.map HostValue.toValue).getD t.returnValue }
        { t' with returnValue := (v.map HostValue.toValue).getD t'.returnValue } :=
      hadmits.map
        (f := fun t => { t with returnValue := (v.map HostValue.toValue).getD t.returnValue })
        fun _ _ _ => rfl
    have hstack : t'.stack = t.stack := by
      obtain ⟨_, _, -, -, rfl⟩ := hadmits
      rfl
    simp only [hstack] at hreturned ⊢
    cases t.stack.popFrame params with
    | ok s => exact h.set (hreturned.map (f := fun t => { t with stack := s }) fun _ _ _ => rfl)
    | error fault => exact (h.set hreturned).faultThread id fault

theorem beginCall (h : Alike L m m') (id : ThreadId) (name : String) (sync : Bool) :
    Matches L (m.beginCall id name sync) (m'.beginCall id name sync) := by
  simp only [Machine.beginCall]
  obtain ⟨ht, ht'⟩ | ⟨t, t', ht, ht', hadmits⟩ := rel_cases (h.thread id)
  · rw [ht, ht']
    exact ⟨rfl, h⟩
  · have hsame : t'.program = t.program ∧ t'.ip = t.ip := by
      obtain ⟨_, _, -, -, rfl⟩ := hadmits
      exact ⟨rfl, rfl⟩
    simp only [ht, ht', hsame]
    cases t.program.findFunction? name with
    | none => exact ⟨rfl, h⟩
    | some f =>
      obtain ⟨answer, u, u', hu, hu', hadmits'⟩ :=
        hadmits.answers (f := fun u => u.call f t.ip sync) fun u stats digest =>
          Thread.call_recorded stats digest u f t.ip sync
      simp only at hu hu' ⊢
      rw [hu, hu']
      cases answer with
      | ok entry =>
        exact ⟨rfl, h.set (hadmits'.map (f := fun t => { t with ip := entry }) fun _ _ _ => rfl)⟩
      | error fault => exact ⟨rfl, (h.set hadmits').faultThread id fault⟩

theorem pin (h : Alike L m m') (id : ThreadId) : Alike L (m.pin id) (m'.pin id) := by
  have hrun : Alike L (m.modifyThread id fun t => { t with running := true })
      (m'.modifyThread id fun t => { t with running := true }) :=
    h.control fun _ _ _ => rfl
  obtain ⟨_, _, _, rfl⟩ := h.exists_eq
  exact hrun.equip m.registry _ m.clock m.memory

theorem unpin (h : Alike L m m') (id : ThreadId) (saved : Scheduler) (wasRunning : Bool)
    (outcome : RunOutcome) :
    Matches L (m.unpin id saved wasRunning outcome) (m'.unpin id saved wasRunning outcome) := by
  have hsaved : Alike L { m with scheduler := saved } { m' with scheduler := saved } := by
    obtain ⟨_, _, _, rfl⟩ := h.exists_eq
    exact h.equip m.registry saved m.clock m.memory
  simp only [Machine.unpin]
  split
  · exact ⟨rfl, hsaved.control fun _ _ _ => rfl⟩
  · exact ⟨rfl, hsaved⟩

/-! ## Loading -/

/-- A search for a slot finds the same one, if it looks for what is not on record. -/
theorem findIdx? (h : Alike L m m') {p : Option Thread → Bool}
    (hp : ∀ {id u u'}, Option.Rel (L.Admits id) u u' → p u' = p u) :
    m'.threads.findIdx? p = m.threads.findIdx? p := by
  have hmap : m'.threads.map p = m.threads.map p := by
    refine Array.ext (by simp [h.size]) fun i hi' hi => ?_
    rw [Array.size_map] at hi hi'
    have hslot := h.thread i
    rw [thread?, thread?, Array.getElem?_eq_getElem hi, Array.getElem?_eq_getElem hi',
      Option.join_some, Option.join_some] at hslot
    rw [Array.getElem_map, Array.getElem_map]
    exact hp hslot
  have hsearch (threads : Array (Option Thread)) :
      threads.findIdx? p = (threads.map p).findIdx? id := by
    rw [Array.findIdx?_map]
    rfl
  rw [hsearch, hsearch, hmap]

theorem freeSlot (h : Alike L m m') : m'.freeSlot = m.freeSlot := by
  simp only [Machine.freeSlot, h.config, h.size]
  rw [h.findIdx? fun hslot => by cases hslot <;> rfl]

theorem newThread (h : Alike L m m') (image : Image) (priority : Option Priority) :
    m'.newThread image priority = m.newThread image priority := by
  rw [h.rest]
  rfl

/-- A thread may be put behind the last slot. -/
theorem push (h : Alike L m m') (t : Thread) :
    Alike L { m with threads := m.threads.push (some t) }
      { m' with threads := m'.threads.push (some t) } where
  size := by rw [Array.size_push, Array.size_push, h.size]
  thread j := by
    simp only [thread?, Array.getElem?_push, h.size]
    split
    · exact .some (.refl L j t)
    · exact h.thread j
  tracing := h.tracing
  journal := h.journal
  rest := by rw [h.rest]

theorem place (h : Alike L m m') (id : ThreadId) (t : Thread) :
    Alike L (m.place id t) (m'.place id t) := by
  have hput {m m' : Machine κ μ} (h : Alike L m m') :
      Alike L (if id < m.threads.size then m.setThread id (some t)
          else { m with threads := m.threads.push (some t) })
        (if id < m'.threads.size then m'.setThread id (some t)
          else { m' with threads := m'.threads.push (some t) }) := by
    by_cases hid : id < m.threads.size
    · rw [if_pos hid, if_pos (h.size.symm ▸ hid)]
      exact h.set (.refl L id t)
    · rw [if_neg hid, if_neg (h.size.symm ▸ hid)]
      exact h.push t
  exact hput (h.log _)

/-- A load takes a slot, examines what is to be loaded, and makes a thread of it. -/
theorem loads {β : Type} (h : Alike L m m') (examine : Except LoadError β) (program : β → Image)
    (priority : Option Priority) (finish : Thread → Thread) :
    Matches L (m.answerLoad do
        let slot ← m.freeSlot
        let a ← examine
        let t ← m.newThread (program a) priority
        return (slot, m.place slot (finish t)))
      (m'.answerLoad do
        let slot ← m'.freeSlot
        let a ← examine
        let t ← m'.newThread (program a) priority
        return (slot, m'.place slot (finish t))) := by
  simp only [h.freeSlot, h.newThread]
  cases m.freeSlot with
  | error e => exact ⟨rfl, h⟩
  | ok slot =>
    cases examine with
    | error e => exact ⟨rfl, h⟩
    | ok a =>
      change Matches L
        (m.answerLoad (m.newThread (program a) priority >>= fun t =>
          return (slot, m.place slot (finish t))))
        (m'.answerLoad (m.newThread (program a) priority >>= fun t =>
          return (slot, m'.place slot (finish t))))
      cases m.newThread (program a) priority with
      | error e => exact ⟨rfl, h⟩
      | ok t => exact ⟨rfl, h.place slot (finish t)⟩

theorem load (h : Alike L m m') (image : Image) (priority : Option Priority) :
    Matches L (m.answerLoad (m.load image priority)) (m'.answerLoad (m'.load image priority)) :=
  h.loads image.validate (fun _ => image) priority fun t => t

theorem loadFile (h : Alike L m m') (contents : Except FileError (List UInt8))
    (priority : Option Priority) :
    Matches L (m.answerLoad (m.loadFile contents priority))
      (m'.answerLoad (m'.loadFile contents priority)) := by
  cases contents with
  | error e => exact ⟨rfl, h⟩
  | ok bytes =>
    exact h.loads (Executable.decode bytes) (fun image => image) priority fun t =>
      { t with digest := some (Sha256.digest bytes) }

theorem unload (h : Alike L m m') (id : ThreadId) : Alike L (m.unload id) (m'.unload id) := by
  simp only [Machine.unload]
  obtain ⟨ht, ht'⟩ | ⟨t, t', ht, ht', -⟩ := rel_cases (h.thread id)
  · rw [ht, ht']
    exact h
  · rw [ht, ht']
    have hset : Alike L (m.setThread id none) (m'.setThread id none) := h.setThread .none
    obtain ⟨_, _, _, rfl⟩ := h.exists_eq
    exact (hset.equip (m.registry.removeThread id) m.scheduler m.clock m.memory).log _

theorem shutdown (h : Alike L m m') : Alike L m.shutdown m'.shutdown := by
  have hloaded : m'.loadedThreads = m.loadedThreads := by
    simp only [loadedThreads, h.size, h.isSome_thread?]
  have hunloads (ids : List ThreadId) {m m' : Machine κ μ} (h : Alike L m m') :
      Alike L (ids.foldl Machine.unload m) (ids.foldl Machine.unload m') := by
    induction ids generalizing m m' with
    | nil => exact h
    | cons id ids ih => exact ih (h.unload id)
  have hcleared {m m' : Machine κ μ} (h : Alike L m m') :
      Alike L { m with threads := #[], registry := m.registry.clear, scheduler := {} }
        { m' with threads := #[], registry := m'.registry.clear, scheduler := {} } :=
    ⟨rfl, fun _ => .none, h.tracing, h.journal, by rw [h.rest]⟩
  simp only [Machine.shutdown, hloaded]
  exact (hcleared (hunloads m.loadedThreads h)).log _

end Alike
end Machine
end ScriptMachine
