import ScriptMachine.Proofs.Framing
import ScriptMachine.Proofs.Lockstep

/-!
# Traces as observers

A trace shows what a thread is about to do and changes nothing of it. A machine that traces and one
that does not are alike but for what they print (`alike_untraced_iff`), so they run in lockstep as
long as nobody asks which of them traces.

A trace shows slices of the live slots, between the base of the frame and the top. The base may be
above the top, and a slice that is out of range cannot be shown. `Thread.trace?` looks at each range
before it takes a slice: it needs no more than that the top is within the stack, which it always is.
-/

namespace ScriptMachine

variable {κ μ α : Type}

/-! ## Slices -/

/-- A slice of a list, if it is in range. -/
def slice? (xs : List α) (first last : Nat) : Option (List α) :=
  if first ≤ last ∧ last ≤ xs.length then some ((xs.take last).drop first) else none

theorem slice?_of_le {xs : List α} {first last : Nat} (h : first ≤ last)
    (hlast : last ≤ xs.length) : slice? xs first last = some ((xs.take last).drop first) :=
  if_pos ⟨h, hlast⟩

namespace Thread

variable {t : Thread}

/-- The trace of a thread, if all slices that it shows are in range. -/
def trace? (t : Thread) (id : ThreadId) (i : Instruction) : Option (List String) := do
  let live ← slice? t.stack.slots.toList 0 t.stack.top
  let base := min t.stack.base live.length
  let first := base - tracedSlots
  let pushed ← slice? live base live.length
  let frame ←
    if first < base then (slice? live first base).map fun slots =>
      [s!"  frame[{first}..{base}]: {bracketed slots}"]
    else some []
  return [s!"T{id} IP={Image.writtenPointer t.ip} {t.program.writtenInstruction i}",
      s!"  stack: {bracketed pushed}"] ++ frame ++
    if t.paused then [s!"  paused until {t.wakeAt.toNat}ms"] else []

/-- The slices of a trace are in range just if the live slots are, wherever the base of the frame
is. -/
theorem trace?_eq (t : Thread) (id : ThreadId) (i : Instruction) :
    t.trace? id i = if t.stack.top ≤ t.stack.capacity then some (t.trace id i) else none := by
  have hslots : t.stack.slots.toList.length = t.stack.capacity := Array.length_toList
  by_cases htop : t.stack.top ≤ t.stack.capacity
  · have hlive : slice? t.stack.slots.toList 0 t.stack.top = some t.stack.live := by
      rw [slice?_of_le (Nat.zero_le _) (by rwa [hslots])]
      simp [Stack.live]
    have hbase : min t.stack.base t.stack.live.length ≤ t.stack.live.length := Nat.min_le_right ..
    have hfirst : min t.stack.base t.stack.live.length - tracedSlots ≤
        min t.stack.base t.stack.live.length := Nat.sub_le ..
    rw [if_pos htop, trace?, hlive]
    simp only [Option.bind_eq_bind, Option.bind_some, slice?_of_le hbase (Nat.le_refl _),
      slice?_of_le hfirst hbase, List.take_length, trace]
    split <;> rfl
  · rw [if_neg htop, trace?, slice?, if_neg fun h => htop (hslots ▸ h.2)]
    rfl

end Thread

/-! ## Machines that print less -/

/-- The event that an emission reports, if it is not output. -/
def Emission.event? : Emission → Option Event
  | log event => some event
  | output _ => none

/-- What a machine has logged. -/
def Machine.events (m : Machine κ μ) : List Event := m.journal.toList.filterMap Emission.event?

/-- The second machine is the first one, except that it may not trace and may have printed less. -/
structure Machine.SameButOutput (m m' : Machine κ μ) : Prop where
  rest : m' = { m with tracing := m'.tracing, journal := m'.journal }
  tracing : m'.tracing = true → m.tracing = true
  events : m'.events = m.events
  output : m'.journal.toList.Sublist m.journal.toList

/-- The same answer, and machines that are the same but for their output. -/
structure Machine.SameResult (r r' : α × Machine κ μ) : Prop where
  answer : r'.1 = r.1
  machine : r.2.SameButOutput r'.2

/-- How a machine that does not trace may differ from one that does. -/
def Leeway.untraced : Leeway where
  stats _ s s' := s' = s
  digest _ d d' := d' = d
  tracing b b' := b' = true → b = true
  journal j j' := j'.toList.Sublist j.toList ∧
    j'.toList.filterMap Emission.event? = j.toList.filterMap Emission.event?
  stats_refl _ _ := rfl
  digest_refl _ _ := rfl
  tracing_refl _ h := h
  turn := by
    rintro _ _ _ rfl
    rfl
  instruction := by
    rintro _ _ _ rfl
    rfl
  emit e := by
    rintro ⟨hsublist, hevents⟩
    simp only [Array.toList_push, List.filterMap_append, hevents, and_true]
    exact hsublist.append (.refl _)
  trace {b b' _ _} text htracing := by
    rintro ⟨hsublist, hevents⟩
    have hsilent : [Emission.output text].filterMap Emission.event? = [] := rfl
    cases b with
    | false =>
      obtain rfl : b' = false := Bool.eq_false_iff.2 fun h => absurd (htracing h) (by decide)
      exact ⟨hsublist, hevents⟩
    | true =>
      cases b' with
      | false =>
        simp only [if_true, Bool.false_eq_true, if_false, Array.toList_push, List.filterMap_append,
          hsilent, List.append_nil, hevents, and_true]
        exact hsublist.trans (List.sublist_append_left _ _)
      | true =>
        simp only [if_true, Array.toList_push, List.filterMap_append, hevents, and_true]
        exact hsublist.append (.refl _)

namespace Machine

variable {m m' : Machine κ μ}

theorem admits_untraced_iff {id : ThreadId} {t t' : Thread} :
    Leeway.untraced.Admits id t t' ↔ t' = t := by
  constructor
  · rintro ⟨_, _, rfl, rfl, rfl⟩
    rfl
  · rintro rfl
    exact .refl _ id _

/-- Machines that are alike in all but traces are the same but for their output. -/
theorem alike_untraced_iff : Alike .untraced m m' ↔ m.SameButOutput m' := by
  constructor
  · intro h
    have hthreads : m'.threads = m.threads := by
      refine Array.ext h.size fun id hid' hid => ?_
      have hslot := h.thread id
      rw [thread?, thread?, Array.getElem?_eq_getElem hid, Array.getElem?_eq_getElem hid',
        Option.join_some, Option.join_some] at hslot
      obtain ⟨hnone, hnone'⟩ | ⟨t, t', ht, ht', hadmits⟩ := rel_cases hslot
      · rw [hnone, hnone']
      · rw [ht, ht', admits_untraced_iff.1 hadmits]
    refine ⟨?_, h.tracing, h.journal.2, h.journal.1⟩
    rw [← hthreads]
    exact h.rest
  · rintro ⟨hrest, htracing, hevents, houtput⟩
    have hthreads : m'.threads = m.threads := by rw [hrest]
    refine ⟨by rw [hthreads], fun id => ?_, htracing, ⟨houtput, hevents⟩, ?_⟩
    · rw [thread?, thread?, hthreads]
      cases (m.threads[id]?).join with
      | none => exact .none
      | some t => exact .some (.refl _ id t)
    · rw [hthreads]
      exact hrest

theorem Matches.sameResult {r r' : α × Machine κ μ} (h : Matches .untraced r r') :
    SameResult r r' := ⟨h.answer, alike_untraced_iff.1 h.machine⟩

theorem rel_sameResult {x x' : Option (α × Machine κ μ)}
    (h : Option.Rel (Matches .untraced) x x') : Option.Rel SameResult x x' := by
  cases h with
  | none => exact .none
  | some h => exact .some h.sameResult

end Machine

/-! ## Courses with and without traces -/

/-- The callback that a thread is about to call. -/
def Point.call? (p : Point κ μ) : Option (κ × ThreadId) :=
  match p.act with
  | .executes id _ => (p.machine.callback? id).map fun r => (r.1, id)
  | .rests | .begins _ | .selects .. => none

/-- The same is about to happen on machines that are the same but for their output. -/
structure Point.SameButOutput (p q : Point κ μ) : Prop where
  act : q.act = p.act
  call : q.call? = p.call?
  machine : p.machine.SameButOutput q.machine

theorem Point.Alike.call? {L : Leeway} {p q : Point κ μ} (h : Point.Alike L p q) :
    q.call? = p.call? := by
  simp only [Point.call?, h.act]
  cases p.act with
  | executes id now =>
    obtain ⟨hr, hr'⟩ | ⟨f, n, n', hr, hr', -⟩ := Machine.matches_cases (h.machine.callback? id)
    · simp only [hr, hr']
    · simp only [hr, hr', Option.map_some]
  | _ => rfl

theorem Point.Alike.sameButOutput {p q : Point κ μ} (h : Point.Alike .untraced p q) :
    p.SameButOutput q :=
  ⟨h.act, h.call?, Machine.alike_untraced_iff.1 h.machine⟩

open Machine

/-- **Traces are observers.** Let the callbacks of a host do the same whether a machine traces or
not, and whatever it has printed. Then every operation on a machine that traces has the same answer
as on one that does not. If the host does not look at that either, the same happens on both, point
by point: the same operations begin, the same threads get turns at the same times and execute, the
same callbacks are called, and the machines are the same, with their threads, schedulers, clocks and
logs, but for what they have printed. So are the results.

Whatever a host and its callbacks do, all slices that the trace of a thread shows are in range. -/
theorem HostProgram.traces_observe (callbacks : Callbacks κ μ) (fuel : Nat) :
    ((∀ f id, (callbacks f id).Blind .untraced) →
      (∀ (op : HostOp κ) (m m' : Machine κ μ), m.SameButOutput m' →
        Option.Rel SameResult (m.perform callbacks fuel op) (m'.perform callbacks fuel op)) ∧
      ∀ p : HostProgram κ μ α, p.Blind .untraced → ∀ m : Machine κ μ,
        List.Forall₂ Point.SameButOutput (p.course callbacks fuel { m with tracing := true })
            (p.course callbacks fuel { m with tracing := false }) ∧
          Option.Rel SameResult (p.run (Machine.perform callbacks fuel) { m with tracing := true })
            (p.run (Machine.perform callbacks fuel) { m with tracing := false })) ∧
    ∀ (p : HostProgram κ μ α) (config : Config) (clock : Clock) (memory : μ),
      ∀ q ∈ p.course callbacks fuel (create config clock memory), ∀ id t,
        q.machine.thread? id = some t → ∀ i, t.trace? id i = some (t.trace id i) := by
  refine ⟨fun hcallbacks => ⟨fun op m m' hsame => ?_, fun p hp m => ?_⟩, ?_⟩
  · exact rel_sameResult ((alike_untraced_iff.2 hsame).perform hcallbacks fuel op)
  · have hsame : SameButOutput { m with tracing := true } { m with tracing := false } :=
      ⟨rfl, fun _ => rfl, rfl, .refl _⟩
    obtain ⟨hcourse, hrun⟩ :=
      (alike_untraced_iff.2 hsame).lockstep callbacks hcallbacks p hp fuel
    exact ⟨hcourse.imp fun _ _ h => h.sameButOutput, rel_sameResult hrun⟩
  · intro p config clock memory q hq id t ht i
    have hinstant : q.instant ∈ p.timeline callbacks fuel (create config clock memory) := by
      rw [← map_instant_course]
      exact List.mem_map_of_mem hq
    have htop : t.stack.top ≤ t.stack.capacity :=
      timeline_threads Thread.invariant_top hinstant id t ht
    rw [Thread.trace?_eq, if_pos htop]

/-- A program that pops what it has not pushed, calls a host function, and exits. -/
def undercutting : Image where
  stackSize := 8
  globals := 2
  main := some 0
  instructions := #[⟨.pop, [.register .returnValue]⟩, ⟨.callHost, [.hostCallIndex 0]⟩,
    ⟨.exit, [.int 0]⟩]
  functions := #[⟨"_Main", 0, 0, 0⟩]
  hostCalls := #["Echo"]

/-- A host function that returns what the return register holds, in its written form. -/
def echo (_ : Unit) (id : ThreadId) : HostProgram Unit Unit Unit :=
  .inspect fun m =>
    .perform (.hostReturn id 0 (some (.string (m.returnValue id).written))) fun _ => .pure ()

/-- What a host does that registers a function and runs a program that calls it. -/
def registerAndRun (program : Image) (name : String) : HostProgram Unit Unit Value :=
  .perform (.register .global name ()) fun _ => .perform (.load program none) fun _ =>
    .perform (.start 0) fun _ => .perform (.run .unlimited) fun _ => .look (·.returnValue 0)

/-- A run with traces and the same run without them. The base of the frame is above the top of the
stack when the host function is called. -/
theorem traces_observe_undercutting :
    (∀ f id, (echo f id).Blind .untraced) ∧ (registerAndRun undercutting "Echo").Blind .untraced ∧
      (∃ m m' : Machine Unit Unit,
        (registerAndRun undercutting "Echo").run (Machine.perform echo 9)
          { create {} (.ticking 0) () with tracing := true } = some (.string "null", m) ∧
        (registerAndRun undercutting "Echo").run (Machine.perform echo 9)
          { create {} (.ticking 0) () with tracing := false } = some (.string "null", m') ∧
        m.SameButOutput m' ∧ m.journal.size = 7 ∧ m'.journal.size = 4) ∧
      ∃ q ∈ (registerAndRun undercutting "Echo").course echo 9
          (create { trace := true } (.ticking 0) ()),
        ∃ t, q.call? = some ((), 0) ∧ q.machine.thread? 0 = some t ∧ t.stack.top < t.stack.base ∧
          ∀ i, t.trace? 0 i = some (t.trace 0 i) := by
  have hecho (f : Unit) (id : ThreadId) : (echo f id).Blind .untraced := by
    refine fun m => ⟨fun _ => trivial, fun m' halike => ?_⟩
    dsimp only
    rw [halike.returnValue]
  have hprogram : (registerAndRun undercutting "Echo").Blind .untraced := fun _ _ _ _ =>
    HostProgram.blind_look fun _ _ halike => halike.returnValue 0
  obtain ⟨hobserve, hslices⟩ := HostProgram.traces_observe (α := Value) echo 9
  have hruns (on : Bool) : ((registerAndRun undercutting "Echo").run (Machine.perform echo 9)
      { create {} (.ticking 0) () with tracing := on }).map (fun r => (r.1, r.2.journal.size)) =
        some (.string "null", if on then 7 else 4) := by
    revert on
    decide +kernel
  have hcalls : ((registerAndRun undercutting "Echo").course echo 9
      (create { trace := true } (.ticking 0) ())).any (fun q => decide (q.call? = some ((), 0)) &&
        (q.machine.thread? 0).any fun t => decide (t.stack.top < t.stack.base)) = true := by
    decide +kernel
  refine ⟨hecho, hprogram, ?_, ?_⟩
  · obtain ⟨⟨a, m⟩, hrun, hon⟩ := Option.map_eq_some_iff.1 (hruns true)
    obtain ⟨⟨a', m'⟩, hrun', hoff⟩ := Option.map_eq_some_iff.1 (hruns false)
    obtain ⟨rfl, hsize⟩ := Prod.mk.inj hon
    obtain ⟨rfl, hsize'⟩ := Prod.mk.inj hoff
    obtain ⟨-, hsame⟩ := (hobserve hecho).2 _ hprogram (create {} (.ticking 0) ())
    rw [hrun, hrun'] at hsame
    cases hsame with
    | some h => exact ⟨m, m', hrun, hrun', h.machine, hsize, hsize'⟩
  · obtain ⟨q, hmem, hq⟩ := List.any_eq_true.1 hcalls
    obtain ⟨hcall, habove⟩ := Bool.and_eq_true_iff.1 hq
    obtain ⟨t, ht, htop⟩ := (Option.any_eq_true _ _).1 habove
    exact ⟨q, hmem, t, of_decide_eq_true hcall, ht, of_decide_eq_true htop,
      hslices _ _ _ _ q hmem 0 t ht⟩

end ScriptMachine
