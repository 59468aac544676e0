import ScriptMachine.Proofs.Turns

/-!
# Threads take turns

Two threads that keep running get their turns alternately, whatever else goes on. The scheduler
looks for the next running thread in a circle, from the thread on that had the last turn. So once
one of the two had a turn, the scheduler stands between it and the other one (`Machine.Since`): no
step leads out of there past the other one, and what is loaded meanwhile comes behind all slots
that there are.
-/

namespace ScriptMachine

/-- An operation that gives the next turn to a thread. -/
def HostOp.isStart {κ : Type} : HostOp κ → Bool
  | start _ => true
  | _ => false

/-! ## The circle of slots -/

/-- A slot on the way from `x` around to `y`. -/
def Between (x y c : Nat) : Prop := if x < y then x ≤ c ∧ c < y else x ≤ c ∨ c < y

theorem between_self {x y : Nat} : Between x y x := by
  unfold Between
  split <;> omega

/-- Less than twice around. -/
theorem mod_around {k n : Nat} (h : k < 2 * n) : k % n = if k < n then k else k - n := by
  split
  · exact Nat.mod_eq_of_lt ‹_›
  · rw [Nat.mod_eq_sub_mod (by omega), Nat.mod_eq_of_lt (by omega)]

/-- Going around from behind a slot on the way from `x` to `y`, one does not come past `y`. -/
theorem between_around {x y c n step : Nat} (hy : y < n) (hc : c < n) (hbetween : Between x y c)
    (hstep : step < n) (hbefore : ∀ s < step, (c + 1 + s) % n ≠ y) :
    (c + 1 + step) % n = y ∨ (c + 1 + step) % n ≠ x ∧ Between x y ((c + 1 + step) % n) := by
  -- The step that leads to `y`.
  obtain ⟨reach, hreach⟩ : ∃ reach, reach = if c < y then y - (c + 1) else y + n - (c + 1) :=
    ⟨_, rfl⟩
  have hreached : (c + 1 + reach) % n = y := by
    rw [mod_around (by split at hreach <;> omega)]
    split at hreach <;> split <;> omega
  have hle : step ≤ reach := by
    by_contra hfar
    exact hbefore reach (by omega) hreached
  generalize hposition : (c + 1 + step) % n = position
  rw [mod_around (by omega)] at hposition
  by_cases hlt : x < y <;> simp only [Between, hlt, if_true, if_false] at hbetween ⊢ <;>
    split at hreach <;> split at hposition <;> omega

namespace Machine

variable {κ μ : Type} {m m' : Machine κ μ} {id a b x y : ThreadId}

/-- The search for the next running thread does not go past one that is running. -/
theorem between_of_nextRunning? {c : ThreadId} (hc : c < m.threads.size)
    (hy : m.isRunning y = true) (hbetween : Between x y c)
    (hnext : m.nextRunning? (c + 1) = some id) : id = y ∨ id ≠ x ∧ Between x y id := by
  simp only [nextRunning?, List.find?_map, Option.map_eq_some_iff, List.find?_range_eq_some,
    List.mem_range, Function.comp_apply, Bool.not_eq_true'] at hnext
  obtain ⟨step, ⟨-, hstep, hbefore⟩, rfl⟩ := hnext
  refine between_around (lt_size_of_isRunning hy) hc hbetween hstep fun s hs hreached => ?_
  have hskipped := hbefore s hs
  rw [hreached, hy] at hskipped
  cases hskipped

/-! ## After a turn -/

/-- Of two threads, `x` had a turn last, and the turn that has begun is that one or one of a thread
on the way from `x` to `y`. -/
structure Since (x y : ThreadId) (m : Machine κ μ) : Prop where
  started : m.scheduler.turnStarted ≠ none
  size : m.scheduler.current < m.threads.size
  between : Between x y m.scheduler.current

theorem Since.quiet (h : Since x y m) (hquiet : Quiet m m') : Since x y m' where
  started := by rw [hquiet.started]; exact h.started
  size := by rw [hquiet.current]; exact Nat.lt_of_lt_of_le h.size hquiet.size
  between := by rw [hquiet.current]; exact h.between

/-- The next of the two that gets a turn is the other one. -/
theorem Since.gives (h : Since x y m) (hy : m.isRunning y = true) (hgives : Gives id m m') :
    id = y ∨ id ≠ x ∧ Since x y m' := by
  have hid := hgives.next h.started
  obtain rfl | ⟨hne, hbetween⟩ := between_of_nextRunning? h.size hy h.between hid
  · exact .inl rfl
  · refine .inr ⟨hne, hgives.started, ?_, ?_⟩
    · rw [hgives.current, hgives.size]
      exact lt_size_of_isRunning (List.find?_some hid)
    · rw [hgives.current]
      exact hbetween

/-- The turn of `x` has just begun. -/
theorem Gives.since (h : Gives x m m') (hx : m'.isRunning x = true) : Since x y m' where
  started := h.started
  size := by rw [h.current]; exact lt_size_of_isRunning hx
  between := by rw [h.current]; exact between_self

/-- What is known of the scheduler, given which of two threads had a turn last, if one had. -/
structure Expects (a b : ThreadId) (last : Option ThreadId) (m : Machine κ μ) : Prop where
  left : last = some a → Since a b m
  right : last = some b → Since b a m

theorem Expects.quiet {last : Option ThreadId} (h : Expects a b last m) (hquiet : Quiet m m') :
    Expects a b last m' :=
  ⟨fun hlast => (h.left hlast).quiet hquiet, fun hlast => (h.right hlast).quiet hquiet⟩

/-- Both threads are running. -/
def Both (a b : ThreadId) (m : Machine κ μ) : Prop :=
  m.isRunning a = true ∧ m.isRunning b = true

theorem Both.running (h : Both a b m) (hx : x = a ∨ x = b) : m.isRunning x = true := by
  obtain rfl | rfl := hx
  · exact h.1
  · exact h.2

/-- A turn of another thread changes nothing between the two. -/
theorem Expects.other {last : Option ThreadId} (h : Expects a b last m) (hboth : Both a b m)
    (hgives : Gives id m m') (ha : id ≠ a) (hb : id ≠ b) : Expects a b last m' where
  left hlast := by
    obtain hid | ⟨-, hsince⟩ := (h.left hlast).gives hboth.2 hgives
    · exact absurd hid hb
    · exact hsince
  right hlast := by
    obtain hid | ⟨-, hsince⟩ := (h.right hlast).gives hboth.1 hgives
    · exact absurd hid ha
    · exact hsince

/-- A turn of one of the two comes after one of the other. -/
theorem Expects.turn {last : Option ThreadId} (h : Expects a b last m) (hab : a ≠ b)
    (hboth : Both a b m) (hboth' : Both a b m') (hgives : Gives id m m') (hid : id = a ∨ id = b) :
    last ≠ some id ∧ Expects a b (some id) m' := by
  obtain rfl | rfl := hid
  · refine ⟨fun hlast => ?_, fun _ => hgives.since hboth'.1, fun h => ?_⟩
    · obtain hid | ⟨hid, -⟩ := (h.left hlast).gives hboth.2 hgives
      · exact hab hid
      · exact hid rfl
    · exact absurd (Option.some.inj h) hab
  · refine ⟨fun hlast => ?_, fun h => ?_, fun _ => hgives.since hboth'.2⟩
    · obtain hid | ⟨hid, -⟩ := (h.right hlast).gives hboth.1 hgives
      · exact hab hid.symm
      · exact hid rfl
    · exact absurd (Option.some.inj h) hab.symm

end Machine

/-! ## Windows -/

open Machine

variable {κ μ : Type} {a b : ThreadId}

/-- The turns of two threads among those that were given. -/
def turnsOf (a b : ThreadId) (given : List ThreadId) : List ThreadId :=
  given.filter fun id => id = a ∨ id = b

theorem turnsOf_cons_of_mem {last : Option ThreadId} {id : ThreadId} {given : List ThreadId}
    (hid : id = a ∨ id = b) (hlast : last ≠ some id)
    (h : (id :: turnsOf a b given).IsChain (· ≠ ·)) :
    (last.toList ++ turnsOf a b (id :: given)).IsChain (· ≠ ·) := by
  rw [turnsOf, List.filter_cons_of_pos (by simpa using hid)]
  cases last with
  | none => exact h
  | some j => exact h.cons_cons fun hj => hlast (congrArg some hj)

/-- A turn of any thread: who had the last turn of the two, and what that says of the turns that
follow. -/
theorem Machine.Expects.gives {last : Option ThreadId} {id : ThreadId} {m m' : Machine κ μ}
    (h : Expects a b last m) (hab : a ≠ b) (hboth : Both a b m) (hboth' : Both a b m')
    (hgives : Gives id m m') :
    ∃ last', Expects a b last' m' ∧ ∀ given,
      (last'.toList ++ turnsOf a b given).IsChain (· ≠ ·) →
        (last.toList ++ turnsOf a b (id :: given)).IsChain (· ≠ ·) := by
  by_cases hid : id = a ∨ id = b
  · obtain ⟨hne, hexpects⟩ := h.turn hab hboth hboth' hgives hid
    exact ⟨some id, hexpects, fun given => turnsOf_cons_of_mem hid hne⟩
  · obtain ⟨ha, hb⟩ := not_or.1 hid
    refine ⟨last, h.other hboth hgives ha hb, fun given hgiven => ?_⟩
    rwa [turnsOf, List.filter_cons_of_neg (by simpa using hid)]

/-- A turn is counted for its thread. -/
theorem Machine.Gives.count {id : ThreadId} {m m' : Machine κ μ} (h : Gives id m m') (x : ThreadId)
    (given : List ThreadId) :
    (m'.turns? x).map (· + given.count x) = (m.turns? x).map (· + (id :: given).count x) := by
  rw [h.turns, Option.map_map]
  congr 1
  funext n
  by_cases hx : x = id
  · rw [Function.comp_apply, if_pos hx, hx, List.count_cons_self]
    omega
  · rw [Function.comp_apply, if_neg hx, List.count_cons_of_ne (Ne.symm hx), Nat.add_zero]

theorem alternate_of_chain (hab : a ≠ b) {window : List (Instant κ μ)} {first : Instant κ μ}
    {last : Option ThreadId} (hchain : (first :: window).IsChain Instant.Leads)
    (hboth : ∀ i ∈ first :: window, Both a b i.machine)
    (hstart : ∀ i ∈ first :: window, ∀ op ∈ i.begins, op.isStart = false)
    (hexpects : Expects a b last first.machine) :
    ∃ given, ((first :: window).getLast (List.cons_ne_nil _ _)).machine.granted =
        first.machine.granted ++ given ∧
      (last.toList ++ turnsOf a b given).IsChain (· ≠ ·) ∧
      ∀ x, x = a ∨ x = b →
        ((first :: window).getLast (List.cons_ne_nil _ _)).machine.turns? x =
          (first.machine.turns? x).map (· + given.count x) := by
  induction window generalizing first last with
  | nil =>
    refine ⟨[], (List.append_nil _).symm, ?_, fun x _ => Option.map_id'.symm⟩
    cases last with
    | none => exact .nil
    | some j => exact .singleton j
  | cons second window ih =>
    have hleads := (List.isChain_cons_cons.1 hchain).1
    have hfirst := hboth first List.mem_cons_self
    have hsecond := hboth second (List.mem_cons_of_mem _ List.mem_cons_self)
    have rest {last : Option ThreadId} (hexpects : Expects a b last second.machine) :=
      ih (List.isChain_cons_cons.1 hchain).2 (fun i hi => hboth i (List.mem_cons_of_mem _ hi))
        (fun i hi => hstart i (List.mem_cons_of_mem _ hi)) hexpects
    cases hleads with
    | quiet hquiet =>
      obtain ⟨given, hgiven, halternate, hturns⟩ := rest (hexpects.quiet hquiet)
      rw [hquiet.granted] at hgiven
      refine ⟨given, hgiven, halternate, fun x hx => ?_⟩
      rw [← hquiet.turns?_eq (hfirst.running hx) (hsecond.running hx)]
      exact hturns x hx
    | @turn id hgives =>
      obtain ⟨last', hexpects', hcons⟩ := hexpects.gives hab hfirst hsecond hgives
      obtain ⟨given, hgiven, halternate, hturns⟩ := rest hexpects'
      rw [hgives.granted, List.append_assoc] at hgiven
      exact ⟨id :: given, hgiven, hcons given halternate, fun x hx =>
        (hturns x hx).trans (hgives.count x given)⟩
    | started h => cases hstart first List.mem_cons_self _ h
    | halted h =>
      have hrunning := hsecond.1
      rw [h] at hrunning
      cases hrunning

/-- In a list without neighbours that are equal, two values that are the only ones there occur
equally often, up to one. -/
theorem count_of_isChain {x y : ThreadId} (hxy : x ≠ y) {turns : List ThreadId}
    (h : (x :: turns).IsChain (· ≠ ·)) (hall : ∀ id ∈ turns, id = x ∨ id = y) :
    turns.count x ≤ turns.count y ∧ turns.count y ≤ turns.count x + 1 := by
  induction turns generalizing x y with
  | nil => simp
  | cons id turns ih =>
    obtain ⟨hne, hrest⟩ := List.isChain_cons_cons.1 h
    obtain rfl : id = y := (hall id List.mem_cons_self).resolve_left (Ne.symm hne)
    have hcount := ih (Ne.symm hxy) hrest fun j hj => (hall j (List.mem_cons_of_mem _ hj)).symm
    rw [List.count_cons_self, List.count_cons_of_ne (Ne.symm hxy)]
    omega

/-- Strict alternation: between two consecutive turns of `x`, there is exactly one turn of `y`. -/
def Alternates (x y : ThreadId) (given : List ThreadId) : Prop :=
  ∀ before between after, given = before ++ x :: between ++ x :: after → x ∉ between →
    between.count y = 1

theorem turnsOf_comm (a b : ThreadId) (given : List ThreadId) :
    turnsOf a b given = turnsOf b a given := by
  simp only [turnsOf, or_comm]

theorem count_turnsOf {x : ThreadId} (hx : x = a ∨ x = b) (given : List ThreadId) :
    (turnsOf a b given).count x = given.count x :=
  List.count_filter (by simpa using hx)

theorem alternates_of_isChain {given : List ThreadId}
    (h : (turnsOf a b given).IsChain (· ≠ ·)) : Alternates a b given := by
  rintro before between after rfl hbetween
  have hsplit : turnsOf a b (before ++ a :: between ++ a :: after) =
      turnsOf a b before ++ a :: (turnsOf a b between ++ a :: turnsOf a b after) := by
    simp [turnsOf]
  rw [hsplit] at h
  have hchain : (a :: (turnsOf a b between ++ a :: turnsOf a b after)).IsChain (· ≠ ·) :=
    h.right_of_append
  have hall : ∀ id ∈ turnsOf a b between, id = b := by
    intro id hid
    obtain ⟨hmem, hid⟩ := List.mem_filter.1 hid
    refine (of_decide_eq_true hid).resolve_left ?_
    rintro rfl
    exact hbetween hmem
  rw [← count_turnsOf (.inr rfl)]
  -- There is a turn of `b` before `a` has its next one, and no second one.
  match turnsOf a b between, hchain, hall with
  | [], hchain, _ => exact absurd rfl (List.isChain_cons_cons.1 hchain).1
  | [id], _, hall => rw [hall id List.mem_cons_self, List.count_singleton_self]
  | id :: id' :: _, hchain, hall =>
    obtain rfl := hall id List.mem_cons_self
    obtain rfl := hall id' (List.mem_cons_of_mem _ List.mem_cons_self)
    have hrest := (List.isChain_cons_cons.1 hchain).2
    exact absurd rfl (List.isChain_cons_cons.1 hrest).1

theorem count_le_of_isChain (hab : a ≠ b) {given : List ThreadId}
    (h : (turnsOf a b given).IsChain (· ≠ ·)) : given.count a ≤ given.count b + 1 := by
  have hall : ∀ id ∈ turnsOf a b given, id = a ∨ id = b := fun id hid =>
    of_decide_eq_true (List.mem_filter.1 hid).2
  have ha : (turnsOf a b given).count a = given.count a := count_turnsOf (.inl rfl) given
  have hb : (turnsOf a b given).count b = given.count b := count_turnsOf (.inr rfl) given
  rw [← ha, ← hb]
  cases hturns : turnsOf a b given with
  | nil => simp
  | cons id turns =>
    rw [hturns] at h hall
    have hrest : ∀ j ∈ turns, j = a ∨ j = b := fun j hj => hall j (List.mem_cons_of_mem _ hj)
    obtain rfl | rfl := hall id List.mem_cons_self
    · have hcount := count_of_isChain hab h hrest
      rw [List.count_cons_self, List.count_cons_of_ne hab]
      omega
    · have hcount := count_of_isChain hab.symm h fun j hj => (hrest j hj).symm
      rw [List.count_cons_self, List.count_cons_of_ne hab.symm]
      omega

/-- **Threads take turns.** Take any stretch of what comes about while a host carries out a program,
whatever its callbacks do, in which two threads are running all the time and no thread is started.
The turns that are given in it go to the two alternately, and their counters advance by as many
turns as they were given, so by the same number up to one. Each part of such a stretch is one
itself. That neither thread is unloaded and the machine is not shut down need not be said: they
would not be running any more. -/
theorem turns_alternate {α : Type} (callbacks : Callbacks κ μ) (fuel : Nat)
    (p : HostProgram κ μ α) (m : Machine κ μ) (hab : a ≠ b) {window : List (Instant κ μ)}
    (hwindow : window <:+: p.timeline callbacks fuel m)
    (hrunning : ∀ i ∈ window, i.machine.isRunning a = true ∧ i.machine.isRunning b = true)
    (hstart : ∀ i ∈ window, ∀ op ∈ i.begins, op.isStart = false) :
    ∀ first ∈ window.head?, ∀ last ∈ window.getLast?, ∃ given,
      last.machine.granted = first.machine.granted ++ given ∧
      Alternates a b given ∧ Alternates b a given ∧
      (∀ x, x = a ∨ x = b →
        last.machine.turns? x = (first.machine.turns? x).map (· + given.count x)) ∧
      given.count a ≤ given.count b + 1 ∧ given.count b ≤ given.count a + 1 := by
  intro first hfirst last hlast
  cases window with
  | nil => cases hfirst
  | cons second window =>
    cases hfirst
    rw [List.getLast?_eq_some_getLast (List.cons_ne_nil _ _)] at hlast
    cases hlast
    obtain ⟨before, after, hwindow⟩ := hwindow
    have hchain := HostProgram.chain_timeline callbacks fuel p m
    rw [← hwindow] at hchain
    have hexpects : Expects a b none first.machine := ⟨(nomatch ·), (nomatch ·)⟩
    obtain ⟨given, hgiven, halternate, hturns⟩ :=
      alternate_of_chain hab hchain.left_of_append.right_of_append hrunning hstart hexpects
    have halternate' : (turnsOf b a given).IsChain (· ≠ ·) := by rwa [turnsOf_comm]
    exact ⟨given, hgiven, alternates_of_isChain halternate, alternates_of_isChain halternate',
      hturns, count_le_of_isChain hab halternate, count_le_of_isChain hab.symm halternate'⟩

/-- A thread that runs forever. -/
def looping (timeslice : UInt64) : Thread :=
  { reentrant 0 0 0 0 #[.null] with
    program := { instructions := #[⟨.jmp, [.instrIndex 0]⟩] }
    timeslice }

/-- A machine with two such threads, whose turns are not equally long. -/
def twoLooping : Machine Unit Unit where
  threads := #[some (looping 1), some (looping 0)]
  clock := .ticking 1
  config := {}
  tracing := false
  memory := ()

theorem Machine.hostFree_twoLooping : twoLooping.HostFree := by
  intro j t ht
  have hprogram : t.program = (looping 0).program := by
    match j with
    | 0 | 1 =>
      cases ht
      rfl
    | j + 2 => simp [twoLooping, thread?] at ht
  rw [hprogram, Image.HostFree]
  decide

/-- What a host does that runs the threads, loads another program, and runs them again. -/
def runLoadRun : HostProgram Unit Unit Unit :=
  .perform (.run (.millis 3)) fun _ => .perform (.load offEnd none) fun _ =>
    .perform (.run (.millis 4)) fun _ => .pure ()

theorem turns_alternate_two_looping :
    let timeline := runLoadRun.timeline (fun _ _ => .pure ()) 9 twoLooping
    (∀ i ∈ timeline, i.machine.isRunning 0 = true ∧ i.machine.isRunning 1 = true) ∧
      (∀ i ∈ timeline, ∀ op ∈ i.begins, op.isStart = false) ∧
      ∃ last, timeline.getLast? = some last ∧ last.machine.granted = [0, 1, 0, 1, 0, 1, 0] ∧
        Alternates 0 1 last.machine.granted ∧ Alternates 1 0 last.machine.granted := by
  intro timeline
  have hrunning : ∀ i ∈ timeline, i.machine.isRunning 0 = true ∧ i.machine.isRunning 1 = true := by
    decide +kernel
  have hstart : ∀ i ∈ timeline, ∀ op ∈ i.begins, op.isStart = false := by decide +kernel
  have hlast : timeline.getLast?.map (fun i => i.machine.granted) = some [0, 1, 0, 1, 0, 1, 0] := by
    decide +kernel
  obtain ⟨last, hgetLast, hgranted⟩ := Option.map_eq_some_iff.1 hlast
  obtain ⟨given, hgiven, halternates, halternates', -⟩ :=
    turns_alternate (fun _ _ => .pure ()) 9 runLoadRun twoLooping (by decide : (0 : ThreadId) ≠ 1)
      (List.infix_refl _) hrunning hstart _ rfl last hgetLast
  obtain rfl : given = last.machine.granted := hgiven.symm
  exact ⟨hrunning, hstart, last, hgetLast, hgranted, halternates, halternates'⟩

end ScriptMachine
