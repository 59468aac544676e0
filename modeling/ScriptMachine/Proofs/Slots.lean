import ScriptMachine.Proofs.Completion
import ScriptMachine.Proofs.Interleaving
import ScriptMachine.Proofs.Succession

/-!
# What becomes of a slot

`Point.Becomes` lists what can happen to one slot of a machine from a point of a course to the next:
a thread is loaded into it or unloaded, the host operates on its thread, the thread is given a turn,
wakes or executes an instruction, or a synchronous call of it returns. Everything else leaves the
slot alone (`Point.Ensues.becomes`).

What is to be known about one thread in the course of everything, such as when it can begin to run
or how long it waits, follows from this list and the chain that a course is.
-/

namespace ScriptMachine

open Machine

variable {κ μ : Type}

/-- An operation on the thread in a slot. -/
def HostOp.Addresses (id : ThreadId) : HostOp κ → Prop
  | unload x | reset x | start x | stop x | pause x _ | unpause x | call x _ | invoke x _
  | pass x _ | hostReturn x _ _ => x = id
  | shutdown => True
  | load .. | loadFile .. | run _ | register .. | setRegistry _ | setTrace _ | readClock
  | advanceClock _ | setClock _ | print _ => False

/-- An operation that lets a thread run. -/
def HostOp.Starts (id : ThreadId) : HostOp κ → Prop
  | start x | call x _ => x = id
  | _ => False

/-- An operation that empties a slot. -/
def HostOp.Unloads (id : ThreadId) : HostOp κ → Prop
  | unload x => x = id
  | shutdown => True
  | _ => False

instance (id : ThreadId) (op : HostOp κ) : Decidable (op.Addresses id) := by
  cases op <;> unfold HostOp.Addresses <;> infer_instance

instance (id : ThreadId) (op : HostOp κ) : Decidable (op.Starts id) := by
  cases op <;> unfold HostOp.Starts <;> infer_instance

/-- What can happen to a slot from a point of a course to the next one. -/
inductive Point.Becomes (id : ThreadId) (p : Point κ μ) : Option Thread → Option Thread → Prop
  | rests (u : Option Thread) : Becomes id p u u
  /-- Its thread gets a turn, or is done with an instruction that called a callback. -/
  | counts {t : Thread} (stats : Stats) : Becomes id p (some t) (some { t with stats })
  | loads {t : Thread} : t.running = false → Becomes id p none (some t)
  | unloads {op : HostOp κ} {t : Thread} : p.act = .begins op → op.Unloads id →
      Becomes id p (some t) none
  /-- The host operates on its thread. -/
  | host {op : HostOp κ} {t t' : Thread} : p.act = .begins op → op.Addresses id →
      (t'.running = true → t.running = true ∨ op.Starts id) → Becomes id p (some t) (some t')
  | wakes {now : UInt64} {t : Thread} : p.act = .selects id now →
      p.machine.scheduler.mode = .roundRobin → t.wakeAt ≤ now →
      Becomes id p (some t) (some { t with paused := false })
  | executes {now : UInt64} {t t' : Thread} : p.act = .executes id now →
      (t'.running = true → t.running = true) → Becomes id p (some t) (some t')
  /-- A synchronous call of its thread returns. -/
  | returns {t : Thread} (wasRunning : Bool) : p.machine.scheduler.mode = .pinned id →
      t.running = true → Becomes id p (some t) (some { t with running := wasRunning })

namespace Machine

variable {m m' m₁ : Machine κ μ} {id x : ThreadId} {t t' : Thread} {now : UInt64}
  {callbacks : Callbacks κ μ} {p : Point κ μ}

/-! ## Loading -/

/-- A free slot is at most the one behind the last. -/
theorem le_size_of_freeSlot (h : m.freeSlot = .ok id) : id ≤ m.threads.size := by
  simp only [freeSlot] at h
  split at h
  · rename_i hfind
    cases h
    exact Nat.le_of_lt (Array.findIdx?_eq_some_iff_getElem.1 hfind).1
  · split at h
    · cases h
      exact Nat.le_refl _
    · cases h

theorem thread?_place_of_freeSlot (h : m.freeSlot = .ok x) (t : Thread) (id : ThreadId) :
    (m.place x t).thread? id = if x = id then some t else m.thread? id := by
  have hle := le_size_of_freeSlot h
  simp only [place]
  split
  · rename_i hlt
    rw [thread?_setThread]
    simp only [thread?_log]
    by_cases hid : x = id
    · rw [if_pos ⟨hid, hlt⟩, if_pos hid]
    · rw [if_neg (fun hboth => hid hboth.1), if_neg hid]
  · rename_i hlt
    have hx : x = m.threads.size := Nat.le_antisymm hle (Nat.not_lt.1 hlt)
    show ((m.threads.push (some t))[id]?).join = _
    rw [Array.getElem?_push, ← hx]
    by_cases hid : x = id
    · rw [if_pos hid.symm, if_pos hid, Option.join_some]
    · rw [if_neg (Ne.symm hid), if_neg hid]
      rfl

/-- A thread that a fault has stopped runs only if it ran before: it does not run. -/
theorem running_of_stopWith {fault : Fault} (h : (t'.stopWith fault).running = true) :
    t.running = true :=
  absurd h Bool.false_ne_true

/-- A new thread is not running. -/
theorem running_of_born (h : Thread.Born t) : t.running = false := by
  obtain ⟨digest, -, -, hcreate⟩ := h
  obtain ⟨s, -, hcreate⟩ := bind_eq_ok.1 hcreate
  cases hcreate
  rfl

theorem becomes_place (h : m.freeSlot = .ok x) (ht : Thread.Born t) :
    Point.Becomes id p (m.thread? id) ((m.place x t).thread? id) := by
  rw [thread?_place_of_freeSlot h]
  by_cases hid : x = id
  · subst hid
    rw [if_pos rfl, thread?_of_freeSlot h]
    exact .loads (running_of_born ht)
  · rw [if_neg hid]
    exact .rests _

theorem becomes_loaded {programs : Image → Prop} (h : Loaded programs m m') :
    Point.Becomes id p (m.thread? id) (m'.thread? id) := by
  cases h with
  | failed => exact .rests _
  | placed hslot ht _ => exact becomes_place hslot ht

theorem thread?_unload (m : Machine κ μ) (x id : ThreadId) :
    (m.unload x).thread? id = if x = id then none else m.thread? id := by
  simp only [unload]
  split
  · rename_i hx
    split
    · rename_i hid
      rw [← hid, hx]
    · rfl
  · rename_i t ht
    show (m.setThread x none).thread? id = _
    rw [thread?_setThread]
    have hlt := lt_size_of_thread? ht
    by_cases hid : x = id
    · rw [if_pos ⟨hid, hlt⟩, if_pos hid]
    · rw [if_neg (fun hboth => hid hboth.1), if_neg hid]

theorem thread?_shutdown (m : Machine κ μ) (id : ThreadId) : m.shutdown.thread? id = none := by
  simp [shutdown, thread?, log, emit]

/-! ## Operations on one thread -/

/-- No thread runs that did not run before. -/
def StartsNone (id : ThreadId) (m m' : Machine κ μ) : Prop :=
  m'.isRunning id = true → m.isRunning id = true

namespace StartsNone

theorem trans (h : StartsNone id m m') (h' : StartsNone id m' m₁) : StartsNone id m m₁ :=
  fun hrunning => h (h' hrunning)

theorem same (h : m'.threads = m.threads) : StartsNone id m m' := by
  intro hrunning
  rwa [isRunning, thread?, h] at hrunning

theorem alter (ht : m.thread? id = some t) (h : Alters id t' m m')
    (hrunning : t'.running = true → t.running = true) : StartsNone id m m' := by
  intro hafter
  rw [isRunning, h.thread, Option.any_some] at hafter
  rw [isRunning, ht, Option.any_some]
  exact hrunning hafter

theorem onThread {f : Thread → Except CallError Thread}
    (hf : ∀ t t', f t = .ok t' → t'.running = true → t.running = true) :
    StartsNone id m (m.onThread id f).2 := by
  simp only [Machine.onThread]
  split
  · exact fun hrunning => hrunning
  · rename_i t ht
    split
    · rename_i t' ht'
      exact alter ht (.setThread (lt_size_of_thread? ht) t') (hf t t' ht')
    · exact fun hrunning => hrunning

theorem logged {event : Event} {r : Except CallError Unit × Machine κ μ}
    (h : StartsNone id m r.2) : StartsNone id m (Machine.logged event r).2 := by
  simp only [Machine.logged]
  split
  · exact h.trans (same rfl)
  · exact h

theorem reset : StartsNone id m (m.reset id).2 := by
  refine (onThread fun t t' h => ?_).logged
  cases hreset : t.reset with
  | error fault =>
    rw [hreset] at h
    cases h
  | ok u =>
    rw [hreset] at h
    cases h
    obtain ⟨s, -, hreset⟩ := bind_eq_ok.1 hreset
    cases hreset
    exact fun hrunning => hrunning

theorem stop : StartsNone id m (m.stop id).2 :=
  (onThread fun t t' h => by
    cases h
    exact (nomatch ·)).logged

theorem pause (ms : UInt64) : StartsNone id m (m.pause id ms).2 := by
  have hread : StartsNone id m m.now.2 := same rfl
  exact hread.trans (onThread fun t t' h => by
    cases h
    exact fun hrunning => hrunning)

theorem unpause : StartsNone id m (m.unpause id).2 :=
  onThread fun t t' h => by
    cases h
    exact fun hrunning => hrunning

theorem pass (v : HostValue) : StartsNone id m (m.pass id v).2 := by
  refine onThread fun t t' h => ?_
  split at h
  · cases h
    exact fun hrunning => hrunning
  · cases h

theorem hostReturn (params : Nat) (v : Option HostValue) :
    StartsNone id m (m.hostReturn id params v) := by
  unfold Machine.hostReturn
  split
  · exact fun hrunning => hrunning
  · rename_i t ht
    have hset (t' : Thread) := Alters.setThread (lt_size_of_thread? ht) t'
    simp only
    split
    · exact alter ht (hset _) fun hrunning => hrunning
    · exact alter ht ((hset _).trans (Alters.faultThread (hset _).thread _)) running_of_stopWith

/-- Setting up a call, whether it fits or not. -/
theorem beginCall (name : String) (sync : Bool) :
    StartsNone id m (m.beginCall id name sync).2 := by
  simp only [Machine.beginCall]
  split
  · exact fun hrunning => hrunning
  · rename_i t ht
    have hset (t' : Thread) := Alters.setThread (lt_size_of_thread? ht) t'
    split
    · exact fun hrunning => hrunning
    · split
      · rename_i hcall
        obtain ⟨callee, -, -, -, rfl⟩ := Thread.call_eq_ok.1 hcall
        exact alter ht (hset _) fun hrunning => hrunning
      · exact alter ht ((hset _).trans (Alters.faultThread (hset _).thread _)) running_of_stopWith

end StartsNone

/-- An operation on one thread leaves all others alone. -/
theorem becomes_confined {op : HostOp κ} (h : Confined x m m') (hact : p.act = .begins op)
    (hop : x = id → op.Addresses id) (hrunning : x = id → StartsNone id m m' ∨ op.Starts id) :
    Point.Becomes id p (m.thread? id) (m'.thread? id) := by
  by_cases hx : x = id
  · subst hx
    have hloaded := h.loaded x
    cases ht : m.thread? x with
    | none =>
      rw [ht, Option.isSome_none, Option.isSome_eq_false_iff, Option.isNone_iff_eq_none] at hloaded
      rw [hloaded]
      exact .rests none
    | some t =>
      rw [ht, Option.isSome_some] at hloaded
      obtain ⟨t', ht'⟩ := Option.isSome_iff_exists.1 hloaded
      rw [ht']
      refine .host hact (hop rfl) fun hafter => (hrunning rfl).imp_left fun hnone => ?_
      simpa [StartsNone, isRunning, ht, ht', hafter] using hnone
  · rw [h.other (Ne.symm hx)]
    exact .rests _

/-- What an operation makes of a slot. -/
theorem becomes_perform {op : HostOp κ} {answer : op.Answer} {fuel : Nat}
    (h : m.perform callbacks fuel op = some (answer, m')) (hop : op.Atomic) :
    Point.Becomes id { machine := m, act := .begins op } (m.thread? id) (m'.thread? id) := by
  cases fuel with
  | zero => cases h
  | succ fuel =>
    have one {x : ThreadId} {r : Machine κ μ} (hstays : Stays x m r)
        (haddresses : x = id → op.Addresses id) (hnone : StartsNone x m r) :
        Point.Becomes id { machine := m, act := .begins op } (m.thread? id) (r.thread? id) :=
      becomes_confined hstays.toConfined rfl haddresses fun hx => .inl (hx ▸ hnone)
    have answered {α : Type} {r : α × Machine κ μ} {a : α} (hr : some r = some (a, m'))
        (hslot : Point.Becomes id { machine := m, act := .begins op } (m.thread? id)
          (r.2.thread? id)) :
        Point.Becomes id { machine := m, act := .begins op } (m.thread? id) (m'.thread? id) := by
      cases hr
      exact hslot
    cases op with
    | load image priority => exact answered h (becomes_loaded (loaded_load m image priority))
    | loadFile contents priority =>
      exact answered h (becomes_loaded (loaded_loadFile m contents priority))
    | unload x =>
      refine answered h ?_
      rw [thread?_unload]
      by_cases hx : x = id
      · rw [if_pos hx]
        cases m.thread? id with
        | none => exact .rests none
        | some t => exact .unloads rfl hx
      · rw [if_neg hx]
        exact .rests _
    | shutdown =>
      refine answered h ?_
      rw [thread?_shutdown]
      cases m.thread? id with
      | none => exact .rests none
      | some t => exact .unloads rfl trivial
    | reset x => exact answered h (one .reset (fun hx => hx) .reset)
    | start x => exact answered h (becomes_confined Confined.start.1 rfl (fun hx => hx) .inr)
    | stop x => exact answered h (one .stop (fun hx => hx) .stop)
    | pause x ms => exact answered h (one (.pause ms) (fun hx => hx) (.pause ms))
    | unpause x => exact answered h (one .unpause (fun hx => hx) .unpause)
    | invoke x name =>
      exact answered h (one (.beginCall name false) (fun hx => hx) (.beginCall name false))
    | pass x v => exact answered h (one (.pass v) (fun hx => hx) (.pass v))
    | hostReturn x params v =>
      exact answered h (one (.hostReturn params v) (fun hx => hx) (.hostReturn params v))
    | run | call => exact hop.elim
    | _ => exact answered h (.rests _)

/-! ## Cycles -/

/-- Counting a turn or an instruction. -/
theorem becomes_counts (x : ThreadId) (f : Thread → Stats) :
    Point.Becomes id p (m.thread? id)
      ((m.modifyThread x fun t => { t with stats := f t }).thread? id) := by
  rw [thread?_modifyThread]
  split
  · cases m.thread? id with
    | none => exact .rests none
    | some t => exact .counts (f t)
  · exact .rests _

theorem becomes_schedule (runnable : ThreadId) (now : UInt64) :
    Point.Becomes id p (m.thread? id) ((m.schedule runnable now).2.thread? id) := by
  rcases schedule_snd m runnable now with h | ⟨first, h⟩
  · rw [h]
    exact .rests _
  · rw [h]
    exact becomes_counts (m := m) ((m.nextRunning? first).getD runnable)
      fun t => { t.stats with turns := t.stats.turns + 1 }

theorem becomes_ready (hact : p.act = .selects x now) :
    Point.Becomes id p (p.machine.thread? id) ((p.machine.ready x now).2.thread? id) := by
  by_cases hx : x = id
  · subst hx
    simp only [ready]
    split
    · exact .rests _
    · rename_i t ht
      split
      · exact .rests _
      · rename_i hwaits
        split
        · rename_i hover
          rw [Bool.or_eq_true, not_or, decide_eq_true_eq, not_not] at hwaits
          rw [thread?_modifyThread, if_pos rfl, ht]
          exact .wakes hact hwaits.2 hover
        · exact .rests _
  · rcases ready_snd p.machine x now with h | h
    · rw [h]
      exact .rests _
    · rw [h, thread?_modifyThread, if_neg hx]
      exact .rests _

/-- The thread that executes an instruction has changed, and no other. -/
theorem becomes_alter (hact : p.act = .executes x now) (ht : p.machine.thread? x = some t)
    (h : Alters x t' p.machine m') (hrunning : t'.running = true → t.running = true) :
    Point.Becomes id p (p.machine.thread? id) (m'.thread? id) := by
  by_cases hx : x = id
  · subst hx
    rw [h.thread, ht]
    exact .executes hact hrunning
  · rw [h.other (Ne.symm hx)]
    exact .rests _

/-- An instruction that calls no callback, or its fault. -/
theorem becomes_step {invoke : Invoke κ μ} {r : Except Fault Flow} (hact : p.act = .executes x now)
    (hown : p.machine.callback? x = none) (h : p.machine.step invoke x now = some (r, m')) :
    Point.Becomes id p (p.machine.thread? id) ((match r with
      | .ok _ => m'
      | .error fault => m'.faultThread x fault).thread? id) := by
  cases advances_of_step h with
  | unloaded _ => exact .rests _
  | off ht _ => exact becomes_alter hact ht (.faultThread ht _) running_of_stopWith
  | own ht _ _ hexec halters =>
    exact becomes_alter hact ht halters (Thread.keeps_execute hexec).running
  | fault ht _ _ _ halters =>
    exact becomes_alter hact ht (halters.trans (.faultThread halters.thread _)) running_of_stopWith
  | unnamed ht _ _ _ halters =>
    exact becomes_alter hact ht (halters.trans (.faultThread halters.thread _)) running_of_stopWith
  | unresolved ht _ _ _ _ halters =>
    exact becomes_alter hact ht (halters.trans (.faultThread halters.thread _)) running_of_stopWith
  | @host t i call f _ ht hi hop hcall hresolve _ =>
    rw [callback?_eq_some.2 ⟨t, i, call, ht, hi, hop, hcall, hresolve, rfl⟩] at hown
    cases hown

/-! ## Synchronous calls -/

/-- A thread that returns from its synchronous call is pinned and running. -/
theorem pinned_of_syncReturned {ended : Machine κ μ} {fuel : Nat}
    (h : (m.pin x).run (invoke callbacks fuel) fuel .unlimited = some (.syncReturned, ended)) :
    ended.scheduler.mode = .pinned x ∧ ended.isRunning x = true := by
  obtain ⟨q, hq, hlast⟩ := runs_of_cycles h
  obtain ⟨y, link, hmode, ht, hrunning, -, -, -, hret, halters, -⟩ := leaves_of_cycle hlast
  have hpins : PinsOnly x q := hq.pinsOnly (.inl rfl)
  have hy : y = x := by
    obtain hpinned | hfresh := hpins
    · exact Mode.pinned.inj (hmode.symm.trans hpinned)
    · cases hmode.symm.trans hfresh
  subst hy
  refine ⟨(congrArg Scheduler.mode halters.scheduler).trans hmode, ?_⟩
  rw [isRunning, halters.thread, Option.any_some]
  obtain ⟨-, ⟨-, hflow, -⟩ | ⟨sync, _, -, hclose⟩⟩ := Thread.ret_eq_ok hret
  · cases hflow
  · obtain ⟨callee, target, -, -, -, -, rfl⟩ := Thread.close_eq_ok.1 hclose
    exact hrunning

end Machine

open Machine

/-- **What becomes of a slot.** From a point of a course to the next one, one of the listed things
happens to each slot. -/
theorem Point.Ensues.becomes {callbacks : Callbacks κ μ} {p q : Point κ μ}
    (h : Ensues callbacks p q) (id : ThreadId) :
    Becomes id p (p.machine.thread? id) (q.machine.thread? id) := by
  cases h with
  | idle => exact .rests _
  | begins op => exact .rests _
  | remember f => exact .rests _
  | performed hop hperform => exact becomes_perform hperform hop
  | run => exact .rests _
  | @refused x name e m m' hbegin =>
    exact becomes_confined (Stays.of_beginCall hbegin).toConfined rfl (fun hx => hx) .inr
  | @called x name m m₁ hbegin =>
    have hpinned : Confined x m (m₁.pin x) := (Stays.of_beginCall hbegin).toConfined.trans .pin
    show Becomes id _ _ ((m₁.pin x).thread? id)
    exact becomes_confined hpinned rfl (fun hx => hx) .inr
  | @returned x m₁ ended fuel outcome wasRunning hrun =>
    simp only [unpin]
    split
    · rename_i houtcome
      rw [houtcome] at hrun
      obtain ⟨hmode, hrunning⟩ := pinned_of_syncReturned hrun
      show Becomes id _ _ (thread? (modifyThread _ x _) id)
      rw [thread?_modifyThread]
      split
      · rename_i hx
        subst hx
        obtain ⟨t, ht, hrunning⟩ := (Option.any_eq_true _ _).1 hrunning
        show Becomes x _ (ended.thread? x) ((ended.thread? x).map _)
        rw [ht]
        exact .returns wasRunning hmode hrunning
      · exact .rests _
    · exact .rests _
  | @selects runnable m _ => exact becomes_schedule (m := m.now.2) runnable m.now.1
  | @waits x now m m' hready =>
    rw [show m' = (m.ready x now).2 by rw [hready]]
    exact becomes_ready (p := { machine := m, act := .selects x now }) rfl
  | @wakes x now m m' hready =>
    rw [show m' = (m.ready x now).2 by rw [hready]]
    exact becomes_ready (p := { machine := m, act := .selects x now }) rfl
  | @executed x now flow fuel m m' hown hstep =>
    exact becomes_step (p := { machine := m, act := .executes x now }) rfl hown hstep
  | @faulted x now fault fuel m m' hown hstep =>
    exact becomes_step (p := { machine := m, act := .executes x now }) rfl hown hstep
  | @entered x now callback m m' hcallback =>
    obtain ⟨t, i, call, ht, -, -, -, -, rfl⟩ := callback?_eq_some.1 hcallback
    exact becomes_alter (p := { machine := m, act := .executes x now }) rfl ht
      (entering_alters ht i) fun hrunning => hrunning
  | @left m x ip =>
    exact becomes_counts (m := m) x fun t =>
      { t.stats with instructions := t.stats.instructions + 1 }

/-! ## The thread in a slot -/

variable {callbacks : Callbacks κ μ} {p q : Point κ μ} {id : ThreadId} {t t' : Thread}

/-- A slot is emptied only when its thread is unloaded. -/
theorem Point.Ensues.isSome_thread? (h : Ensues callbacks p q)
    (hp : (p.machine.thread? id).isSome = true)
    (hkept : ∀ op, p.act = .begins op → ¬ op.Unloads id) :
    (q.machine.thread? id).isSome = true := by
  have hslot := h.becomes id
  generalize p.machine.thread? id = u, q.machine.thread? id = u' at hslot hp
  cases hslot with
  | unloads hact hunloads => exact absurd hunloads (hkept _ hact)
  | rests => exact hp
  | _ => rfl

/-- While a slot is taken, it holds what has become of one thread: another one is loaded into a free
slot. -/
theorem Machine.Changes.moves {m m' : Machine κ μ} (h : Changes m m') (ht : m.thread? id = some t)
    (ht' : m'.thread? id = some t') : t.Moves t' := by
  obtain hdescends | ⟨programs, hloaded⟩ := h
  · obtain ⟨u, hu, hmoves⟩ := hdescends.thread ht'
    cases ht.symm.trans hu
    exact hmoves
  · cases hloaded with
    | failed =>
      cases ht.symm.trans ht'
      exact .refl
    | @placed slot u hslot _ _ =>
      have hne : slot ≠ id := by
        rintro rfl
        cases (thread?_of_freeSlot hslot).symm.trans ht
      rw [thread?_place_of_freeSlot hslot, if_neg hne] at ht'
      cases ht.symm.trans ht'
      exact .refl

/-- A thread that is not unloaded stays in its slot. -/
theorem Point.Ensues.exists_moves (h : Ensues callbacks p q) (hp : p.machine.thread? id = some t)
    (hkept : ∀ op, p.act = .begins op → ¬ op.Unloads id) :
    ∃ t', q.machine.thread? id = some t' ∧ t.Moves t' := by
  have hloaded := h.isSome_thread? (by rw [hp, Option.isSome_some]) hkept
  obtain ⟨t', ht'⟩ := Option.isSome_iff_exists.1 hloaded
  exact ⟨t', ht', h.next.changes.moves hp ht'⟩

/-- It does so along a chain. -/
theorem exists_moves_of_isChain {since : List (Point κ μ)}
    (h : (p :: since ++ [q]).IsChain (Point.Ensues callbacks))
    (hp : p.machine.thread? id = some t)
    (hkept : ∀ c ∈ p :: since, ∀ op, c.act = .begins op → ¬ op.Unloads id) :
    ∃ t', q.machine.thread? id = some t' ∧ t.Moves t' := by
  obtain hq | ⟨c, hc, op, hact, hunloads⟩ := exists_of_isChain
    (P := fun c => ∃ t', c.machine.thread? id = some t' ∧ t.Moves t')
    (C := fun c => ∃ op, c.act = .begins op ∧ op.Unloads id)
    (fun {a b} hensues ⟨u, hu, hmoves⟩ => or_iff_not_imp_right.2 fun hkept => by
      obtain ⟨u', hu', hmoves'⟩ := hensues.exists_moves hu fun op hact hunloads =>
        hkept ⟨op, hact, hunloads⟩
      exact ⟨u', hu', hmoves.trans hmoves'⟩) h ⟨t, hp, .refl⟩
  · exact hq
  · exact absurd hunloads (hkept c hc op hact)

end ScriptMachine
