import ScriptMachine.Proofs.Registries
import ScriptMachine.Proofs.Running

/-!
# Where a callback comes from

What a registry holds under a name in a scope is what has been registered there last, or what it
held when the host installed it, unless it has been dropped since (`Point.Ensues.lookup?`). From
this follows, for whatever a thread resolves in the course of everything, where it comes from
(`HostProgram.resolves_registered`).

Functions for one thread go by its slot and are dropped when a thread is unloaded from there. What
is registered for an empty slot is not: it waits for the next thread that is loaded, and so does
what comes in with a registry (`resolves_before_load`).
-/

namespace ScriptMachine

open Machine Point

namespace Registry

variable {κ : Type} {r : Registry κ} {key : String × Scope} {name : String} {id : ThreadId} {f : κ}

/-- What is held under a key, a name without regard to case and a scope. -/
def lookup? (r : Registry κ) (key : String × Scope) : Option κ :=
  match r with
  | linear r => (r.entries.find? fun e => e.key = key).map (·.callback)
  | hashed r => r.entries[key]?.map Prod.snd

theorem lookup?_clear (r : Registry κ) : r.clear.lookup? key = none := by
  cases r with
  | linear r => rfl
  | hashed r => simp [clear, Hashed.clear, lookup?]

theorem lookup?_removeThread (r : Registry κ) (id : ThreadId) :
    (r.removeThread id).lookup? key = if key.2 = .thread id then none else r.lookup? key := by
  cases r with
  | linear r =>
    simp only [removeThread, Linear.removeThread, lookup?]
    induction r.entries with
    | nil => simp
    | cons e entries ih =>
      rw [List.filter_cons]
      by_cases hkey : e.key = key
      · have hscope : e.scope = key.2 := congrArg Prod.snd hkey
        by_cases howned : key.2 = .thread id
        · simpa [hscope, howned] using ih
        · simp [hscope, howned, hkey]
      · by_cases howned : e.scope = .thread id
        · simpa [howned, hkey] using ih
        · simpa [howned, hkey] using ih
  | hashed r =>
    simp only [removeThread, Hashed.removeThread, lookup?, Std.HashMap.getElem?_filter']
    cases r.entries[key]? with
    | none => simp
    | some row =>
      by_cases howned : key.2 = .thread id
      · simp [howned]
      · simp [howned]

theorem clear_removeThread (r : Registry κ) (id : ThreadId) :
    (r.removeThread id).clear = r.clear := by
  cases r <;> rfl

/-- A registration concerns the first function in the list or those behind it. -/
theorem Linear.register_cons (e : Entry κ) (entries : List (Entry κ)) (scope : Scope)
    (name : String) (f : κ) :
    ((⟨e :: entries⟩ : Linear κ).register scope name f).entries =
      if e.key = (Text.caseKey name, scope) then { e with callback := f } :: entries
      else e :: ((⟨entries⟩ : Linear κ).register scope name f).entries := by
  simp only [Linear.register, List.findIdx?_cons, sameEntry_iff]
  by_cases hkey : e.key = (Text.caseKey name, scope)
  · simp [hkey]
  · simp only [if_neg hkey]
    cases entries.findIdx? fun e => e.scope = scope && Text.sameName e.name name with
    | none => rfl
    | some i => rfl

theorem Linear.find?_register (entries : List (Entry κ)) (scope : Scope) (name : String) (f : κ) :
    ((((⟨entries⟩ : Linear κ).register scope name f).entries.find? fun e => e.key = key).map
      (·.callback)) = if (Text.caseKey name, scope) = key then some f
        else (entries.find? fun e => e.key = key).map (·.callback) := by
  induction entries with
  | nil =>
    by_cases hkey : (Text.caseKey name, scope) = key
    · simp [Linear.register, Entry.key, hkey]
    · simp [Linear.register, Entry.key, hkey]
  | cons e entries ih =>
    rw [Linear.register_cons]
    by_cases hsame : e.key = (Text.caseKey name, scope)
    · have hkept : Entry.key { e with callback := f } = e.key := rfl
      rw [if_pos hsame, List.find?_cons, List.find?_cons, hkept, hsame]
      by_cases hkey : (Text.caseKey name, scope) = key
      · simp [hkey]
      · simp [hkey]
    · rw [if_neg hsame, List.find?_cons, List.find?_cons]
      by_cases hkey : e.key = key
      · rw [hkey] at hsame
        simp [hkey, Ne.symm hsame]
      · simpa [hkey] using ih

/-- A registration is what is registered under its key then, and leaves everything else alone. -/
theorem lookup?_register (r : Registry κ) (scope : Scope) (name : String) (f : κ) :
    (r.register scope name f).lookup? key =
      if (Text.caseKey name, scope) = key then some f else r.lookup? key := by
  cases r with
  | linear r => exact Linear.find?_register r.entries scope name f
  | hashed r =>
    have hinsert (n : UInt64) :
        (r.entries.insert (Text.caseKey name, scope) (n, f))[key]?.map Prod.snd =
          if (Text.caseKey name, scope) = key then some f else r.entries[key]?.map Prod.snd := by
      rw [Std.HashMap.getElem?_insert]
      by_cases hkey : (Text.caseKey name, scope) = key
      · simp [hkey]
      · simp [hkey]
    simp only [register, Hashed.register, lookup?]
    split
    · exact hinsert _
    · exact hinsert _

/-- What a thread reaches by a name is registered under it for all threads or for this one. -/
theorem lookup?_of_resolve? (h : r.resolve? name id = some f) :
    ∃ scope, (scope = .global ∨ scope = .thread id) ∧
      r.lookup? (Text.caseKey name, scope) = some f := by
  cases r with
  | linear r =>
    obtain ⟨e, hfind, rfl⟩ := Option.map_eq_some_iff.1 h
    obtain ⟨he, before, after, hentries, hbefore⟩ := List.find?_eq_some_iff_append.1 hfind
    have first (hkey : e.key = (Text.caseKey name, e.scope))
        (hscope : e.scope = .global ∨ e.scope = .thread id) :
        (linear r).lookup? (Text.caseKey name, e.scope) = some e.callback := by
      refine Option.map_eq_some_iff.2 ⟨e, ?_, rfl⟩
      refine List.find?_eq_some_iff_append.2 ⟨by simpa using hkey, before, after, hentries, ?_⟩
      intro b hb
      have hnot := hbefore b hb
      simp only [Bool.not_eq_true', Bool.eq_false_iff, ne_eq, callable_iff, not_or] at hnot
      rw [Bool.not_eq_true', decide_eq_false_iff_not]
      obtain hscope | hscope := hscope <;> rw [hscope]
      · exact hnot.2
      · exact hnot.1
    obtain hkey | hkey := callable_iff.1 he
    · have hscope : e.scope = .thread id := congrArg Prod.snd hkey
      exact ⟨e.scope, .inr hscope, first (by rw [hkey, hscope]) (.inr hscope)⟩
    · have hscope : e.scope = .global := congrArg Prod.snd hkey
      exact ⟨e.scope, .inl hscope, first (by rw [hkey, hscope]) (.inl hscope)⟩
  | hashed r =>
    simp only [resolve?, Hashed.resolve?] at h
    have own {n : UInt64} (hown : r.entries[(Text.caseKey name, Scope.thread id)]? = some (n, f)) :
        ∃ scope, (scope = .global ∨ scope = .thread id) ∧
          (hashed r).lookup? (Text.caseKey name, scope) = some f :=
      ⟨.thread id, .inr rfl, by rw [lookup?, hown, Option.map_some]⟩
    have all {n : UInt64} (hall : r.entries[(Text.caseKey name, Scope.global)]? = some (n, f)) :
        ∃ scope, (scope = .global ∨ scope = .thread id) ∧
          (hashed r).lookup? (Text.caseKey name, scope) = some f :=
      ⟨.global, .inl rfl, by rw [lookup?, hall, Option.map_some]⟩
    split at h
    · rename_i m g n k hown hall
      split at h
      · cases h
        exact own hown
      · cases h
        exact all hall
    · rename_i hown _
      cases h
      exact own hown
    · rename_i _ hall
      cases h
      exact all hall
    · cases h

end Registry

variable {κ μ : Type} {callbacks : Callbacks κ μ} {p q : Point κ μ} {m : Machine κ μ}
  {m' : Machine κ μ} {id : ThreadId} {key : String × Scope} {f : κ}

/-! ## Changes of the registry -/

/-- The registry after an operation. An empty slot that is unloaded keeps what is registered for
it. -/
def HostOp.registryAfter (m : Machine κ μ) : HostOp κ → Registry κ
  | register scope name f => m.registry.register scope name f
  | setRegistry registry => registry
  | unload x => if (m.thread? x).isSome then m.registry.removeThread x else m.registry
  | shutdown => m.registry.clear
  | _ => m.registry

/-- The registry at the next point of a course. -/
def Point.registryAfter (p : Point κ μ) : Registry κ :=
  match p.act.op? with
  | some op => op.registryAfter p.machine
  | none => p.machine.registry

namespace Machine

theorem registry_place (x : ThreadId) (t : Thread) : (m.place x t).registry = m.registry := by
  simp only [place]
  split <;> rfl

theorem registry_of_loaded {programs : Image → Prop} (h : Loaded programs m m') :
    m'.registry = m.registry := by
  cases h with
  | failed => rfl
  | placed _ _ _ => exact registry_place _ _

theorem registry_schedule (runnable : ThreadId) (now : UInt64) :
    (m.schedule runnable now).2.registry = m.registry := by
  rcases schedule_snd m runnable now with h | ⟨first, h⟩
  · rw [h]
  · rw [h]
    rfl

theorem registry_ready (x : ThreadId) (now : UInt64) :
    (m.ready x now).2.registry = m.registry := by
  rcases ready_snd m x now with h | h
  · rw [h]
  · rw [h]
    rfl

theorem registry_unload (x : ThreadId) :
    (m.unload x).registry =
      if (m.thread? x).isSome then m.registry.removeThread x else m.registry := by
  simp only [unload]
  split
  · rename_i hnone
    simp [hnone]
  · rename_i t ht
    simp only [ht, Option.isSome_some, if_true]
    rfl

theorem registry_shutdown (m : Machine κ μ) : m.shutdown.registry = m.registry.clear := by
  have hunloads (ids : List ThreadId) (m : Machine κ μ) :
      (ids.foldl unload m).registry.clear = m.registry.clear := by
    induction ids generalizing m with
    | nil => rfl
    | cons x ids ih =>
      rw [List.foldl_cons, ih, registry_unload]
      split
      · exact Registry.clear_removeThread _ x
      · rfl
  exact hunloads m.loadedThreads m

/-- What an operation makes of the registry. -/
theorem registry_perform {op : HostOp κ} {answer : op.Answer} {fuel : Nat}
    (h : m.perform callbacks fuel op = some (answer, m')) (hop : op.Atomic) :
    m'.registry = op.registryAfter m := by
  cases fuel with
  | zero => cases h
  | succ fuel =>
    have answered {α : Type} {r : α × Machine κ μ} {a : α} (hr : some r = some (a, m'))
        (hregistry : r.2.registry = op.registryAfter m) : m'.registry = op.registryAfter m := by
      cases hr
      exact hregistry
    have stays {x : ThreadId} (r : Machine κ μ) (hstays : Stays x m r) :
        r.registry = m.registry := hstays.registry
    cases op with
    | load image priority => exact answered h (registry_of_loaded (loaded_load ..))
    | loadFile contents priority => exact answered h (registry_of_loaded (loaded_loadFile ..))
    | unload x => exact answered h (registry_unload x)
    | shutdown => exact answered h (registry_shutdown m)
    | reset x => exact answered h (stays _ .reset)
    | start x => exact answered h Confined.start.1.registry
    | stop x => exact answered h (stays _ .stop)
    | pause x ms => exact answered h (stays _ (.pause ms))
    | unpause x => exact answered h (stays _ .unpause)
    | invoke x name => exact answered h (stays _ (.beginCall name false))
    | pass x v => exact answered h (stays _ (.pass v))
    | hostReturn x params v => exact answered h (stays _ (.hostReturn params v))
    | run | call => exact hop.elim
    | _ => exact answered h rfl

end Machine

/-- **What becomes of the registry.** Only the host changes it. -/
theorem Point.Ensues.registry (h : Ensues callbacks p q) :
    q.machine.registry = p.registryAfter := by
  cases h with
  | idle => rfl
  | begins op => rfl
  | remember f => rfl
  | performed hop hperform => exact registry_perform hperform hop
  | run => rfl
  | refused hbegin => exact (Stays.of_beginCall hbegin).registry
  | called hbegin => exact (Stays.of_beginCall hbegin).registry
  | @returned x m₁ ended fuel outcome wasRunning hrun =>
    exact (Confined.unpin x ended m₁.scheduler wasRunning outcome).1.registry
  | @selects runnable m _ => exact registry_schedule (m := m.now.2) runnable m.now.1
  | @waits x now m m' hready =>
    exact (congrArg (·.2.registry) hready).symm.trans (registry_ready x now)
  | @wakes x now m m' hready =>
    exact (congrArg (·.2.registry) hready).symm.trans (registry_ready x now)
  | executed hown hstep => exact (Stays.of_step hown hstep).registry
  | faulted hown hstep => exact ((Stays.of_step hown hstep).trans (.fault _)).registry
  | entered hcallback =>
    obtain ⟨t, i, call, ht, -, -, -, -, rfl⟩ := callback?_eq_some.1 hcallback
    exact (entering_alters ht i).registry
  | left x ip => rfl

/-! ## Registrations -/

/-- A callback comes to be held under a key: it is registered, or the registry that is installed
holds it already. -/
inductive HostOp.Supplies (key : String × Scope) (f : κ) : HostOp κ → Prop
  | registers {scope : Scope} {name : String} (hkey : (Text.caseKey name, scope) = key) :
    Supplies key f (register scope name f)
  | brings {registry : Registry κ} (hlookup : registry.lookup? key = some f) :
    Supplies key f (setRegistry registry)

/-- What is held under a key is dropped: another registration takes its place, the thread it is for
is unloaded, or the registry is emptied or replaced. -/
def HostOp.Drops (key : String × Scope) (m : Machine κ μ) : HostOp κ → Prop
  | register scope name _ => (Text.caseKey name, scope) = key
  | unload x => key.2 = .thread x ∧ (m.thread? x).isSome = true
  | setRegistry _ | shutdown => True
  | _ => False

/-- What is about to happen drops what is held under a key. -/
def Point.Drops (key : String × Scope) (p : Point κ μ) : Prop :=
  ∃ op, p.act = .begins op ∧ op.Drops key p.machine

/-- Whoever empties a slot with a thread drops what is held for it. -/
theorem HostOp.Unloads.drops {op : HostOp κ} {name : String} (h : op.Unloads id)
    (hloaded : (m.thread? id).isSome = true) : op.Drops (name, .thread id) m := by
  cases op with
  | unload x =>
    obtain rfl : x = id := h
    exact ⟨rfl, hloaded⟩
  | shutdown => trivial
  | _ => cases h

theorem HostOp.lookup?_registryAfter {op : HostOp κ}
    (h : (op.registryAfter m).lookup? key = some f) :
    op.Supplies key f ∨ m.registry.lookup? key = some f ∧ ¬ op.Drops key m := by
  cases op with
  | register scope name g =>
    rw [registryAfter, Registry.lookup?_register] at h
    split at h
    · rename_i hkey
      cases h
      exact .inl (.registers hkey)
    · rename_i hkey
      exact .inr ⟨h, hkey⟩
  | setRegistry registry => exact .inl (.brings h)
  | shutdown =>
    rw [registryAfter, Registry.lookup?_clear] at h
    cases h
  | unload x =>
    rw [registryAfter] at h
    split at h
    · rw [Registry.lookup?_removeThread] at h
      split at h
      · cases h
      · rename_i hother
        exact .inr ⟨h, fun hdrops => hother hdrops.1⟩
    · rename_i hempty
      exact .inr ⟨h, fun hdrops => hempty hdrops.2⟩
  | _ => exact .inr ⟨h, fun hdrops => hdrops⟩

/-- What is held under a key has just been registered there or come in with a registry, or was
there before and has not been dropped. -/
theorem Point.Ensues.lookup? (h : Ensues callbacks p q)
    (hq : q.machine.registry.lookup? key = some f) :
    (∃ op, p.act = .begins op ∧ op.Supplies key f) ∨
      p.machine.registry.lookup? key = some f ∧ ¬ p.Drops key := by
  obtain ⟨m, act⟩ := p
  rw [h.registry] at hq
  cases act with
  | begins op =>
    obtain hsupplies | ⟨hlookup, hkept⟩ := HostOp.lookup?_registryAfter hq
    · exact .inl ⟨op, rfl, hsupplies⟩
    · refine .inr ⟨hlookup, ?_⟩
      rintro ⟨_, ⟨⟩, hdrops⟩
      exact hkept hdrops
  | _ => exact .inr ⟨hq, fun hdrops => nomatch hdrops.choose_spec.1⟩

/-! ## Slots -/

/-- A slot that no thread is unloaded from is empty up to some point and taken ever after. -/
theorem exists_vacant {stretch : List (Point κ μ)}
    (hchain : (stretch ++ [q]).IsChain (Ensues callbacks))
    (hkept : ∀ c ∈ stretch, (c.machine.thread? id).isSome = true →
      ∀ op, c.act = .begins op → ¬ op.Unloads id) :
    ∃ vacant taken, stretch ++ [q] = vacant ++ taken ∧
      (∀ c ∈ vacant, c.machine.thread? id = none) ∧
      ∀ c ∈ taken, (c.machine.thread? id).isSome = true := by
  induction stretch with
  | nil =>
    cases hq : q.machine.thread? id with
    | none => exact ⟨[q], [], rfl, by simpa using hq, by simp⟩
    | some t => exact ⟨[], [q], rfl, by simp, by simp [hq]⟩
  | cons p stretch ih =>
    obtain ⟨vacant, taken, hsplit, hvacant, htaken⟩ :=
      ih hchain.tail fun c hc => hkept c (List.mem_cons_of_mem p hc)
    rw [List.cons_append, hsplit] at hchain ⊢
    by_cases hp : (p.machine.thread? id).isSome = true
    · cases vacant with
      | nil =>
        refine ⟨[], p :: taken, rfl, by simp, fun c hc => ?_⟩
        obtain rfl | hc := List.mem_cons.1 hc
        · exact hp
        · exact htaken c hc
      | cons c vacant =>
        have hc := (List.isChain_cons_cons.1 hchain).1.isSome_thread? hp
          (hkept p List.mem_cons_self hp)
        rw [hvacant c List.mem_cons_self] at hc
        cases hc
    · refine ⟨p :: vacant, taken, rfl, fun c hc => ?_, htaken⟩
      obtain rfl | hc := List.mem_cons.1 hc
      · simpa using hp
      · exact hvacant c hc

/-- **Where a callback comes from.** Whatever a host and its callbacks do, with either form of
registry: what a thread resolves by a name has been registered by this name, up to case, for all
threads or for its slot, or was held so by the registry that was installed last, and has not been
dropped since. If it is for the slot, no thread has been unloaded from there since: the slot was
empty then, and until the thread was loaded, or the thread was loaded already. -/
theorem HostProgram.resolves_registered {α : Type} {fuel : Nat} {program : HostProgram κ μ α}
    {config : Config} {clock : Clock} {memory : μ} {before after : List (Point κ μ)}
    {name : String}
    (h : program.course callbacks fuel (create config clock memory) = before ++ q :: after)
    (hresolve : q.machine.registry.resolve? name id = some f) :
    ∃ earlier p since scope, before = earlier ++ p :: since ∧
      ((∃ spelling, p.act = .begins (.register scope spelling f) ∧
          Text.sameName spelling name = true) ∨
        ∃ registry, p.act = .begins (.setRegistry registry) ∧
          registry.lookup? (Text.caseKey name, scope) = some f) ∧
      (∀ c ∈ since, ¬ c.Drops (Text.caseKey name, scope)) ∧
      (scope = .global ∨ scope = .thread id ∧
        ∃ vacant taken, p :: since ++ [q] = vacant ++ taken ∧
          (∀ c ∈ vacant, c.machine.thread? id = none) ∧
          ∀ c ∈ taken, (c.machine.thread? id).isSome = true) := by
  have hchain := ensues_course callbacks fuel program (create config clock memory)
  rw [h, List.isChain_split] at hchain
  obtain ⟨scope, hscope, hlookup⟩ := Registry.lookup?_of_resolve? hresolve
  have hfirst : ∀ c ∈ (before ++ [q]).head?,
      ¬ c.machine.registry.lookup? (Text.caseKey name, scope) = some f := by
    intro c hc
    rw [eq_of_head? h hc]
    exact nofun
  obtain ⟨earlier, p, since, rfl, ⟨op, hact, hsupplies⟩, hsince⟩ :=
    exists_since (P := fun c => c.machine.registry.lookup? (Text.caseKey name, scope) = some f)
      Point.Ensues.lookup? hchain.1 hfirst hlookup
  refine ⟨earlier, p, since, scope, rfl, ?_, fun c hc => (hsince c hc).2,
    hscope.imp_right fun howned => ⟨howned, ?_⟩⟩
  · cases hsupplies with
    | @registers _ spelling hkey =>
      obtain ⟨hspelling, rfl⟩ := Prod.mk.inj hkey
      exact .inl ⟨spelling, hact, Text.sameName_iff.2 hspelling⟩
    | brings hheld => exact .inr ⟨_, hact, hheld⟩
  · subst howned
    refine exists_vacant (stretch_of_course h) fun c hc hloaded op' hop hunloads => ?_
    obtain rfl | hc := List.mem_cons.1 hc
    · cases hact.symm.trans hop
      cases hsupplies <;> exact hunloads
    · exact (hsince c hc).2 ⟨op', hop, hunloads.drops hloaded⟩

/-- A program that calls a host function. -/
def knocking : Image where
  stackSize := 8
  main := some 0
  instructions := #[⟨.callHost, [.hostCallIndex 0]⟩, ⟨.exit, [.int 0]⟩]
  functions := #[⟨"_Main", 0, 0, 0⟩]
  hostCalls := #["host"]

/-- What a host does that loads a program and unloads it, does something while the slot is empty,
loads the program there again, and runs it. -/
def unloadAndReload (program : Image) (meanwhile : HostOp Unit) : HostProgram Unit Unit Unit :=
  .perform (.load program none) fun _ => .perform (.unload 0) fun _ =>
    .perform meanwhile fun _ => .perform (.load program none) fun _ =>
      .perform (.start 0) fun _ => .perform (.run .unlimited) fun _ => .pure ()

/-- A registry with a function for the first slot. -/
def forFirst : Registry Unit :=
  (RegistryKind.linear : Registry Unit).register (.thread 0) "host" ()

/-- The thread that has been loaded last is at its call, and the host has done nothing else up to
then. -/
theorem exists_reloaded (meanwhile : HostOp Unit)
    (hops : (((unloadAndReload knocking meanwhile).course (fun _ _ => .pure ()) 9
      (create {} (.ticking 0) ())).take 14).filterMap (·.act.op?) = [.load knocking none, .unload 0,
        meanwhile, .load knocking none, .start 0, .run .unlimited])
    (hcalls : ((unloadAndReload knocking meanwhile).course (fun _ _ => .pure ()) 9
      (create {} (.ticking 0) ()))[14]?.any (fun q => decide (q.act = .executes 0 0 ∧
        q.machine.registry.resolve? "HOST" 0 = some () ∧
        (q.machine.callback? 0).map Prod.fst = some ())) = true) :
    ∃ before q after, (unloadAndReload knocking meanwhile).course (fun _ _ => .pure ()) 9
        (create {} (.ticking 0) ()) = before ++ q :: after ∧
      before.filterMap (·.act.op?) = [.load knocking none, .unload 0, meanwhile,
        .load knocking none, .start 0, .run .unlimited] ∧
      q.act = .executes 0 0 ∧ q.machine.registry.resolve? "HOST" 0 = some () ∧
      (q.machine.callback? 0).map Prod.fst = some () := by
  generalize (unloadAndReload knocking meanwhile).course (fun _ _ => .pure ()) 9
    (create {} (.ticking 0) ()) = course at hops hcalls ⊢
  obtain ⟨q, hq, hcalls⟩ := (Option.any_eq_true _ _).1 hcalls
  obtain ⟨hlt, rfl⟩ := List.getElem?_eq_some_iff.1 hq
  refine ⟨course.take 14, course[14], course.drop 15, ?_, hops, of_decide_eq_true hcalls⟩
  rw [← List.drop_eq_getElem_cons hlt, List.take_append_drop]

/-- The thread that has been loaded last resolves the function, by its name in other letters too:
one that was registered in between, and one that came in with a registry. -/
theorem resolves_registered_between :
    (∃ before q after, (unloadAndReload knocking (.register (.thread 0) "host" ())).course
        (fun _ _ => .pure ()) 9 (create {} (.ticking 0) ()) = before ++ q :: after ∧
      q.act = .executes 0 0 ∧ q.machine.registry.resolve? "HOST" 0 = some () ∧
      ∃ earlier p since scope spelling, before = earlier ++ p :: since ∧
        p.act = .begins (.register scope spelling ()) ∧ Text.sameName spelling "HOST" = true) ∧
    ∃ before q after, (unloadAndReload knocking (.setRegistry forFirst)).course
        (fun _ _ => .pure ()) 9 (create {} (.ticking 0) ()) = before ++ q :: after ∧
      q.act = .executes 0 0 ∧ q.machine.registry.resolve? "HOST" 0 = some () ∧
      ∃ earlier p since scope registry, before = earlier ++ p :: since ∧
        p.act = .begins (.setRegistry registry) ∧
        registry.lookup? (Text.caseKey "HOST", scope) = some () := by
  have begun {p : Point Unit Unit} {earlier since : List (Point Unit Unit)} {op : HostOp Unit}
      {ops : List (HostOp Unit)} (hops : (earlier ++ p :: since).filterMap (·.act.op?) = ops)
      (hact : p.act = .begins op) : op ∈ ops := by
    rw [← hops]
    exact List.mem_filterMap.2 ⟨p, by simp, by rw [hact]; rfl⟩
  constructor
  · obtain ⟨before, q, after, h, hops, hact, hresolve, -⟩ :=
      exists_reloaded (.register (.thread 0) "host" ()) (by decide +kernel) (by decide +kernel)
    obtain ⟨earlier, p, since, scope, rfl, horigin, -⟩ :=
      HostProgram.resolves_registered h hresolve
    obtain ⟨spelling, hregisters, hname⟩ | ⟨registry, hbrings, -⟩ := horigin
    · exact ⟨_, q, after, h, hact, hresolve, earlier, p, since, scope, spelling, rfl, hregisters,
        hname⟩
    · simpa using begun hops hbrings
  · obtain ⟨before, q, after, h, hops, hact, hresolve, -⟩ :=
      exists_reloaded (.setRegistry forFirst) (by decide +kernel) (by decide +kernel)
    obtain ⟨earlier, p, since, scope, rfl, horigin, -⟩ :=
      HostProgram.resolves_registered h hresolve
    obtain ⟨spelling, hregisters, -⟩ | ⟨registry, hbrings, hheld⟩ := horigin
    · simpa using begun hops hregisters
    · exact ⟨_, q, after, h, hact, hresolve, earlier, p, since, scope, registry, rfl, hbrings,
        hheld⟩

/-- What is registered for an empty slot is there for the next thread, and so is what comes in with
a registry: the host registers one function only, before it loads the thread that calls it, or none
at all. -/
theorem resolves_before_load :
    (∃ before q after, (unloadAndReload knocking (.register (.thread 0) "host" ())).course
        (fun _ _ => .pure ()) 9 (create {} (.ticking 0) ()) = before ++ q :: after ∧
      before.filterMap (·.act.op?) = [.load knocking none, .unload 0,
        .register (.thread 0) "host" (), .load knocking none, .start 0, .run .unlimited] ∧
      q.act = .executes 0 0 ∧ (q.machine.callback? 0).map Prod.fst = some ()) ∧
    ∃ before q after, (unloadAndReload knocking (.setRegistry forFirst)).course
        (fun _ _ => .pure ()) 9 (create {} (.ticking 0) ()) = before ++ q :: after ∧
      before.filterMap (·.act.op?) = [.load knocking none, .unload 0, .setRegistry forFirst,
        .load knocking none, .start 0, .run .unlimited] ∧
      q.act = .executes 0 0 ∧ (q.machine.callback? 0).map Prod.fst = some () := by
  constructor
  · obtain ⟨before, q, after, h, hops, hact, -, hcalls⟩ :=
      exists_reloaded (.register (.thread 0) "host" ()) (by decide +kernel) (by decide +kernel)
    exact ⟨before, q, after, h, hops, hact, hcalls⟩
  · obtain ⟨before, q, after, h, hops, hact, -, hcalls⟩ :=
      exists_reloaded (.setRegistry forFirst) (by decide +kernel) (by decide +kernel)
    exact ⟨before, q, after, h, hops, hact, hcalls⟩

end ScriptMachine
