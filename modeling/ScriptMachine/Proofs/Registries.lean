import Mathlib.Algebra.Ring.Nat
import Mathlib.Data.List.Basic
import ScriptMachine.Registry.Basic

/-!
# The two forms of a registry

The linear registry keeps its functions in the order of their registration, the hashed one in a
table, each with a number. `Listed` relates the two through a list of registrations with their
numbers: it is the order of the one and the content of the other, and the numbers rise along it.
Every operation keeps such a list, as long as the numbers do not wrap, and from it both registries
give the same answers.
-/

namespace ScriptMachine.Registry

/-- What can be done with a registry. -/
inductive Op (κ : Type) where
  | register (scope : Scope) (name : String) (callback : κ)
  | resolve (name : String) (id : ThreadId)
  | removeThread (id : ThreadId)
  | clear
deriving DecidableEq, Repr

/-- Whether an operation is a registration. -/
def Op.registers {κ : Type} : Op κ → Bool
  | register .. => true
  | _ => false

/-- What is seen of a registry after an operation: the callback that was found, if the operation
looked for one, and the number of functions. -/
structure View (κ : Type) where
  answer : Option κ
  size : Nat
  isEmpty : Bool
deriving DecidableEq, Repr

variable {κ : Type}

/-- Carry out an operation. -/
def apply (r : Registry κ) : Op κ → Option κ × Registry κ
  | .register scope name callback => (none, r.register scope name callback)
  | .resolve name id => (r.resolve? name id, r)
  | .removeThread id => (none, r.removeThread id)
  | .clear => (none, r.clear)

/-- What is seen of a registry during a sequence of operations. -/
def views (r : Registry κ) : List (Op κ) → List (View κ)
  | [] => []
  | op :: ops =>
    let (answer, r) := r.apply op
    { answer, size := r.size, isEmpty := r.isEmpty } :: r.views ops

/-! ## Registrations with their numbers -/

/-- What a function is found by. -/
def Entry.key (e : Entry κ) : String × Scope := (Text.caseKey e.name, e.scope)

/-- A registration with its number, as the table holds it. -/
def item (r : Entry κ × UInt64) : (String × Scope) × (UInt64 × κ) :=
  (r.1.key, (r.2, r.1.callback))

/-- The registrations of a linear and of a hashed registry, the first one first. -/
structure Listed (rows : List (Entry κ × UInt64)) (l : Linear κ) (h : Hashed κ) : Prop where
  entries : l.entries = rows.map Prod.fst
  table : h.entries.toList.Perm (rows.map item)
  rising : (rows.map Prod.snd).Pairwise (· < ·)
  below : ∀ n ∈ rows.map Prod.snd, n < h.next

theorem sameEntry_iff {e : Entry κ} {scope : Scope} {name : String} :
    (e.scope = scope && Text.sameName e.name name) = true ↔ e.key = (Text.caseKey name, scope) := by
  simp [Entry.key, Text.sameName_iff, and_comm]

/-- A thread can call what is registered under a name for it alone or for all threads. -/
theorem callable_iff {e : Entry κ} {name : String} {id : ThreadId} :
    (e.scope.admits id && Text.sameName e.name name) = true ↔
      e.key = (Text.caseKey name, .thread id) ∨ e.key = (Text.caseKey name, .global) := by
  cases hs : e.scope <;> simp [Entry.key, Text.sameName_iff, Scope.admits, hs, and_comm]

namespace Listed

variable {rows : List (Entry κ × UInt64)} {l : Linear κ} {h : Hashed κ} {a b : Entry κ × UInt64}

theorem size_eq (hl : Listed rows l h) : l.size = h.size := by
  have hlength := hl.table.length_eq
  rw [Std.HashMap.length_toList, List.length_map] at hlength
  rw [Linear.size, Hashed.size, hl.entries, List.length_map, hlength]

/-- No two registrations are found by the same name and scope. -/
theorem distinct (hl : Listed rows l h) : rows.Pairwise fun a b => a.1.key ≠ b.1.key := by
  have hkeys := Std.HashMap.distinct_keys_toList (m := h.entries)
  have hitems := (hl.table.pairwise_iff fun hne => by rwa [Bool.beq_comm]).1 hkeys
  refine (List.pairwise_map.1 hitems).imp fun hne => ?_
  simpa [item] using hne

/-- What the table holds is what is registered. -/
theorem lookup (hl : Listed rows l h) {key : String × Scope} {n : UInt64} {f : κ} :
    h.entries[key]? = some (n, f) ↔ ∃ r ∈ rows, r.1.key = key ∧ r.2 = n ∧ r.1.callback = f := by
  rw [← Std.HashMap.mem_toList_iff_getElem?_eq_some, hl.table.mem_iff, List.mem_map]
  simp [item]

theorem lookup_eq_none (hl : Listed rows l h) {key : String × Scope} :
    h.entries[key]? = none ↔ ∀ r ∈ rows, r.1.key ≠ key := by
  rw [Option.eq_none_iff_forall_ne_some]
  constructor
  · intro hnone r hr hkey
    exact hnone _ (hl.lookup.2 ⟨r, hr, hkey, rfl, rfl⟩)
  · rintro hnone ⟨n, f⟩ hsome
    obtain ⟨r, hr, hkey, -⟩ := hl.lookup.1 hsome
    exact hnone r hr hkey

/-! ## Looking up -/

/-- The registration found first is the earliest one that can be called. -/
theorem earliest (hrising : (rows.map Prod.snd).Pairwise (· < ·)) {p : Entry κ × UInt64 → Bool}
    (hfind : rows.find? p = some a) (hb : b ∈ rows) (hp : p b = true) : b = a ∨ a.2 < b.2 := by
  obtain ⟨-, before, after, rfl, hbefore⟩ := List.find?_eq_some_iff_append.1 hfind
  rcases List.mem_append.1 hb with hb | hb
  · have hnot := hbefore b hb
    rw [hp] at hnot
    cases hnot
  · rcases List.mem_cons.1 hb with hb | hb
    · exact .inl hb
    · rw [List.map_append, List.map_cons] at hrising
      have hafter := (List.pairwise_cons.1 (List.pairwise_append.1 hrising).2.1).1
      exact .inr (hafter _ (List.mem_map_of_mem hb))

/-- Both registries find the same callback. -/
theorem resolve?_eq (hl : Listed rows l h) (name : String) (id : ThreadId) :
    l.resolve? name id = h.resolve? name id := by
  let p : Entry κ × UInt64 → Bool := fun r => r.1.scope.admits id && Text.sameName r.1.name name
  have hlinear : l.resolve? name id = (rows.find? p).map fun r => r.1.callback := by
    rw [Linear.resolve?, hl.entries, List.find?_map, Option.map_map]
    rfl
  rw [hlinear, Hashed.resolve?]
  cases hfind : rows.find? p with
  | none =>
    have hnone := List.find?_eq_none.1 hfind
    rw [hl.lookup_eq_none.2 fun r hr hkey => hnone r hr (callable_iff.2 (.inl hkey)),
      hl.lookup_eq_none.2 fun r hr hkey => hnone r hr (callable_iff.2 (.inr hkey))]
    rfl
  | some a =>
    have ha := List.mem_of_find?_eq_some hfind
    have hfirst {b} (hb : b ∈ rows) (hp : p b = true) := earliest hl.rising hfind hb hp
    have found {key} (hkey : a.1.key = key) : h.entries[key]? = some (a.2, a.1.callback) :=
      hl.lookup.2 ⟨a, ha, hkey, rfl, rfl⟩
    have hp : p a = true := List.find?_some hfind
    rcases callable_iff.1 hp with hkey | hkey
    · rw [found hkey]
      cases hall : h.entries[(Text.caseKey name, Scope.global)]? with
      | none => rfl
      | some r =>
        obtain ⟨b, hb, hkey', hn, -⟩ := hl.lookup.1 hall
        have hlt : a.2 < b.2 := by
          refine (hfirst hb (callable_iff.2 (.inr hkey'))).resolve_left ?_
          rintro rfl
          rw [hkey] at hkey'
          cases hkey'
        simp [← hn, hlt]
    · rw [found hkey]
      cases hown : h.entries[(Text.caseKey name, Scope.thread id)]? with
      | none => rfl
      | some r =>
        obtain ⟨b, hb, hkey', hn, -⟩ := hl.lookup.1 hown
        have hlt : a.2 < b.2 := by
          refine (hfirst hb (callable_iff.2 (.inl hkey'))).resolve_left ?_
          rintro rfl
          rw [hkey] at hkey'
          cases hkey'
        simp [← hn, UInt64.lt_asymm hlt]

/-! ## Changes -/

theorem empty : Listed [] ({} : Linear κ) {} where
  entries := rfl
  table := by simp [Std.HashMap.toList_empty]
  rising := .nil
  below := by simp

theorem clear (h : Hashed κ) : Listed [] {} h.clear where
  entries := rfl
  table := by simp [Hashed.clear]
  rising := .nil
  below := by simp

theorem removeThread (hl : Listed rows l h) (id : ThreadId) :
    Listed (rows.filter fun r => r.1.scope ≠ .thread id) (l.removeThread id)
      (h.removeThread id) where
  entries := by
    rw [Linear.removeThread, hl.entries, List.filter_map]
    rfl
  table := by
    have hfilter := Std.HashMap.toList_filter (m := h.entries)
      (f := fun key _ => decide (key.2 ≠ Scope.thread id))
    refine hfilter.trans ((hl.table.filter _).trans ?_)
    rw [List.filter_map]
    rfl
  rising := hl.rising.sublist (List.filter_sublist.map _)
  below n hn := hl.below n ((List.filter_sublist.map _).mem hn)

/-- Inserting an item touches no item of another key. -/
theorem filter_others {key : String × Scope} (hne : ∀ r ∈ rows, r.1.key ≠ key) :
    (rows.map item).filter (fun x => ¬key == x.1) = rows.map item := by
  rw [List.filter_eq_self]
  intro x hx
  obtain ⟨r, hr, rfl⟩ := List.mem_map.1 hx
  have hkey : ¬key = (item r).1 := fun h => hne r hr h.symm
  simpa using hkey

/-- Registering a name again in its scope keeps its place and its number. -/
theorem replace {before after : List (Entry κ × UInt64)} {scope : Scope} {name : String}
    (hl : Listed (before ++ a :: after) l h) (hkey : a.1.key = (Text.caseKey name, scope))
    (callback : κ) :
    Listed (before ++ ({ a.1 with callback }, a.2) :: after) (l.register scope name callback)
      (h.register scope name callback) := by
  have hdistinct := hl.distinct
  rw [List.pairwise_append, List.pairwise_cons] at hdistinct
  obtain ⟨-, ⟨hafter, -⟩, hbefore⟩ := hdistinct
  have hfound : h.entries[(Text.caseKey name, scope)]? = some (a.2, a.1.callback) :=
    hl.lookup.2 ⟨a, by simp, hkey, rfl, rfl⟩
  have hindex : l.entries.findIdx? (fun e => e.scope = scope && Text.sameName e.name name) =
      some (before.map Prod.fst).length := by
    rw [hl.entries, List.map_append, List.map_cons, List.findIdx?_append, List.findIdx?_cons,
      if_pos (sameEntry_iff.2 hkey), List.findIdx?_eq_none_iff.2]
    · simp
    · intro e he
      obtain ⟨r, hr, rfl⟩ := List.mem_map.1 he
      rw [Bool.eq_false_iff, ne_eq, sameEntry_iff, ← hkey]
      exact hbefore r hr a List.mem_cons_self
  have hothers : ((before ++ a :: after).map item).filter
      (fun x => ¬(Text.caseKey name, scope) == x.1) = before.map item ++ after.map item := by
    have hsame : ¬decide (¬((Text.caseKey name, scope) == (item a).1) = true) = true := by
      simp [item, hkey]
    rw [List.map_append, List.map_cons, List.filter_append, List.filter_cons, if_neg hsame,
      filter_others, filter_others]
    · intro r hr hr'
      exact hafter r hr (hkey.trans hr'.symm)
    · intro r hr hr'
      exact hbefore r hr a List.mem_cons_self (hr'.trans hkey.symm)
  refine ⟨?_, ?_, ?_, ?_⟩
  · rw [Linear.register, hindex, hl.entries, List.map_append, List.map_cons]
    simp [List.modify_eq_take_cons_drop, List.drop_append]
  · simp only [Hashed.register, hfound]
    refine Std.HashMap.toList_insert_perm.trans ?_
    refine ((hl.table.filter _).cons _).trans ?_
    rw [hothers, List.map_append, List.map_cons, ← hkey]
    exact List.perm_middle.symm
  · simpa using hl.rising
  · simp only [Hashed.register, hfound]
    simpa using hl.below

/-- A name that is new in its scope goes to the end. -/
theorem append {scope : Scope} {name : String} (hl : Listed rows l h)
    (hnew : ∀ r ∈ rows, r.1.key ≠ (Text.caseKey name, scope))
    (hnext : h.next.toNat + 1 < 2 ^ 64) (callback : κ) :
    Listed (rows ++ [(⟨name, scope, callback⟩, h.next)]) (l.register scope name callback)
      (h.register scope name callback) := by
  have hindex : l.entries.findIdx? (fun e => e.scope = scope && Text.sameName e.name name) =
      none := by
    rw [hl.entries, List.findIdx?_eq_none_iff]
    intro e he
    obtain ⟨r, hr, rfl⟩ := List.mem_map.1 he
    rw [Bool.eq_false_iff, ne_eq, sameEntry_iff]
    exact hnew r hr
  have hlt : h.next < h.next + 1 := by
    rw [UInt64.lt_iff_toNat_lt, UInt64.toNat_add, UInt64.toNat_one, Nat.mod_eq_of_lt hnext]
    exact Nat.lt_succ_self _
  refine ⟨?_, ?_, ?_, ?_⟩
  · rw [Linear.register, hindex, hl.entries, List.map_append]
    rfl
  · simp only [Hashed.register, hl.lookup_eq_none.2 hnew]
    refine Std.HashMap.toList_insert_perm.trans ?_
    refine ((hl.table.filter _).cons _).trans ?_
    rw [filter_others hnew, List.map_append]
    exact (List.perm_append_singleton _ _).symm
  · rw [List.map_append, List.pairwise_append]
    refine ⟨hl.rising, List.pairwise_singleton _ _, fun m hm n hn => ?_⟩
    rw [List.map_singleton, List.mem_singleton] at hn
    rw [hn]
    exact hl.below m hm
  · simp only [Hashed.register, hl.lookup_eq_none.2 hnew]
    intro n hn
    rw [List.map_append, List.mem_append] at hn
    rcases hn with hn | hn
    · exact UInt64.lt_trans (hl.below n hn) hlt
    · rw [List.map_singleton, List.mem_singleton] at hn
      rw [hn]
      exact hlt

/-- A registration keeps the list, unless it uses up the numbers. -/
theorem register (hl : Listed rows l h) (hnext : h.next.toNat + 1 < 2 ^ 64) (scope : Scope)
    (name : String) (callback : κ) :
    ∃ rows', Listed rows' (l.register scope name callback) (h.register scope name callback) := by
  by_cases hnew : ∀ r ∈ rows, r.1.key ≠ (Text.caseKey name, scope)
  · exact ⟨_, hl.append hnew hnext callback⟩
  · simp only [ne_eq, not_forall, not_not] at hnew
    obtain ⟨r, hr, hkey⟩ := hnew
    obtain ⟨before, after, rfl⟩ := List.append_of_mem hr
    exact ⟨_, hl.replace hkey callback⟩

end Listed

/-- A registration uses at most one number. -/
theorem Hashed.next_register_le {h : Hashed κ} (hnext : h.next.toNat + 1 < 2 ^ 64) (scope : Scope)
    (name : String) (callback : κ) :
    (h.register scope name callback).next.toNat ≤ h.next.toNat + 1 := by
  simp only [Hashed.register]
  split
  · exact Nat.le_succ _
  · have hone : (h.next + 1).toNat = h.next.toNat + 1 := by
      rw [UInt64.toNat_add, UInt64.toNat_one, Nat.mod_eq_of_lt hnext]
    exact Nat.le_of_eq hone

/-! ## Agreement -/

/-- A linear and a hashed registry hold the same, and at most so many numbers are used up. -/
inductive Agree (used : Nat) : Registry κ → Registry κ → Prop
  | listed {rows : List (Entry κ × UInt64)} {l : Linear κ} {h : Hashed κ} :
      Listed rows l h → h.next.toNat ≤ used → Agree used (.linear l) (.hashed h)

/-- How many numbers an operation uses up at most. -/
def Op.uses (op : Op κ) : Nat := if op.registers then 1 else 0

namespace Agree

variable {used : Nat} {r r' : Registry κ}

theorem size_eq (ha : Agree used r r') : r.size = r'.size := by
  cases ha with
  | listed hl _ => exact hl.size_eq

/-- An operation gives the same answer on both registries, and they agree afterwards. -/
theorem apply (ha : Agree used r r') (op : Op κ) (hused : used + op.uses < 2 ^ 64) :
    (r.apply op).1 = (r'.apply op).1 ∧
      Agree (used + op.uses) (r.apply op).2 (r'.apply op).2 := by
  cases ha with
  | @listed rows l h hl hnext =>
    cases op with
    | register scope name callback =>
      have hone : h.next.toNat + 1 ≤ used + 1 := Nat.succ_le_succ hnext
      have hlt : h.next.toNat + 1 < 2 ^ 64 := Nat.lt_of_le_of_lt hone hused
      obtain ⟨rows', hl'⟩ := hl.register hlt scope name callback
      have hnext' := Hashed.next_register_le hlt scope name callback
      exact ⟨rfl, .listed hl' (Nat.le_trans hnext' hone)⟩
    | resolve name id => exact ⟨hl.resolve?_eq name id, .listed hl hnext⟩
    | removeThread id => exact ⟨rfl, .listed (hl.removeThread id) hnext⟩
    | clear => exact ⟨rfl, .listed (.clear h) hnext⟩

theorem views_eq (ha : Agree used r r') {ops : List (Op κ)}
    (hused : used + ops.countP Op.registers < 2 ^ 64) : r.views ops = r'.views ops := by
  induction ops generalizing used r r' with
  | nil => rfl
  | cons op ops ih =>
    have hcount : used + op.uses + ops.countP Op.registers < 2 ^ 64 := by
      rw [List.countP_cons] at hused
      rw [Op.uses]
      omega
    obtain ⟨hanswer, hagree⟩ := ha.apply op (by omega)
    simp only [views, hanswer, isEmpty, hagree.size_eq, ih hagree hcount]

end Agree

/-- **The two forms of a registry are the same to their users.** Whatever is registered, looked up
and dropped, each step of the way both find the same callback or none, and both have the same
number of functions, as long as there are numbers for all registrations. -/
theorem linear_views_eq_hashed (ops : List (Op κ)) (hcount : ops.countP Op.registers < 2 ^ 64) :
    (empty .linear : Registry κ).views ops = (empty .hashed : Registry κ).views ops := by
  have hempty : Agree 0 (empty .linear : Registry κ) (empty .hashed) :=
    .listed .empty (Nat.le_refl 0)
  exact hempty.views_eq (by rwa [Nat.zero_add])

/-- A name that is registered for all threads and for one: the earlier registration is found, and
still is when its callback has been replaced. Registered afresh it comes last. -/
theorem hashed_views_shadowed :
    (empty .hashed : Registry Nat).views
        [.register .global "Print" 1, .register (.thread 0) "PRINT" 2, .resolve "print" 0,
          .register .global "prinT" 3, .resolve "PRint" 0, .removeThread 0,
          .register (.thread 0) "Print" 4, .resolve "print" 0, .resolve "print" 1, .clear] =
      [⟨none, 1, false⟩, ⟨none, 2, false⟩, ⟨some 1, 2, false⟩, ⟨none, 2, false⟩,
        ⟨some 3, 2, false⟩, ⟨none, 1, false⟩, ⟨none, 2, false⟩, ⟨some 3, 2, false⟩,
        ⟨some 3, 2, false⟩, ⟨none, 0, true⟩] := by
  rw [← linear_views_eq_hashed _ (by decide)]
  decide +kernel

end ScriptMachine.Registry
