/-!
# Names without regard to ASCII case

Function and host-call names are compared ignoring the case of the letters `a` to `z`;
every other character, accented letters included, has to agree exactly. A comparison goes by
the small letters, the key of a table by the capital ones, and the two agree.
-/

namespace ScriptMachine.Text

/-- The name with its ASCII letters in upper case: equal names have equal keys. -/
def caseKey (name : String) : String :=
  String.ofList (name.toList.map Char.toUpper)

/-- Whether two names agree up to the case of their ASCII letters. -/
def sameName (a b : String) : Bool :=
  a.toList.map Char.toLower == b.toList.map Char.toLower

theorem toNat_toLower (c : Char) :
    c.toLower.toNat = if 65 ≤ c.toNat ∧ c.toNat ≤ 90 then c.toNat + 32 else c.toNat := by
  unfold Char.toLower
  simp only [ge_iff_le, UInt32.le_iff_toNat_le, Char.toNat]
  split
  · rename_i h
    have h : 65 ≤ c.val.toNat ∧ c.val.toNat ≤ 90 := h
    have hsub : ('a'.val - 'A'.val).toNat = 32 := rfl
    rw [if_pos h, UInt32.toNat_add, hsub]
    omega
  · rename_i h
    exact (if_neg h).symm

theorem toNat_toUpper (c : Char) :
    c.toUpper.toNat = if 97 ≤ c.toNat ∧ c.toNat ≤ 122 then c.toNat - 32 else c.toNat := by
  unfold Char.toUpper
  simp only [UInt32.le_iff_toNat_le, Char.toNat]
  split
  · rename_i h
    have h : 97 ≤ c.val.toNat ∧ c.val.toNat ≤ 122 := h
    have hsub : ('A'.val - 'a'.val).toNat = 4294967264 := rfl
    rw [if_pos h, UInt32.toNat_add, hsub]
    omega
  · rename_i h
    exact (if_neg h).symm

theorem toLower_eq_iff {c d : Char} : c.toLower = d.toLower ↔ c.toUpper = d.toUpper := by
  rw [← Char.toNat_inj, ← Char.toNat_inj, toNat_toLower, toNat_toLower, toNat_toUpper,
    toNat_toUpper]
  split <;> split <;> split <;> split <;> omega

theorem map_toLower_eq_iff {a b : List Char} :
    a.map Char.toLower = b.map Char.toLower ↔ a.map Char.toUpper = b.map Char.toUpper := by
  induction a generalizing b with
  | nil => cases b <;> simp
  | cons c a ih =>
    cases b with
    | nil => simp
    | cons d b => simp only [List.map_cons, List.cons.injEq, toLower_eq_iff, ih]

theorem sameName_iff {a b : String} : sameName a b = true ↔ caseKey a = caseKey b := by
  rw [sameName, beq_iff_eq, caseKey, caseKey, String.ofList_inj, map_toLower_eq_iff]

end ScriptMachine.Text
