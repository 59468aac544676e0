/-!
# Rounding a quotient

The one rounding rule of the library: to the nearest integer, and from halfway to the even
one. Decimal output and the reading of decimals both divide by it.
-/

namespace ScriptMachine

/-- The integer nearest to `num / den`; a quotient halfway between two goes to the even one. -/
def roundedQuotient (num den : Nat) : Nat :=
  let q := num / den
  let r := num % den
  if den < 2 * r ∨ (den = 2 * r ∧ q % 2 = 1) then q + 1 else q

@[simp] theorem roundedQuotient_one (n : Nat) : roundedQuotient n 1 = n := by
  simp [roundedQuotient, Nat.mod_one]

/-- Rounding moves a quotient by at most half a unit. -/
theorem roundedQuotient_bounds (num den : Nat) (h : 0 < den) :
    2 * num ≤ den * (2 * roundedQuotient num den + 1) ∧
      den * (2 * roundedQuotient num den) ≤ 2 * num + den := by
  have hr := Nat.mod_lt num h
  have hq := Nat.div_add_mod num den
  simp only [roundedQuotient]
  split <;> constructor <;> grind

end ScriptMachine
