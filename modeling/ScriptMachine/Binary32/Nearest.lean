import ScriptMachine.Binary32.Basic
import ScriptMachine.Rounding

/-!
# The nearest single

Rounding of an exact quotient, of a decimal and of an integer to the nearest single, from
halfway to the one with an even significand, and to infinity from the last number on.
-/

namespace ScriptMachine.Binary32

/-- The exponent of the leading binary digit of `num / den`, for positive `num` and `den`. -/
def leadingExponent (num den : Nat) : Int :=
  let l : Int := (num.log2 : Int) - den.log2
  if 0 ≤ l then
    if den <<< l.toNat ≤ num then l else l - 1
  else if den ≤ num <<< (-l).toNat then l else l - 1

/-- The number nearest to `num / den`, with the given sign. The significand is the quotient
on the grid of the leading digit's binade, or on the grid of the subnormal numbers; a
significand that rounds up to the next power of two carries into the exponent bits. -/
def nearest (negative : Bool) (num den : Nat) : Binary32 :=
  let magnitude : Nat :=
    if num = 0 then 0
    else
      let e := max (leadingExponent num den - 23) (-149)
      let significand :=
        if 0 ≤ e then roundedQuotient num (den <<< e.toNat)
        else roundedQuotient (num <<< (-e).toNat) den
      min (((e + 149).toNat <<< 23) + significand) 0x7f800000
  ⟨UInt32.ofNat (if negative then 0x80000000 + magnitude else magnitude)⟩

/-- The number nearest to an integer. -/
def ofInt (n : Int) : Binary32 := nearest (n < 0) n.natAbs 1

/-- The number nearest to `digits * 10 ^ exponent`. Powers of ten far outside the range of
the format are not computed: they give infinity or zero. -/
def ofDecimal (negative : Bool) (digits : Nat) (exponent : Int) : Binary32 :=
  if digits = 0 then nearest negative 0 1
  else if 40 < exponent then infinity negative
  else if 0 ≤ exponent then nearest negative (digits * Nat.pow 10 exponent.toNat) 1
  else if exponent < -(digits.log2 + 51 : Int) then nearest negative 0 1
  else nearest negative digits (Nat.pow 10 (-exponent).toNat)

end ScriptMachine.Binary32
