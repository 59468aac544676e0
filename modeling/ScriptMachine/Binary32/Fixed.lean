import ScriptMachine.Binary32.Basic
import ScriptMachine.Rounding

/-!
# Fixed decimal places

The text of a number with a fixed count of decimal places, computed from the exact value:
the last place is the nearest one, and from halfway the even one.
-/

namespace ScriptMachine

/-- A natural number in decimal, filled up with zeros to a width. -/
def paddedDecimal (width n : Nat) : List Char :=
  let digits := Nat.toDigits 10 n
  List.replicate (width - digits.length) '0' ++ digits

namespace Binary32

/-- The magnitude of a finite number counted in units of the last of `places` decimals. -/
def unitsOfLastPlace (places : Nat) (x : Binary32) : Nat :=
  if x.scale < 0 then roundedQuotient (x.significand * Nat.pow 10 places) (1 <<< (-x.scale).toNat)
  else (x.significand <<< x.scale.toNat) * Nat.pow 10 places

/-- The number with `places` decimals. The sign is written for every number whose sign bit
is set, even if all its digits are zero, and never for NaN. -/
def fixed (places : Nat) (x : Binary32) : String :=
  if x.isNaN then "NaN"
  else
    let magnitude : List Char :=
      if x.isInfinite then ['i', 'n', 'f']
      else
        let units := x.unitsOfLastPlace places
        let one := Nat.pow 10 places
        Nat.toDigits 10 (units / one) ++ '.' :: paddedDecimal places (units % one)
    String.ofList (if x.isNegative then '-' :: magnitude else magnitude)

end Binary32
end ScriptMachine
