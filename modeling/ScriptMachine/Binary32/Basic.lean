/-!
# Single-precision numbers

`Binary32` is an IEEE 754 single held as its 32 bits, so that a value read from a file and
written back keeps every bit, NaN payloads included. Arithmetic and comparison are those of
the standard; equality of two `Binary32` is equality of bits, and `sameNumber` is the
standard's equality, under which NaN differs from itself and the two zeros agree.
-/

namespace ScriptMachine

/-- A single-precision number as its bit pattern. -/
structure Binary32 where
  bits : UInt32
deriving DecidableEq, Repr, Inhabited

namespace Binary32

def zero : Binary32 := ⟨0⟩
def one : Binary32 := ⟨0x3f800000⟩

/-- The sign bit, set for negative numbers and for negative zero. -/
def isNegative (x : Binary32) : Bool := 0x80000000 ≤ x.bits

/-- The eight exponent bits. -/
def exponentField (x : Binary32) : Nat := x.bits.toNat / 0x800000 % 0x100

/-- The twenty-three fraction bits. -/
def fractionField (x : Binary32) : Nat := x.bits.toNat % 0x800000

def isNaN (x : Binary32) : Bool := x.exponentField = 255 && x.fractionField ≠ 0

def isInfinite (x : Binary32) : Bool := x.exponentField = 255 && x.fractionField = 0

/-- A finite number has the magnitude `significand * 2 ^ scale`. -/
def significand (x : Binary32) : Nat :=
  if x.exponentField = 0 then x.fractionField else x.fractionField + 0x800000

/-- A finite number has the magnitude `significand * 2 ^ scale`. -/
def scale (x : Binary32) : Int := (max x.exponentField 1 : Nat) - 150

/-- Infinity of either sign. -/
def infinity (negative : Bool) : Binary32 := ⟨if negative then 0xff800000 else 0x7f800000⟩

/-! ## Arithmetic and comparison -/

/-- The number as the machine's single. -/
def toFloat32 (x : Binary32) : Float32 := Float32.ofBits x.bits

/-- The bits of the machine's single. -/
def ofFloat32 (x : Float32) : Binary32 := ⟨x.toBits⟩

def add (x y : Binary32) : Binary32 := ofFloat32 (x.toFloat32 + y.toFloat32)
def sub (x y : Binary32) : Binary32 := ofFloat32 (x.toFloat32 - y.toFloat32)
def mul (x y : Binary32) : Binary32 := ofFloat32 (x.toFloat32 * y.toFloat32)
def div (x y : Binary32) : Binary32 := ofFloat32 (x.toFloat32 / y.toFloat32)
def pow (x y : Binary32) : Binary32 := ofFloat32 (x.toFloat32.pow y.toFloat32)

/-- Negation turns the sign bit and nothing else. -/
def neg (x : Binary32) : Binary32 := ⟨x.bits ^^^ 0x80000000⟩

/-- Equality of numbers: NaN differs from everything, and the two zeros agree. -/
def sameNumber (x y : Binary32) : Bool := x.toFloat32 == y.toFloat32

/-- The order of two numbers; a NaN is in no order with anything. -/
def order? (x y : Binary32) : Option Ordering :=
  if x.toFloat32 < y.toFloat32 then some .lt
  else if x.toFloat32 == y.toFloat32 then some .eq
  else if y.toFloat32 < x.toFloat32 then some .gt
  else none

/-! ## Integers -/

/-- The integer part, toward zero; what lies outside the 32-bit integers goes to the nearer
end of their range, and NaN to zero. -/
def toInt32 (x : Binary32) : Int32 :=
  if x.isNaN then 0
  else
    let magnitude :=
      if x.scale < 0 then x.significand >>> (-x.scale).toNat
      else x.significand <<< x.scale.toNat
    Int32.ofIntClamp (if x.isNegative then -(magnitude : Int) else magnitude)

end Binary32
end ScriptMachine
