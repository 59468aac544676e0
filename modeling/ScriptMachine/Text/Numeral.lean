import ScriptMachine.Binary32.Nearest
import ScriptMachine.Text.Blank

/-!
# Numerals at the start of a text

A text is taken for a number by the numeral it starts with, after white space. Whatever
follows the numeral is ignored, and a text that starts with none counts as zero.

An integer numeral is an optional sign and a run of decimal digits. A decimal numeral may
also have a point, with digits on at least one side of it, and an exponent, which counts
only if it has digits.
-/

namespace ScriptMachine.Text

/-- An optional sign at the start, and the rest. -/
def splitSign : List Char → List Char × List Char
  | '+' :: rest => (['+'], rest)
  | '-' :: rest => (['-'], rest)
  | rest => ([], rest)

/-- The run of ASCII digits at the start, and the rest. -/
def splitDigits (cs : List Char) : List Char × List Char :=
  (cs.takeWhile Char.isDigit, cs.dropWhile Char.isDigit)

/-- The value of a decimal digit. -/
def digitValue (d : Char) : Nat := d.toNat - '0'.toNat

/-- Join neighbouring digits of a number, the least significant first, to digits in the square
of the base, and put them behind those already joined, which are reversed. -/
def joinPairs (base : Nat) : List Nat → List Nat → List Nat
  | joined, low :: high :: rest => joinPairs base ((low + base * high) :: joined) rest
  | joined, rest => joined.reverse ++ rest

/-- The number with the given digits, the least significant first. A round halves the number
of digits, so that long numerals are read without adding them up digit by digit. -/
def joinDigits : Nat → Nat → List Nat → Nat
  | 0, base, ds => ds.foldr (fun d n => d + base * n) 0
  | _ + 1, _, [] => 0
  | _ + 1, _, [d] => d
  | rounds + 1, base, ds => joinDigits rounds (base * base) (joinPairs base [] ds)

/-- The value of a run of decimal digits. -/
def digitsValue (ds : List Char) : Nat :=
  joinDigits ds.length 10 (ds.reverse.map digitValue)

/-- Joining pairs keeps the value, which is read in the square of the base. -/
theorem foldr_joinPairs (base : Nat) (joined ds : List Nat) :
    (joinPairs base joined ds).foldr (fun d n => d + base * base * n) 0 =
      joined.reverse.foldr (fun d n => d + base * base * n)
        (ds.foldr (fun d n => d + base * n) 0) := by
  fun_induction joinPairs base joined ds with
  | case1 joined low high rest ih => simp [ih]; grind
  | case2 joined rest h =>
    match rest, h with
    | [], _ => simp
    | [d], _ => simp
    | low :: high :: rest, h => exact absurd rfl (h low high rest)

/-- Any number of rounds gives the same value. -/
theorem joinDigits_eq (rounds base : Nat) (ds : List Nat) :
    joinDigits rounds base ds = ds.foldr (fun d n => d + base * n) 0 := by
  fun_induction joinDigits rounds base ds with
  | case1 => rfl
  | case2 => rfl
  | case3 => simp
  | case4 rounds base ds _ _ ih => simp [ih, foldr_joinPairs]

/-- The value of a run of digits, added up digit by digit. -/
theorem digitsValue_eq_foldl (ds : List Char) :
    digitsValue ds = ds.foldl (fun n d => n * 10 + digitValue d) 0 := by
  rw [digitsValue, joinDigits_eq, List.foldr_map, List.foldr_reverse]
  simp only [Nat.mul_comm, Nat.add_comm]

/-- A value with the sign written before it. -/
def signed (sign : List Char) (n : Nat) : Int :=
  if sign = ['-'] then -n else n

/-- The integer numeral at the start of a text, cut off at the ends of the 32-bit range. A loop that
cuts the value off after every digit, and so never holds a large number, gives the same
(`saturatedValue_eq`). -/
def leadingInt (s : String) : Int32 :=
  let (sign, rest) := splitSign (dropBlanks s.toList)
  let (digits, _) := splitDigits rest
  Int32.ofIntClamp (signed sign (digitsValue digits))

/-- The parts of a decimal numeral, as they are written. -/
structure Decimal where
  sign : List Char
  whole : List Char
  point : List Char
  fraction : List Char
  exponentMark : List Char
  exponentSign : List Char
  exponentDigits : List Char
deriving DecidableEq, Repr

namespace Decimal

/-- The numeral as it is written. -/
def text (d : Decimal) : List Char :=
  d.sign ++ d.whole ++ d.point ++ d.fraction ++ d.exponentMark ++ d.exponentSign ++
    d.exponentDigits

/-- Whether there is a digit before or after the point. -/
def hasDigits (d : Decimal) : Bool :=
  !(d.whole.isEmpty && d.fraction.isEmpty)

/-- A point and the digits after it, if the text starts with a point. -/
def splitFraction : List Char → List Char × List Char × List Char
  | '.' :: rest =>
    let (digits, rest) := splitDigits rest
    (['.'], digits, rest)
  | rest => ([], [], rest)

/-- An exponent with at least one digit, if the text starts with one. -/
def splitExponent : List Char → List Char × List Char × List Char × List Char
  | [] => ([], [], [], [])
  | c :: rest =>
    if c = 'e' ∨ c = 'E' then
      let (sign, afterSign) := splitSign rest
      let (digits, afterDigits) := splitDigits afterSign
      if digits.isEmpty then ([], [], [], c :: rest) else ([c], sign, digits, afterDigits)
    else ([], [], [], c :: rest)

/-- The parts found at the start of a text, and the rest. -/
def scan (cs : List Char) : Decimal × List Char :=
  let (sign, rest) := splitSign cs
  let (whole, rest) := splitDigits rest
  let (point, fraction, rest) := splitFraction rest
  if whole.isEmpty && fraction.isEmpty then
    (⟨sign, whole, point, fraction, [], [], []⟩, rest)
  else
    let (mark, exponentSign, exponentDigits, rest) := splitExponent rest
    (⟨sign, whole, point, fraction, mark, exponentSign, exponentDigits⟩, rest)

/-- The decimal numeral a text starts with, as it is written. -/
def leading? (cs : List Char) : Option (List Char) :=
  let (d, _) := scan cs
  if d.hasDigits then some d.text else none

/-- Read a text that is a decimal numeral from end to end. -/
def read? (cs : List Char) : Option Decimal :=
  match scan cs with
  | (d, []) => if d.hasDigits then some d else none
  | _ => none

/-- The size of an exponent. Digits after it has reached 65536 do not count: such an exponent
makes zero or infinity of every numeral with fewer than some 65000 digits. -/
def exponentSize (ds : List Char) : Nat :=
  ds.foldl (fun n d => if n < 65536 then n * 10 + digitValue d else n) 0

/-- The number nearest to the numeral's value. -/
def value (d : Decimal) : Binary32 :=
  Binary32.ofDecimal (d.sign = ['-']) (digitsValue (d.whole ++ d.fraction))
    (signed d.exponentSign (exponentSize d.exponentDigits) - d.fraction.length)

end Decimal

/-- The number that the decimal numeral at the start of a text stands for, or zero. -/
def leadingFloat (s : String) : Binary32 :=
  match Decimal.leading? (dropBlanks s.toList) with
  | none => Binary32.zero
  | some numeral => ((Decimal.read? numeral).map Decimal.value).getD Binary32.zero

end ScriptMachine.Text
