import Mathlib.Data.List.TakeWhile
import Mathlib.Data.Nat.Digits.Defs
import ScriptMachine.Value

/-!
# Texts as integers

A text is read as the integer numeral that it starts with. `IntegerParts` says, without a reader,
how a text is taken apart: white space, a sign if there is one, the digits up to the first character
that is none, and the rest.

The digits stand for a number of any size, and what is read is that number cut off at the ends of
the 32-bit range. A reader may as well cut it off after every digit (`saturatedValue_eq`), so that
it never deals with large numbers: what is beyond the range stays beyond it, whatever digits follow.
-/

namespace ScriptMachine.Text

/-! ## Runs, signs and digits -/

/-- A run of what has a property is the longest one if what follows does not begin with another. -/
theorem span_append {α : Type} {p : α → Bool} {run rest : List α} (hrun : ∀ x ∈ run, p x = true)
    (hrest : ∀ x ∈ rest.head?, p x = false) :
    (run ++ rest).takeWhile p = run ∧ (run ++ rest).dropWhile p = rest := by
  rw [List.takeWhile_append_of_pos hrun, List.dropWhile_append_of_pos hrun]
  cases rest with
  | nil => simp
  | cons x rest =>
    have hx : p x = false := hrest x rfl
    simp [hx]

theorem not_of_head?_dropWhile {α : Type} {p : α → Bool} {xs : List α} {x : α}
    (hx : x ∈ (xs.dropWhile p).head?) : p x = false := by
  have hhead := List.head?_dropWhile_not p xs
  rwa [Option.mem_def.1 hx] at hhead

/-- No sign, or one of the two. -/
def IsSign (sign : List Char) : Prop := sign = [] ∨ sign = ['+'] ∨ sign = ['-']

/-- A text that does not start with a sign. -/
def Unsigned (cs : List Char) : Prop := ∀ c ∈ cs.head?, c ≠ '+' ∧ c ≠ '-'

/-- A sign is taken off if there is one. -/
theorem splitSign_append {sign rest : List Char} (hsign : IsSign sign)
    (hrest : sign = [] → Unsigned rest) : splitSign (sign ++ rest) = (sign, rest) := by
  obtain rfl | rfl | rfl := hsign
  · cases rest with
    | nil => rfl
    | cons c rest =>
      obtain ⟨hplus, hminus⟩ := hrest rfl c rfl
      rw [List.nil_append, splitSign]
      · exact fun _ h => hplus (List.cons.inj h).1
      · exact fun _ h => hminus (List.cons.inj h).1
  · rfl
  · rfl

theorem exists_splitSign (cs : List Char) :
    ∃ sign rest, cs = sign ++ rest ∧ IsSign sign ∧ (sign = [] → Unsigned rest) := by
  by_cases hcs : Unsigned cs
  · exact ⟨[], cs, rfl, .inl rfl, fun _ => hcs⟩
  · obtain ⟨c, hc, hsign⟩ : ∃ c ∈ cs.head?, c = '+' ∨ c = '-' := by
      simpa only [Unsigned, not_forall, exists_prop, Classical.not_and_iff_not_or_not, not_not]
        using hcs
    obtain ⟨rest, rfl⟩ := List.head?_eq_some_iff.1 hc
    refine ⟨[c], rest, rfl, ?_, fun h => nomatch h⟩
    obtain rfl | rfl := hsign
    · exact .inr (.inl rfl)
    · exact .inr (.inr rfl)

theorem toNat_of_isDigit {c : Char} (h : c.isDigit = true) : 48 ≤ c.toNat ∧ c.toNat ≤ 57 := by
  simp only [Char.isDigit, Bool.and_eq_true, decide_eq_true_eq, ge_iff_le] at h
  exact h

theorem not_isBlank_of_isDigit {c : Char} (h : c.isDigit = true) : isBlank c = false := by
  have hc := toNat_of_isDigit h
  simp only [isBlank, blankRanges, List.any_cons, List.any_nil, Bool.or_eq_false_iff,
    Bool.and_eq_false_iff, decide_eq_false_iff_not, and_true]
  omega

theorem not_sign_of_isDigit {c : Char} (h : c.isDigit = true) : c ≠ '+' ∧ c ≠ '-' := by
  constructor
  · rintro rfl
    cases h
  · rintro rfl
    cases h

/-- The value of a run of digits, as a number in positional notation. -/
theorem digitsValue_eq_ofDigits (ds : List Char) :
    digitsValue ds = Nat.ofDigits 10 (ds.reverse.map digitValue) := by
  rw [digitsValue, joinDigits_eq, Nat.ofDigits_eq_foldr]
  rfl

/-! ## The 32-bit range -/

/-- A number cut off at the ends of the 32-bit range. -/
def cutOff (i : Int) : Int := max (-2 ^ 31) (min i (2 ^ 31 - 1))

theorem toInt_ofIntClamp (i : Int) : (Int32.ofIntClamp i).toInt = cutOff i := by
  have hmin : Int32.minValue.toInt = -2 ^ 31 := rfl
  have hmax : Int32.maxValue.toInt = 2 ^ 31 - 1 := rfl
  unfold Int32.ofIntClamp cutOff
  split
  · split
    · rw [Int32.toInt_ofIntLE]
      omega
    · omega
  · omega

/-- A number of the range is left as it is. -/
theorem cutOff_toInt (n : Int32) : cutOff n.toInt = n.toInt := by
  have hmin := n.le_toInt
  have hmax := n.toInt_lt
  unfold cutOff
  omega

/-- The value of a run of digits that is not let beyond a bound, after any of them. -/
def saturatedValue (bound : Nat) (ds : List Char) : Nat :=
  ds.foldl (fun n d => min (n * 10 + digitValue d) bound) 0

/-- It does not matter whether a value is cut off after every digit or at the end: once it is beyond
the bound, it stays there. -/
theorem saturatedValue_eq (bound : Nat) (ds : List Char) :
    saturatedValue bound ds = min (digitsValue ds) bound := by
  have hfold (n : Nat) : ds.foldl (fun n d => min (n * 10 + digitValue d) bound) (min n bound) =
      min (ds.foldl (fun n d => n * 10 + digitValue d) n) bound := by
    induction ds generalizing n with
    | nil => rfl
    | cons d ds ih =>
      have hstep : min (min n bound * 10 + digitValue d) bound =
          min (n * 10 + digitValue d) bound := by omega
      rw [List.foldl_cons, List.foldl_cons, hstep, ih]
  rw [saturatedValue, digitsValue_eq_foldl, ← hfold, Nat.zero_min]

/-- Neither end of the range is lost if values are cut off just behind the upper one. -/
theorem cutOff_signed_min (sign : List Char) (n : Nat) :
    cutOff (signed sign (min n (2 ^ 31))) = cutOff (signed sign n) := by
  unfold cutOff signed
  split <;> omega

/-! ## The integer at the start of a text -/

/-- The parts of a text that is read as an integer. -/
structure IntegerParts (cs blanks sign digits rest : List Char) : Prop where
  split : cs = blanks ++ (sign ++ (digits ++ rest))
  blank : ∀ c ∈ blanks, isBlank c = true
  trimmed : ∀ c ∈ (sign ++ (digits ++ rest)).head?, isBlank c = false
  isSign : IsSign sign
  unsigned : sign = [] → Unsigned (digits ++ rest)
  digit : ∀ c ∈ digits, c.isDigit = true
  maximal : ∀ c ∈ rest.head?, c.isDigit = false

theorem exists_integerParts (cs : List Char) :
    ∃ blanks sign digits rest, IntegerParts cs blanks sign digits rest := by
  obtain ⟨sign, rest, hsplit, hsign, hunsigned⟩ := exists_splitSign (dropBlanks cs)
  have hrest : rest.takeWhile Char.isDigit ++ rest.dropWhile Char.isDigit = rest :=
    List.takeWhile_append_dropWhile
  refine ⟨cs.takeWhile isBlank, sign, rest.takeWhile Char.isDigit, rest.dropWhile Char.isDigit, ?_,
    fun c hc => List.mem_takeWhile_imp hc, ?_, hsign, ?_, fun c hc => List.mem_takeWhile_imp hc,
    fun c hc => not_of_head?_dropWhile hc⟩
  · rw [hrest, ← hsplit]
    exact List.takeWhile_append_dropWhile.symm
  · rw [hrest, ← hsplit]
    exact fun c hc => not_of_head?_dropWhile hc
  · rwa [hrest]

/-- The reader finds the parts of a text. -/
theorem leadingInt_of_parts {s : String} {blanks sign digits rest : List Char}
    (h : IntegerParts s.toList blanks sign digits rest) :
    leadingInt s = Int32.ofIntClamp (signed sign (digitsValue digits)) := by
  have hblanks : dropBlanks s.toList = sign ++ (digits ++ rest) := by
    rw [h.split]
    exact (span_append h.blank h.trimmed).2
  have hdigits : (digits ++ rest).takeWhile Char.isDigit = digits :=
    (span_append h.digit h.maximal).1
  simp only [leadingInt, hblanks, splitSign_append h.isSign h.unsigned, splitDigits, hdigits]

/-! ## Integers as texts -/

/-- The digits of a number have it as their value. -/
theorem digitsValue_toDigits (n : Nat) : digitsValue (Nat.toDigits 10 n) = n := by
  have hvalue : Nat.ofDigitChars 10 (Nat.toDigits 10 n) 0 = n := Nat.ofDigitChars_ten_toDigits
  rw [Nat.ofDigitChars_eq_foldl] at hvalue
  simp only [Nat.mul_comm 10] at hvalue
  rw [digitsValue_eq_foldl]
  exact hvalue

/-- What is written before the digits of an integer. -/
def signOf (i : Int) : List Char := if i < 0 then ['-'] else []

theorem toList_toString (i : Int) :
    (toString i).toList = signOf i ++ Nat.toDigits 10 i.natAbs := by
  have hdigits (n : Nat) : (toString n).toList = Nat.toDigits 10 n := by
    rw [Nat.toString_eq_ofList_toDigits, String.toList_ofList]
  cases i with
  | ofNat n =>
    have hnonneg : ¬ Int.ofNat n < 0 := Int.not_lt.2 (Int.natCast_nonneg n)
    rw [signOf, if_neg hnonneg]
    exact hdigits n
  | negSucc n =>
    rw [signOf, if_pos (Int.negSucc_lt_zero n)]
    show ("-" ++ toString (n + 1)).toList = _
    rw [String.toList_append, hdigits]
    rfl

theorem signed_signOf (i : Int) : signed (signOf i) i.natAbs = i := by
  by_cases hi : i < 0
  · rw [signOf, if_pos hi, signed, if_pos rfl]
    omega
  · rw [signOf, if_neg hi, signed, if_neg (by decide)]
    omega

theorem isDigit_toDigits (n : Nat) : ∀ c ∈ Nat.toDigits 10 n, c.isDigit = true :=
  fun _ hc => Nat.isDigit_of_mem_toDigits (by decide) (by decide) hc

/-- An integer that is written is a numeral from end to end. -/
theorem integerParts_toString (i : Int) :
    IntegerParts (toString i).toList [] (signOf i) (Nat.toDigits 10 i.natAbs) [] where
  split := by rw [toList_toString, List.nil_append, List.append_nil]
  blank c hc := absurd hc List.not_mem_nil
  trimmed c hc := by
    have hmem := List.mem_of_mem_head? hc
    rw [List.append_nil, List.mem_append] at hmem
    obtain hsign | hdigit := hmem
    · unfold signOf at hsign
      split at hsign
      · rw [List.mem_singleton.1 hsign]
        rfl
      · cases hsign
    · exact not_isBlank_of_isDigit (isDigit_toDigits _ c hdigit)
  isSign := by
    unfold signOf
    split
    · exact .inr (.inr rfl)
    · exact .inl rfl
  unsigned _ c hc := by
    rw [List.append_nil] at hc
    exact not_sign_of_isDigit (isDigit_toDigits _ c (List.mem_of_mem_head? hc))
  digit := isDigit_toDigits _
  maximal c hc := nomatch hc

/-- **Texts are read as integers exactly.** Every text has the parts that it is read by. Without
digits it counts as zero; otherwise as the number that its digits stand for, with its sign, cut off
at the ends of the 32-bit range however many digits there are. The same comes out if a reader never
lets the number beyond `2 ^ 31`. An integer that is written as a text is read back. -/
theorem leadingInt_exact :
    (∀ s : String, ∃ blanks sign digits rest, IntegerParts s.toList blanks sign digits rest) ∧
    (∀ (s : String) (blanks sign digits rest : List Char),
      IntegerParts s.toList blanks sign digits rest →
        (digits = [] → leadingInt s = 0) ∧
        (leadingInt s).toInt =
          cutOff (signed sign (Nat.ofDigits 10 (digits.reverse.map digitValue))) ∧
        (leadingInt s).toInt = cutOff (signed sign (saturatedValue (2 ^ 31) digits))) ∧
    ∀ n : Int32, (Value.string (Value.int n).toText).toInt = n := by
  refine ⟨fun s => exists_integerParts _, fun s blanks sign digits rest h => ?_, fun n => ?_⟩
  · rw [leadingInt_of_parts h, toInt_ofIntClamp, saturatedValue_eq, cutOff_signed_min,
      digitsValue_eq_ofDigits]
    refine ⟨?_, rfl, rfl⟩
    rintro rfl
    obtain rfl | rfl | rfl := h.isSign <;> rfl
  · have hread : leadingInt (toString n.toInt) = n := by
      rw [leadingInt_of_parts (integerParts_toString n.toInt), digitsValue_toDigits, signed_signOf,
        ← Int32.toInt_inj, toInt_ofIntClamp, cutOff_toInt]
    exact hread

/-- More digits than an integer has room for, some of them zeros in front. -/
theorem leadingInt_exact_overlong :
    IntegerParts "\u3000 -00099999999999999999999.5".toList ['\u3000', ' '] ['-']
        "00099999999999999999999".toList ".5".toList ∧
      leadingInt "\u3000 -00099999999999999999999.5" = -2 ^ 31 := by
  have hparts : IntegerParts "\u3000 -00099999999999999999999.5".toList ['\u3000', ' '] ['-']
      "00099999999999999999999".toList ".5".toList :=
    { split := by decide
      blank := List.all_eq_true.1 (by decide)
      trimmed := by
        rintro c ⟨⟩
        decide
      isSign := .inr (.inr rfl)
      unsigned := fun h => nomatch h
      digit := List.all_eq_true.1 (by decide)
      maximal := by
        rintro c ⟨⟩
        decide }
  obtain ⟨-, hread, -⟩ := leadingInt_exact
  obtain ⟨-, hvalue, -⟩ := hread _ _ _ _ _ hparts
  refine ⟨hparts, Int32.toInt_inj.1 (hvalue.trans ?_)⟩
  decide

end ScriptMachine.Text
