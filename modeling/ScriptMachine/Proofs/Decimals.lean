import ScriptMachine.Proofs.Integers

/-!
# Texts as decimal numbers

A text is read as the decimal numeral that it starts with. `IsDecimal` says which texts are
numerals, and the scanner finds the longest one that a text starts with (`leading?_eq_some_iff`): it
goes on past every numeral (`exists_leading?_append`), so a mark without an exponent, or a point
without digits, does not keep it from what stands before.

All characters of a numeral are ASCII. So nothing is different if the scanner looks at the bytes of
the text instead (`leading?_bytewise`), and it stops between two characters.
-/

namespace ScriptMachine.Text

/-! ## Numerals -/

/-- A run of digits, possibly none. -/
def IsDigits (ds : List Char) : Prop := ∀ c ∈ ds, c.isDigit = true

/-- What stands before the exponent: digits, which a point may follow or stand among; or digits
behind a point. -/
inductive IsMantissa : List Char → Prop
  | whole {ds : List Char} : ds ≠ [] → IsDigits ds → IsMantissa ds
  | point {ds fs : List Char} : ds ≠ [] → IsDigits ds → IsDigits fs → IsMantissa (ds ++ '.' :: fs)
  | fraction {fs : List Char} : fs ≠ [] → IsDigits fs → IsMantissa ('.' :: fs)

/-- An exponent, or nothing. -/
inductive IsExponent : List Char → Prop
  | absent : IsExponent []
  | present {mark : Char} {sign ds : List Char} : mark = 'e' ∨ mark = 'E' → IsSign sign → ds ≠ [] →
      IsDigits ds → IsExponent (mark :: (sign ++ ds))

/-- A decimal numeral. -/
inductive IsDecimal : List Char → Prop
  | mk {sign mantissa exponent : List Char} : IsSign sign → IsMantissa mantissa →
      IsExponent exponent → IsDecimal (sign ++ mantissa ++ exponent)

/-- The longest of the texts of a kind that a text starts with. -/
structure Longest (IsOne : List Char → Prop) (cs p : List Char) : Prop where
  isOne : IsOne p
  starts : p <+: cs
  longest : ∀ q, q <+: cs → IsOne q → q.length ≤ p.length

variable {cs ds p q rest : List Char}

/-- A mantissa without a point, or one with a point and digits somewhere. -/
theorem IsMantissa.cases_point (h : IsMantissa p) :
    (p ≠ [] ∧ IsDigits p) ∨
      ∃ ds fs, p = ds ++ '.' :: fs ∧ IsDigits ds ∧ IsDigits fs ∧ ¬ (ds = [] ∧ fs = []) := by
  cases h with
  | whole hne hds => exact .inl ⟨hne, hds⟩
  | @point ds fs hne hds hfs => exact .inr ⟨ds, fs, rfl, hds, hfs, fun h => hne h.1⟩
  | @fraction fs hne hfs =>
    exact .inr ⟨[], fs, rfl, List.forall_mem_nil _, hfs, fun h => hne h.2⟩

theorem unsigned_append (hds : IsDigits ds) (hne : ds ≠ []) (rest : List Char) :
    Unsigned (ds ++ rest) := by
  obtain ⟨d, ds, rfl⟩ := List.exists_cons_of_ne_nil hne
  rintro c ⟨⟩
  exact not_sign_of_isDigit (hds d List.mem_cons_self)

theorem IsMantissa.unsigned (h : IsMantissa p) (rest : List Char) : Unsigned (p ++ rest) := by
  cases h with
  | whole hne hds => exact unsigned_append hds hne rest
  | point hne hds _ =>
    rw [List.append_assoc]
    exact unsigned_append hds hne _
  | fraction =>
    rintro c ⟨⟩
    decide

theorem IsSign.ascii (h : IsSign p) : ∀ c ∈ p, c.toNat < 0x80 := by
  obtain rfl | rfl | rfl := h
  · exact List.forall_mem_nil _
  · exact List.forall_mem_singleton.2 (by decide)
  · exact List.forall_mem_singleton.2 (by decide)

theorem IsDigits.ascii (h : IsDigits ds) : ∀ c ∈ ds, c.toNat < 0x80 := by
  intro c hc
  have hc := toNat_of_isDigit (h c hc)
  omega

theorem IsMantissa.ascii (h : IsMantissa p) : ∀ c ∈ p, c.toNat < 0x80 := by
  have hdot {fs : List Char} (hfs : IsDigits fs) : ∀ c ∈ '.' :: fs, c.toNat < 0x80 :=
    List.forall_mem_cons.2 ⟨by decide, hfs.ascii⟩
  cases h with
  | whole _ hds => exact hds.ascii
  | point _ hds hfs => exact List.forall_mem_append.2 ⟨hds.ascii, hdot hfs⟩
  | fraction _ hfs => exact hdot hfs

theorem IsExponent.ascii (h : IsExponent p) : ∀ c ∈ p, c.toNat < 0x80 := by
  cases h with
  | absent => exact List.forall_mem_nil _
  | @present mark sign ds hmark hsign _ hds =>
    have hc : mark.toNat < 0x80 := by obtain rfl | rfl := hmark <;> decide
    exact List.forall_mem_cons.2 ⟨hc, List.forall_mem_append.2 ⟨hsign.ascii, hds.ascii⟩⟩

theorem IsDecimal.ascii (h : IsDecimal p) : ∀ c ∈ p, c.toNat < 0x80 := by
  obtain ⟨hsign, hm, hx⟩ := h
  exact List.forall_mem_append.2 ⟨List.forall_mem_append.2 ⟨hsign.ascii, hm.ascii⟩, hx.ascii⟩

namespace Decimal

/-! ## Parts of a text -/

theorem splitDigits_append (hds : IsDigits ds) (rest : List Char) :
    splitDigits (ds ++ rest) = (ds ++ (splitDigits rest).1, (splitDigits rest).2) := by
  rw [splitDigits, List.takeWhile_append_of_pos hds, List.dropWhile_append_of_pos hds, splitDigits]

theorem splitDigits_fst_append_snd (cs : List Char) :
    (splitDigits cs).1 ++ (splitDigits cs).2 = cs :=
  List.takeWhile_append_dropWhile

theorem isDigits_splitDigits (cs : List Char) : IsDigits (splitDigits cs).1 :=
  fun _ hc => List.mem_takeWhile_imp hc

/-- No digits are found before a character that is none. -/
theorem splitDigits_cons {c : Char} (hc : c.isDigit = false) (rest : List Char) :
    splitDigits (c :: rest) = ([], c :: rest) := by
  have hnot : ¬ c.isDigit = true := by simp [hc]
  rw [splitDigits, List.takeWhile_cons_of_neg hnot, List.dropWhile_cons_of_neg hnot]

/-- What is found at a point: the point and digits, or nothing. -/
theorem exists_splitFraction (cs : List Char) :
    ∃ point fraction rest, splitFraction cs = (point, fraction, rest) ∧
      cs = point ++ fraction ++ rest ∧ IsDigits fraction ∧
      (point = ['.'] ∨ point = [] ∧ fraction = []) := by
  fun_cases splitFraction cs with
  | case1 cs ds rest hds =>
    refine ⟨['.'], ds, rest, rfl, ?_, ?_, .inl rfl⟩
    · have hsplit := splitDigits_fst_append_snd cs
      rw [hds] at hsplit
      rw [← hsplit, List.singleton_append, List.cons_append]
    · have hdigits := isDigits_splitDigits cs
      rwa [hds] at hdigits
  | case2 =>
    exact ⟨[], [], cs, rfl, rfl, List.forall_mem_nil _, .inr ⟨rfl, rfl⟩⟩

/-- What stands before an exponent: digits, a point, digits, and the rest. -/
def splitMantissa (cs : List Char) : List Char × List Char × List Char × List Char :=
  let (whole, rest) := splitDigits cs
  let (point, fraction, rest) := splitFraction rest
  (whole, point, fraction, rest)

theorem exists_splitMantissa (cs : List Char) :
    ∃ whole point fraction rest, splitMantissa cs = (whole, point, fraction, rest) ∧
      cs = whole ++ point ++ fraction ++ rest ∧
      (¬ (whole = [] ∧ fraction = []) → IsMantissa (whole ++ point ++ fraction)) := by
  obtain ⟨point, fraction, rest, hfound, hrest, hdigits, hpoint⟩ :=
    exists_splitFraction (splitDigits cs).2
  have hcs := splitDigits_fst_append_snd cs
  have hwhole := isDigits_splitDigits cs
  refine ⟨(splitDigits cs).1, point, fraction, rest, ?_, ?_, ?_⟩
  · simp only [splitMantissa, hfound]
  · rw [hrest] at hcs
    simpa only [List.append_assoc] using hcs.symm
  · generalize (splitDigits cs).1 = whole at hwhole
    intro hsome
    obtain rfl | ⟨rfl, rfl⟩ := hpoint
    · rw [List.append_assoc, List.singleton_append]
      cases whole with
      | nil => exact .fraction (fun h => hsome ⟨rfl, h⟩) hdigits
      | cons c whole => exact .point (List.cons_ne_nil _ _) hwhole hdigits
    · rw [List.append_nil, List.append_nil]
      exact .whole (fun h => hsome ⟨h, rfl⟩) hwhole

/-- The reader goes on past a mantissa, but not past a mark. -/
theorem exists_splitMantissa_append (h : IsMantissa p) (rest : List Char) :
    ∃ whole point fraction more behind,
      splitMantissa (p ++ rest) = (whole, point, fraction, behind) ∧
      whole ++ point ++ fraction = p ++ more ∧ rest = more ++ behind ∧
      ¬ (whole = [] ∧ fraction = []) ∧
      (∀ c ∈ rest.head?, c = 'e' ∨ c = 'E' → more = []) := by
  have hmark {c : Char} (hc : c = 'e' ∨ c = 'E') : c.isDigit = false ∧ c ≠ '.' := by
    obtain rfl | rfl := hc <;> decide
  obtain ⟨hne, hp⟩ | ⟨ds, fs, rfl, hds, hfs, hne⟩ := h.cases_point
  · obtain ⟨point, fraction, behind, hfound, hrest, -, hpoint⟩ :=
      exists_splitFraction (splitDigits rest).2
    refine ⟨p ++ (splitDigits rest).1, point, fraction,
      (splitDigits rest).1 ++ point ++ fraction, behind, ?_, ?_, ?_, ?_, ?_⟩
    · simp only [splitMantissa, splitDigits_append hp, hfound]
    · simp only [List.append_assoc]
    · rw [List.append_assoc, List.append_assoc, ← List.append_assoc point, ← hrest,
        splitDigits_fst_append_snd]
    · exact fun h => hne (List.append_eq_nil_iff.1 h.1).1
    · intro c hc hce
      obtain ⟨rest, rfl⟩ := List.head?_eq_some_iff.1 hc
      obtain ⟨hdigit, hdot⟩ := hmark hce
      rw [splitDigits_cons hdigit] at hrest ⊢
      obtain rfl | ⟨rfl, rfl⟩ := hpoint
      · exact absurd (List.cons.inj hrest).1 hdot
      · rfl
  · refine ⟨ds, ['.'], fs ++ (splitDigits rest).1, (splitDigits rest).1, (splitDigits rest).2,
      ?_, ?_, (splitDigits_fst_append_snd rest).symm, ?_, ?_⟩
    · have hdot : splitDigits ('.' :: (fs ++ rest)) = ([], '.' :: (fs ++ rest)) :=
        splitDigits_cons rfl _
      simp only [splitMantissa, List.append_assoc, List.cons_append, splitDigits_append hds, hdot,
        List.append_nil, splitFraction, splitDigits_append hfs]
    · simp only [List.append_assoc, List.cons_append, List.nil_append]
    · exact fun h => hne ⟨h.1, (List.append_eq_nil_iff.1 h.2).1⟩
    · intro c hc hce
      obtain ⟨rest, rfl⟩ := List.head?_eq_some_iff.1 hc
      rw [splitDigits_cons (hmark hce).1]

theorem exists_splitExponent (cs : List Char) :
    ∃ mark sign digits rest, splitExponent cs = (mark, sign, digits, rest) ∧
      cs = mark ++ sign ++ digits ++ rest ∧ IsExponent (mark ++ sign ++ digits) := by
  fun_cases splitExponent cs with
  | case1 => exact ⟨[], [], [], [], rfl, rfl, .absent⟩
  | case2 c rest hc sign afterSign hsign digits afterDigits hdigits hempty =>
    exact ⟨[], [], [], c :: rest, rfl, rfl, .absent⟩
  | case3 c rest hc sign afterSign hsign digits afterDigits hdigits hempty =>
    obtain ⟨s, behind, rfl, hs, hunsigned⟩ := exists_splitSign rest
    have hfound := splitSign_append hs hunsigned
    rw [hsign] at hfound
    obtain ⟨rfl, rfl⟩ := Prod.mk.inj hfound
    have hsplit := splitDigits_fst_append_snd afterSign
    have hds := isDigits_splitDigits afterSign
    rw [hdigits] at hsplit hds
    refine ⟨[c], sign, digits, afterDigits, rfl, ?_, ?_⟩
    · rw [← hsplit]
      simp only [List.append_assoc, List.cons_append, List.nil_append]
    · rw [List.append_assoc, List.singleton_append]
      exact .present hc hs (fun h => hempty (by rw [h]; rfl)) hds
  | case4 c rest hc => exact ⟨[], [], [], c :: rest, rfl, rfl, .absent⟩

/-- The reader goes on past an exponent. -/
theorem splitExponent_append {mark : Char} {sign : List Char} (hmark : mark = 'e' ∨ mark = 'E')
    (hsign : IsSign sign) (hne : ds ≠ []) (hds : IsDigits ds) (rest : List Char) :
    splitExponent (mark :: (sign ++ ds) ++ rest) =
      ([mark], sign, ds ++ (splitDigits rest).1, (splitDigits rest).2) := by
  have hsome : (ds ++ (splitDigits rest).1).isEmpty = false := by simp [hne]
  rw [List.cons_append, List.append_assoc, splitExponent, if_pos hmark,
    splitSign_append hsign fun _ => unsigned_append hds hne rest]
  dsimp only
  rw [splitDigits_append hds]
  dsimp only
  rw [hsome, if_neg Bool.false_ne_true]

/-- So it does behind a mantissa, which has not been read any further if a mark follows it. -/
theorem exists_splitExponent_behind {more behind : List Char} (h : IsExponent p)
    (hbehind : p ++ rest = more ++ behind)
    (hmark : ∀ c ∈ (p ++ rest).head?, c = 'e' ∨ c = 'E' → more = []) :
    ∃ mark sign digits further after, splitExponent behind = (mark, sign, digits, after) ∧
      more ++ (mark ++ sign ++ digits) = p ++ further := by
  cases h with
  | absent =>
    obtain ⟨mark, sign, digits, after, hfound, -, -⟩ := exists_splitExponent behind
    exact ⟨mark, sign, digits, _, after, hfound, rfl⟩
  | @present c sign ds hc hsign hne hds =>
    obtain rfl := hmark c rfl hc
    rw [List.nil_append] at hbehind
    refine ⟨[c], sign, ds ++ (splitDigits rest).1, (splitDigits rest).1, (splitDigits rest).2,
      hbehind ▸ splitExponent_append hc hsign hne hds rest, ?_⟩
    simp only [List.append_assoc, List.cons_append, List.nil_append]

/-! ## The scanner -/

theorem scan_eq (cs : List Char) :
    scan cs =
      let (sign, rest) := splitSign cs
      let (whole, point, fraction, rest) := splitMantissa rest
      if whole.isEmpty && fraction.isEmpty then (⟨sign, whole, point, fraction, [], [], []⟩, rest)
      else
        let (mark, exponentSign, exponentDigits, rest) := splitExponent rest
        (⟨sign, whole, point, fraction, mark, exponentSign, exponentDigits⟩, rest) :=
  rfl

theorem exists_scan (cs : List Char) :
    ∃ d rest, scan cs = (d, rest) ∧ cs = d.text ++ rest ∧
      (d.hasDigits = true → IsDecimal d.text) := by
  obtain ⟨sign, cs, rfl, hsign, hunsigned⟩ := exists_splitSign cs
  obtain ⟨whole, point, fraction, rest, hmantissa, rfl, hm⟩ := exists_splitMantissa cs
  obtain ⟨mark, exponentSign, digits, rest, hexponent, rfl, hx⟩ := exists_splitExponent rest
  rw [scan_eq, splitSign_append hsign hunsigned]
  dsimp only
  rw [hmantissa, hexponent]
  dsimp only
  split
  · rename_i hempty
    refine ⟨_, _, rfl, ?_, fun hdigits => ?_⟩
    · simp only [text, List.append_assoc, List.append_nil]
    · rw [hasDigits, hempty] at hdigits
      cases hdigits
  · rename_i hsome
    refine ⟨_, _, rfl, ?_, fun _ => ?_⟩
    · simp only [text, List.append_assoc]
    · have hparts := IsDecimal.mk hsign (hm (by simpa using hsome)) hx
      simpa only [text, List.append_assoc] using hparts

/-- The reader goes on past a numeral. -/
theorem exists_leading?_append (h : IsDecimal p) (rest : List Char) :
    ∃ more, leading? (p ++ rest) = some (p ++ more) := by
  obtain @⟨sign, m, x, hsign, hm, hx⟩ := h
  obtain ⟨whole, point, fraction, more, behind, hmantissa, hwhole, hbehind, hne, hmark⟩ :=
    exists_splitMantissa_append hm (x ++ rest)
  obtain ⟨mark, exponentSign, digits, further, after, hexponent, hfurther⟩ :=
    exists_splitExponent_behind hx hbehind hmark
  have hsome : (whole.isEmpty && fraction.isEmpty) = false := by
    simpa [Bool.eq_false_iff] using hne
  refine ⟨further, ?_⟩
  rw [List.append_assoc, List.append_assoc, leading?, scan_eq,
    splitSign_append hsign fun _ => hm.unsigned _]
  dsimp only
  rw [hmantissa, hexponent]
  dsimp only
  rw [hsome]
  simp only [Bool.false_eq_true, if_false, hasDigits, hsome, Bool.not_false, if_true, text,
    Option.some.injEq, List.append_assoc]
  rw [← List.append_assoc whole, ← List.append_assoc (whole ++ point), hwhole]
  simp only [List.append_assoc] at hfurther ⊢
  rw [hfurther]

/-! ## The longest numeral -/

theorem longest_of_leading? (h : leading? cs = some p) : Longest IsDecimal cs p := by
  obtain ⟨d, rest, hscan, hcs, hdecimal⟩ := exists_scan cs
  have hfound := h
  simp only [leading?, hscan, Option.ite_none_right_eq_some, Option.some.injEq] at hfound
  obtain ⟨hdigits, rfl⟩ := hfound
  refine ⟨hdecimal hdigits, ⟨rest, hcs.symm⟩, ?_⟩
  rintro q ⟨rest, rfl⟩ hq
  obtain ⟨more, hmore⟩ := exists_leading?_append hq rest
  rw [Option.some.inj (h.symm.trans hmore), List.length_append]
  exact Nat.le_add_right _ _

/-- **The scanner finds the longest numeral** that a text starts with. -/
theorem leading?_eq_some_iff : leading? cs = some p ↔ Longest IsDecimal cs p := by
  refine ⟨longest_of_leading?, fun h => ?_⟩
  obtain ⟨rest, rfl⟩ := h.starts
  obtain ⟨more, hmore⟩ := exists_leading?_append h.isOne rest
  have hfound := longest_of_leading? hmore
  have hlength := h.longest _ hfound.starts hfound.isOne
  rw [List.length_append] at hlength
  obtain rfl : more = [] := List.length_eq_zero_iff.1 (by omega)
  rwa [List.append_nil] at hmore

theorem leading?_eq_none_iff : leading? cs = none ↔ ∀ q, q <+: cs → ¬ IsDecimal q := by
  constructor
  · rintro hnone q ⟨rest, rfl⟩ hq
    obtain ⟨more, hmore⟩ := exists_leading?_append hq rest
    rw [hnone] at hmore
    cases hmore
  · intro h
    rw [Option.eq_none_iff_forall_not_mem]
    intro p hp
    have hfound := longest_of_leading? hp
    exact h p hfound.starts hfound.isOne

/-- A numeral is read from end to end. -/
theorem exists_read? (h : IsDecimal p) : ∃ d, read? p = some d ∧ d.text = p := by
  obtain ⟨d, rest, hscan, hp, -⟩ := exists_scan p
  obtain ⟨more, hmore⟩ := exists_leading?_append h []
  simp only [List.append_nil, leading?, hscan, Option.ite_none_right_eq_some,
    Option.some.injEq] at hmore
  obtain ⟨hdigits, htext⟩ := hmore
  have hlength := congrArg List.length hp
  simp only [htext, List.length_append] at hlength
  obtain rfl : rest = [] := List.length_eq_zero_iff.1 (by omega)
  refine ⟨d, ?_, ?_⟩
  · simp only [read?, hscan, hdigits, if_true]
  · rw [hp, List.append_nil]

/-! ## The bytes of a text -/

/-- The bytes of a text, each taken for the character with its number. -/
def bytewise (cs : List Char) : List Char :=
  cs.flatMap fun c => (String.utf8EncodeChar c).map fun b => Char.ofNat b.toNat

theorem toNat_ofNat_byte {n : Nat} (h : n < 0x100) :
    (Char.ofNat (UInt8.ofNat n).toNat).toNat = n := by
  have hbyte : (UInt8.ofNat n).toNat = n := UInt8.toNat_ofNat_of_lt h
  rw [hbyte, Char.ofNat, dif_pos (Or.inl (by omega))]
  rfl

/-- An ASCII character is its own byte, and the bytes of any other start with one that is not ASCII.
-/
theorem bytewise_cons (c : Char) (cs : List Char) :
    (c.toNat < 0x80 ∧ bytewise (c :: cs) = c :: bytewise cs) ∨
      ∃ b bs, 0x80 ≤ c.toNat ∧ 0x80 ≤ b.toNat ∧ bytewise (c :: cs) = b :: bs := by
  rw [bytewise, List.flatMap_cons, ← bytewise]
  by_cases hc : c.toNat < 0x80
  · have hone : c.val.toNat ≤ 0x7f := Nat.le_of_lt_succ hc
    have hbyte : (UInt8.ofNat c.val.toNat).toNat = c.toNat :=
      UInt8.toNat_ofNat_of_lt (Nat.lt_trans hc (by decide))
    refine .inl ⟨hc, ?_⟩
    simp only [String.utf8EncodeChar, if_pos hone, List.map_cons, List.map_nil, hbyte,
      Char.ofNat_toNat, List.singleton_append]
  · obtain ⟨n, bs, hlow, hhigh, hbytes⟩ : ∃ n bs, 0x80 ≤ n ∧ n < 0x100 ∧
        String.utf8EncodeChar c = UInt8.ofNat n :: bs := by
      have hmore : ¬ c.val.toNat ≤ 0x7f := fun hle => hc (Nat.lt_succ_of_le hle)
      simp only [String.utf8EncodeChar, if_neg hmore]
      split_ifs
      · exact ⟨_, _, by omega, by omega, rfl⟩
      · exact ⟨_, _, by omega, by omega, rfl⟩
      · exact ⟨_, _, by omega, by omega, rfl⟩
    rw [hbytes, List.map_cons, List.cons_append]
    exact .inr ⟨_, _, Nat.le_of_not_lt hc, by rwa [toNat_ofNat_byte hhigh], rfl⟩

theorem bytewise_eq_self (hp : ∀ c ∈ p, c.toNat < 0x80) : bytewise p = p := by
  induction p with
  | nil => rfl
  | cons c p ih =>
    obtain ⟨hc, hp⟩ := List.forall_mem_cons.1 hp
    obtain ⟨-, hcons⟩ | ⟨b, bs, hwide, -⟩ := bytewise_cons c p
    · rw [hcons, ih hp]
    · omega

/-- A text starts with an ASCII text if its bytes do. -/
theorem isPrefix_bytewise_iff (hp : ∀ c ∈ p, c.toNat < 0x80) : p <+: bytewise cs ↔ p <+: cs := by
  induction p generalizing cs with
  | nil => simp
  | cons c p ih =>
    obtain ⟨hc, hp⟩ := List.forall_mem_cons.1 hp
    cases cs with
    | nil => rfl
    | cons d cs =>
      obtain ⟨-, hcons⟩ | ⟨b, bs, hd, hb, hcons⟩ := bytewise_cons d cs
      · rw [hcons, List.cons_prefix_cons, List.cons_prefix_cons, ih hp]
      · have hcd : c ≠ d := by
          rintro rfl
          omega
        have hcb : c ≠ b := by
          rintro rfl
          omega
        rw [hcons, List.cons_prefix_cons, List.cons_prefix_cons]
        exact iff_of_false (fun h => hcb h.1) (fun h => hcd h.1)

/-- The scanner finds the same numeral in the bytes of a text. -/
theorem leading?_bytewise (cs : List Char) :
    leading? (bytewise cs) = (leading? cs).map bytewise := by
  cases hfound : leading? cs with
  | none =>
    rw [Option.map_none, leading?_eq_none_iff]
    exact fun q hq h =>
      leading?_eq_none_iff.1 hfound q ((isPrefix_bytewise_iff h.ascii).1 hq) h
  | some p =>
    obtain ⟨hp, hstarts, hlongest⟩ := leading?_eq_some_iff.1 hfound
    rw [Option.map_some, bytewise_eq_self hp.ascii, leading?_eq_some_iff]
    exact ⟨hp, (isPrefix_bytewise_iff hp.ascii).2 hstarts,
      fun q hq h => hlongest q ((isPrefix_bytewise_iff h.ascii).1 hq) h⟩

end Decimal

/-- **Texts are read as the longest numerals they start with.** White space in front is left out. If
the rest starts with a numeral, the scanner finds the longest one; it finds the same in the bytes of
the text, so the numeral ends between two characters; and the numeral can be read, so zero is never
put in place of one that was found. If the rest starts with no numeral, nothing is read and the text
counts as zero. -/
theorem leadingFloat_longest (s : String) :
    ∃ blanks cs, s.toList = blanks ++ cs ∧ (∀ c ∈ blanks, isBlank c = true) ∧
      (∀ c ∈ cs.head?, isBlank c = false) ∧
      ((∃ p d, Longest IsDecimal cs p ∧
          Decimal.leading? cs = some p ∧
          Decimal.leading? (Decimal.bytewise cs) = some (Decimal.bytewise p) ∧
          Decimal.read? p = some d ∧ d.text = p ∧ leadingFloat s = d.value) ∨
        ((∀ q, q <+: cs → ¬ IsDecimal q) ∧
          Decimal.leading? cs = none ∧ Decimal.leading? (Decimal.bytewise cs) = none ∧
          leadingFloat s = Binary32.zero)) := by
  refine ⟨s.toList.takeWhile isBlank, dropBlanks s.toList, List.takeWhile_append_dropWhile.symm,
    fun c hc => List.mem_takeWhile_imp hc, fun c hc => not_of_head?_dropWhile hc, ?_⟩
  rw [leadingFloat, Decimal.leading?_bytewise]
  cases hfound : Decimal.leading? (dropBlanks s.toList) with
  | some p =>
    have hlongest := Decimal.leading?_eq_some_iff.1 hfound
    obtain ⟨d, hread, htext⟩ := Decimal.exists_read? hlongest.isOne
    refine .inl ⟨p, d, hlongest, rfl, rfl, hread, htext, ?_⟩
    simp only [hread, Option.map_some, Option.getD_some]
  | none => exact .inr ⟨Decimal.leading?_eq_none_iff.1 hfound, rfl, rfl, rfl⟩

/-- A mark without digits is no exponent, and what stands before it is read. -/
example : Decimal.leading? "-.5e2e+é".toList = some "-.5e2".toList := by decide

end ScriptMachine.Text
