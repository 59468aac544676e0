import Mathlib.Data.Char
import ScriptMachine.Text.Utf8

/-!
# Reading UTF-8 back

The reader of bytes takes every character from exactly the bytes that it is encoded as. So a
text is what its own bytes are read as, and no replacement character is put into it.

If the bytes of a text are cut off, its last character may be incomplete and is then replaced.
That is all that can happen (`ofUtf8_take_utf8`), and it happens once (`clip_clip`).
-/

namespace ScriptMachine.Text

namespace Utf8

theorem lead_one : ∀ n < 0x80, lead (UInt8.ofNat n) = .char (Char.ofNat n) := by decide

theorem lead_two : ∀ n < 0x20, 2 ≤ n →
    lead (UInt8.ofNat (n + 0xc0)) = .opens ⟨1, n, 0x80, 0xbf⟩ := by decide

theorem lead_three : ∀ n < 0x10, lead (UInt8.ofNat (n + 0xe0)) =
    .opens ⟨2, n, if n = 0 then 0xa0 else 0x80, if n = 0xd then 0x9f else 0xbf⟩ := by decide

theorem lead_four : ∀ n < 5, lead (UInt8.ofNat (n + 0xf0)) =
    .opens ⟨3, n, if n = 0 then 0x90 else 0x80, if n = 4 then 0x8f else 0xbf⟩ := by decide

namespace Decoder

/-- A byte that continues the open sequence adds its six bits. -/
theorem push_pending {cs : List Char} {p : Pending} {n : Nat} (hn : n < 64)
    (hfirst : p.first.toNat ≤ n + 0x80) (hlast : n + 0x80 ≤ p.last.toNat) :
    push ⟨cs, some p⟩ (UInt8.ofNat (n + 0x80)) =
      if p.missing ≤ 1 then ⟨Char.ofNat (p.bits * 64 + n) :: cs, none⟩
      else ⟨cs, some ⟨p.missing - 1, p.bits * 64 + n, 0x80, 0xbf⟩⟩ := by
  have hb : (UInt8.ofNat (n + 0x80)).toNat = n + 0x80 := by
    rw [UInt8.toNat_ofNat']
    omega
  have hbounds : p.first ≤ UInt8.ofNat (n + 0x80) ∧ UInt8.ofNat (n + 0x80) ≤ p.last := by
    rw [UInt8.le_iff_toNat_le, UInt8.le_iff_toNat_le, hb]
    exact ⟨hfirst, hlast⟩
  simp only [push, if_pos hbounds, hb, Nat.add_sub_cancel]

/-- A byte that opens a sequence. -/
theorem push_opens {cs : List Char} {b : UInt8} {p : Pending} (h : lead b = .opens p) :
    push ⟨cs, none⟩ b = ⟨cs, some p⟩ := by
  simp only [push, start, h]

/-- The bytes of a character are read as that character. -/
theorem foldl_push_utf8EncodeChar (cs : List Char) (c : Char) :
    (String.utf8EncodeChar c).foldl push ⟨cs, none⟩ = ⟨c :: cs, none⟩ := by
  have hc : Char.ofNat c.val.toNat = c := Char.ofNat_toNat c
  have hvalid : c.val.toNat < 0xd800 ∨ 0xdfff < c.val.toNat ∧ c.val.toNat < 0x110000 := c.valid
  unfold String.utf8EncodeChar
  generalize c.val.toNat = v at hc hvalid
  simp only
  by_cases h₁ : v ≤ 0x7f
  · rw [if_pos h₁]
    simp only [List.foldl, push, start, lead_one v (by omega), hc]
  rw [if_neg h₁]
  by_cases h₂ : v ≤ 0x7ff
  · have hlead : v / 64 % 0x20 = v / 64 := Nat.mod_eq_of_lt (by omega)
    rw [if_pos h₂, hlead]
    simp only [List.foldl]
    rw [push_opens (lead_two _ (by omega) (by omega)),
      push_pending (by omega) (Nat.le_add_left _ _) (by simp only [UInt8.reduceToNat]; omega)]
    simp only [Nat.le_refl, if_true]
    rw [show v / 64 * 64 + v % 64 = v by omega, hc]
  rw [if_neg h₂]
  by_cases h₃ : v ≤ 0xffff
  · have hlead : v / 4096 % 0x10 = v / 4096 := Nat.mod_eq_of_lt (by omega)
    rw [if_pos h₃, hlead]
    simp only [List.foldl]
    -- the bounds of the second byte exclude overlong forms and surrogates
    have hfirst : (if v / 4096 = 0 then 0xa0 else 0x80 : UInt8).toNat ≤ v / 64 % 64 + 0x80 := by
      split <;> simp only [UInt8.reduceToNat] <;> omega
    have hlast : v / 64 % 64 + 0x80 ≤ (if v / 4096 = 0xd then 0x9f else 0xbf : UInt8).toNat := by
      split <;> simp only [UInt8.reduceToNat] <;> omega
    rw [push_opens (lead_three _ (by omega)), push_pending (by omega) hfirst hlast,
      if_neg (show ¬2 ≤ 1 by decide), push_pending (by omega) (Nat.le_add_left _ _)
        (by simp only [UInt8.reduceToNat]; omega), if_pos (show 2 - 1 ≤ 1 by decide)]
    rw [show (v / 4096 * 64 + v / 64 % 64) * 64 + v % 64 = v by omega, hc]
  rw [if_neg h₃]
  have hlead : v / 262144 % 0x08 = v / 262144 := Nat.mod_eq_of_lt (by omega)
  have hfirst : (if v / 262144 = 0 then 0x90 else 0x80 : UInt8).toNat ≤
      v / 4096 % 64 + 0x80 := by
    split <;> simp only [UInt8.reduceToNat] <;> omega
  have hlast : v / 4096 % 64 + 0x80 ≤
      (if v / 262144 = 4 then 0x8f else 0xbf : UInt8).toNat := by
    split <;> simp only [UInt8.reduceToNat] <;> omega
  rw [hlead]
  simp only [List.foldl]
  rw [push_opens (lead_four _ (by omega)), push_pending (by omega) hfirst hlast,
    if_neg (show ¬3 ≤ 1 by decide), push_pending (by omega) (Nat.le_add_left _ _)
      (by simp only [UInt8.reduceToNat]; omega), if_neg (show ¬3 - 1 ≤ 1 by decide),
    push_pending (by omega) (Nat.le_add_left _ _)
      (by simp only [UInt8.reduceToNat]; omega), if_pos (show 3 - 1 - 1 ≤ 1 by decide)]
  rw [show ((v / 262144 * 64 + v / 4096 % 64) * 64 + v / 64 % 64) * 64 + v % 64 = v by omega, hc]

/-- The bytes of a text are read as its characters. -/
theorem foldl_push_utf8 (done cs : List Char) :
    (cs.flatMap String.utf8EncodeChar).foldl push ⟨done, none⟩ = ⟨cs.reverse ++ done, none⟩ := by
  induction cs generalizing done with
  | nil => rfl
  | cons c cs ih =>
    rw [List.flatMap_cons, List.foldl_append, foldl_push_utf8EncodeChar, ih]
    simp

/-! ## A character cut short -/

variable {d : Decoder} {b : UInt8} {bs : List UInt8}

/-- What was read before stays read. -/
theorem suffix_push (d : Decoder) (b : UInt8) : d.chars <:+ (d.push b).chars := by
  have hstart (d : Decoder) : d.chars <:+ (d.start b).chars := by
    unfold start
    split
    · exact List.suffix_cons _ _
    · exact List.suffix_rfl
    · exact List.suffix_cons _ _
  unfold push
  split
  · exact hstart d
  · split
    · dsimp only
      split
      · exact List.suffix_cons _ _
      · exact List.suffix_rfl
    · exact (List.suffix_cons _ _).trans (hstart ⟨replacement :: d.chars, none⟩)

theorem suffix_foldl_push (d : Decoder) (bs : List UInt8) :
    d.chars <:+ (bs.foldl push d).chars := by
  induction bs generalizing d with
  | nil => exact List.suffix_rfl
  | cons b bs ih => exact (suffix_push d b).trans (ih (d.push b))

/-- A byte after which no sequence is open has completed a character. -/
theorem length_push (h : (d.push b).pending = none) : d.chars.length < (d.push b).chars.length := by
  have hstart (d : Decoder) (h : (d.start b).pending = none) :
      d.chars.length < (d.start b).chars.length := by
    unfold start at h ⊢
    split
    · exact Nat.lt_succ_self _
    · rename_i hlead
      simp only [hlead, reduceCtorEq] at h
    · exact Nat.lt_succ_self _
  unfold push at h ⊢
  split
  · rename_i hpending
    simp only [hpending] at h
    exact hstart d h
  · rename_i p hpending
    simp only [hpending] at h
    split
    · rename_i hbounds
      simp only [hbounds, and_self, if_true] at h
      dsimp only
      split
      · exact Nat.lt_succ_self _
      · rename_i hmissing
        simp only [hmissing, if_false, reduceCtorEq] at h
    · rename_i hbounds
      simp only [hbounds, if_false] at h
      exact Nat.lt_of_succ_lt (hstart ⟨replacement :: d.chars, none⟩ h)

theorem length_foldl_push (hbs : bs ≠ []) (h : (bs.foldl push d).pending = none) :
    d.chars.length < (bs.foldl push d).chars.length := by
  obtain ⟨bs, b, rfl⟩ := bs.eq_nil_or_concat.resolve_left hbs
  rw [List.concat_eq_append, List.foldl_append] at h ⊢
  exact Nat.lt_of_le_of_lt (suffix_foldl_push d bs).length_le (length_push h)

/-- A character that is cut short leaves its sequence open, and nothing more is read. -/
theorem exists_foldl_push_take (cs : List Char) (c : Char) {n : Nat} (hn : n ≠ 0)
    (hlt : n < (String.utf8EncodeChar c).length) :
    ∃ p, ((String.utf8EncodeChar c).take n).foldl push ⟨cs, none⟩ = ⟨cs, some p⟩ := by
  have hread := foldl_push_utf8EncodeChar cs c
  rw [← List.take_append_drop n (String.utf8EncodeChar c), List.foldl_append] at hread
  have hbegun : (String.utf8EncodeChar c).take n ≠ [] := by
    rw [Ne, List.take_eq_nil_iff, not_or]
    exact ⟨hn, fun h => by simp [h] at hlt⟩
  have hrest : (String.utf8EncodeChar c).drop n ≠ [] := by
    rw [Ne, List.drop_eq_nil_iff]
    omega
  have hkept := suffix_foldl_push ⟨cs, none⟩ ((String.utf8EncodeChar c).take n)
  have hopen := length_foldl_push (d := ⟨cs, none⟩) hbegun
  have hmore := length_foldl_push hrest (by rw [hread])
  rw [hread, List.length_cons] at hmore
  generalize ((String.utf8EncodeChar c).take n).foldl push ⟨cs, none⟩ = d at *
  obtain ⟨chars, pending⟩ := d
  obtain rfl : cs = chars := hkept.eq_of_length_le (Nat.le_of_lt_succ hmore)
  cases pending with
  | none => exact absurd (hopen rfl) (Nat.lt_irrefl _)
  | some p => exact ⟨p, rfl⟩

end Decoder
end Utf8

/-- A text is read back from its bytes. -/
theorem ofUtf8_utf8 (s : String) : ofUtf8 (utf8 s) = s := by
  rw [ofUtf8, utf8, Utf8.Decoder.foldl_push_utf8]
  simp [Utf8.Decoder.finish]

/-! ## Texts cut short -/

/-- What is left of a text when its bytes are cut off behind the first `n`: the characters that
are complete, and a replacement character for one that is not. -/
def clip (n : Nat) : List Char → List Char
  | [] => []
  | c :: cs =>
    let width := (String.utf8EncodeChar c).length
    if n = 0 then [] else if width ≤ n then c :: clip (n - width) cs else [Utf8.replacement]

/-- Reading the first bytes of a text clips it. -/
theorem finish_foldl_take (n : Nat) (done cs : List Char) :
    (((cs.flatMap String.utf8EncodeChar).take n).foldl Utf8.Decoder.push ⟨done, none⟩).finish =
      done.reverse ++ clip n cs := by
  induction cs generalizing n done with
  | nil => simp [clip, Utf8.Decoder.finish]
  | cons c cs ih =>
    rw [List.flatMap_cons, List.take_append, List.foldl_append, clip]
    by_cases hn : n = 0
    · simp [hn, Utf8.Decoder.finish]
    rw [if_neg hn]
    by_cases hwidth : (String.utf8EncodeChar c).length ≤ n
    · rw [if_pos hwidth, List.take_of_length_le hwidth, Utf8.Decoder.foldl_push_utf8EncodeChar, ih,
        List.reverse_cons, List.append_assoc, List.singleton_append]
    · obtain ⟨p, hp⟩ := Utf8.Decoder.exists_foldl_push_take done c hn (Nat.lt_of_not_le hwidth)
      rw [if_neg hwidth, hp, Nat.sub_eq_zero_of_le (Nat.le_of_not_le hwidth), List.take_zero]
      simp [Utf8.Decoder.finish]

theorem ofUtf8_take_utf8 (n : Nat) (s : String) :
    ofUtf8 ((utf8 s).take n) = String.ofList (clip n s.toList) := by
  rw [ofUtf8, utf8, finish_foldl_take]
  rfl

/-- A text that has been clipped may be longer than before, by the replacement character. Clipping
it again cuts that character, and puts the same one in its place. -/
theorem clip_clip (n : Nat) (cs : List Char) : clip n (clip n cs) = clip n cs := by
  induction cs generalizing n with
  | nil => rfl
  | cons c cs ih =>
    by_cases hn : n = 0
    · simp [clip, hn]
    by_cases hwidth : (String.utf8EncodeChar c).length ≤ n
    · simp only [clip, if_neg hn, if_pos hwidth, ih]
    · simp only [clip, if_neg hn, if_neg hwidth]
      split <;> rfl

end ScriptMachine.Text
