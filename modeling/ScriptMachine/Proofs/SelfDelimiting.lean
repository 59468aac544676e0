import ScriptMachine.Proofs.Decoding

/-!
# Where an executable ends

An executable tells by itself where it ends. Each reader looks at no more bytes than those of its
field, so it reads the field whatever follows; and it takes them one part after the other, so it
meets the end of the bytes if the field is cut short at any place (`Reader.Delimits`). Readers in a
row have this from each other. Only the signature is apart, since bytes too short for it count as a
wrong one.
-/

namespace ScriptMachine.Executable

open Grammar

/-- The error for an executable that breaks off after some bytes. -/
def cutError (length : Nat) : LoadError :=
  if length < 4 then .badMagic else .malformed .unexpectedEnd

namespace Reader

variable {α β : Type} {r : Reader α} {f : α → Reader β} {s s' : List UInt8} {x : α} {width ip : Nat}

/-- A reader finds the end of its field: it gives the same whatever follows the field, and meets the
end of the bytes if not all of the field is there. -/
def Delimits (r : Reader α) : Prop :=
  ∀ s s' x, r.run s = .ok (x, s') →
    ∃ field, s = field ++ s' ∧ Reads r field x ∧
      ∀ m < field.length, r.run (field.take m) = .error (.malformed .unexpectedEnd)

/-! ## Fields in a row -/

theorem Delimits.pure (a : α) : Delimits (pure a : Reader α) := by
  intro s s' x h
  obtain ⟨rfl, rfl⟩ := pure_run_eq_ok.1 h
  exact ⟨[], rfl, .pure a, fun m hm => absurd hm (Nat.not_lt_zero m)⟩

theorem Delimits.bind (hr : Delimits r) (hf : ∀ a, Delimits (f a)) : Delimits (r >>= f) := by
  intro s s' y h
  obtain ⟨x, s₁, hx, hy⟩ := bind_run_eq_ok.1 h
  obtain ⟨field, rfl, hreads, hcut⟩ := hr _ _ _ hx
  obtain ⟨field', rfl, hreads', hcut'⟩ := hf x _ _ _ hy
  refine ⟨field ++ field', (List.append_assoc ..).symm, hreads.bind hreads', fun m hm => ?_⟩
  rw [List.length_append] at hm
  rw [List.take_append, bind_run_eq_error]
  by_cases hlt : m < field.length
  · rw [Nat.sub_eq_zero_of_le (Nat.le_of_lt hlt), List.take_zero, List.append_nil]
    exact .inl (hcut m hlt)
  · rw [List.take_of_length_le (Nat.not_lt.1 hlt)]
    exact .inr ⟨x, _, hreads _, hcut' _ (by omega)⟩

theorem delimits_malformed (reason : Malformation) : Delimits (malformed reason : Reader α) :=
  fun _ _ _ h => absurd h not_malformed

/-- What takes nothing off the front leaves nothing to be cut. -/
theorem delimits_lift (x : Except LoadError α) : Delimits (liftM x : Reader α) := by
  intro s s' a h
  obtain ⟨rfl, rfl⟩ := lift_run_eq_ok.1 h
  exact ⟨[], rfl, .lift rfl, fun m hm => absurd hm (Nat.not_lt_zero m)⟩

/-! ## The fields -/

theorem delimits_byte : Delimits byte := by
  intro s s' b h
  obtain ⟨_, rfl, rfl⟩ := accepts_byte.sound h
  refine ⟨[b], rfl, reads_byte b, fun m hm => ?_⟩
  obtain rfl : m = 0 := Nat.lt_one_iff.1 hm
  rfl

theorem delimits_number : Delimits (number width) := by
  induction width with
  | zero => exact .pure 0
  | succ width ih => exact delimits_byte.bind fun _ => ih.bind fun _ => .pure _

theorem delimits_word : Delimits word := delimits_number.bind fun _ => .pure _

theorem delimits_int : Delimits int := delimits_word.bind fun _ => .pure _

theorem delimits_bytes (n : Nat) : Delimits (bytes n) := by
  intro s s' run h
  obtain ⟨field, rfl, rfl, rfl⟩ := accepts_bytes.sound h
  refine ⟨field, rfl, reads_bytes field, fun m hm => ?_⟩
  have hshort : ((field.take m).take field.length).length ≠ field.length := by
    rw [List.length_take, List.length_take]
    omega
  show (if ((field.take m).take field.length).length = field.length then
    (do set ((field.take m).drop field.length); return (field.take m).take field.length)
    else malformed .unexpectedEnd : Reader (List UInt8)).run (field.take m) = _
  rw [if_neg hshort]
  rfl

theorem delimits_text : Delimits (text width) :=
  delimits_number.bind fun n => (delimits_bytes n).bind fun _ => .pure _

theorem delimits_fields {read : Nat → Reader α} (hread : ∀ n, Delimits (read n)) (n : Nat)
    (done : Array α) : Delimits (fields read n done) := by
  induction n generalizing done with
  | zero => exact .pure done
  | succ n ih => exact (hread _).bind fun x => ih (done.push x)

theorem delimits_table {read : Nat → Reader α} (hread : ∀ n, Delimits (read n)) :
    Delimits (table read) :=
  delimits_number.bind fun n => delimits_fields hread n #[]

theorem delimits_operand (ip : Nat) : Delimits (operand ip) := by
  refine delimits_byte.bind fun code => ?_
  split
  case h_1 => exact delimits_malformed _
  case h_2 | h_5 => exact delimits_int.bind fun _ => .pure _
  case h_3 => exact delimits_word.bind fun _ => .pure _
  case h_4 | h_7 | h_8 | h_9 => exact delimits_number.bind fun _ => .pure _
  case h_6 => exact delimits_int.bind fun _ => delimits_int.bind fun _ => .pure _
  case h_10 =>
    refine delimits_number.bind fun code => ?_
    split
    · exact .pure _
    · exact delimits_malformed _

theorem delimits_instruction (ip : Nat) : Delimits (instruction ip) := by
  refine delimits_number.bind fun code => ?_
  split
  · exact delimits_malformed _
  · exact delimits_number.bind fun n =>
      (delimits_fields (fun _ => delimits_operand ip) n #[]).bind fun _ => .pure _

theorem delimits_function : Delimits function :=
  delimits_number.bind fun _ => delimits_byte.bind fun _ => delimits_word.bind fun _ =>
    delimits_text.bind fun _ => .pure _

theorem delimits_priority : Delimits priority := by
  refine delimits_byte.bind fun code => delimits_word.bind fun ms => ?_
  split
  · exact .pure _
  · exact delimits_malformed _

theorem delimits_version : Delimits version := by
  refine delimits_byte.bind fun major => delimits_byte.bind fun minor => ?_
  split
  · exact .pure ()
  · intro s s' x h
    cases h

/-! ## The whole executable -/

theorem delimits_behind_signature {f : Unit → Reader α} (hf : Delimits (f ()))
    (h : (signature >>= f).run s = .ok (x, s')) :
    ∃ field, s = field ++ s' ∧ Reads (signature >>= f) field x ∧
      ∀ m < field.length, (signature >>= f).run (field.take m) = .error (cutError m) := by
  obtain ⟨⟨⟩, s₁, hsignature, hx⟩ := bind_run_eq_ok.1 h
  obtain ⟨_, rfl, rfl⟩ := accepts_signature.sound hsignature
  obtain ⟨field, rfl, hreads, hcut⟩ := hf _ _ _ hx
  refine ⟨magic ++ field, (List.append_assoc ..).symm, reads_signature.bind hreads, fun m hm => ?_⟩
  have hmagic : magic.length = 4 := rfl
  rw [List.length_append] at hm
  rw [bind_run_eq_error, cutError]
  by_cases hlt : m < 4
  · have hshort : ¬ magic <+: (magic ++ field).take m := fun hmagic' => by
      have hlength := hmagic'.length_le
      rw [List.length_take] at hlength
      omega
    rw [if_pos hlt]
    exact .inl (signature_of_not_magic hshort)
  · rw [if_neg hlt, List.take_append, List.take_of_length_le (by omega)]
    exact .inr ⟨(), _, reads_signature _, hcut _ (by omega)⟩

theorem delimits_image {x : Image} (h : image.run s = .ok (x, s')) :
    ∃ field, s = field ++ s' ∧ Reads image field x ∧
      ∀ m < field.length, image.run (field.take m) = .error (cutError m) := by
  refine delimits_behind_signature (delimits_version.bind fun _ => ?_) h
  exact delimits_word.bind fun stackSize => delimits_word.bind fun globals =>
    delimits_byte.bind fun flag => delimits_number.bind fun main =>
    delimits_priority.bind fun p => (delimits_table delimits_instruction).bind fun raw =>
    (delimits_table fun _ => delimits_text).bind fun strings =>
    (delimits_lift _).bind fun instructions =>
    (delimits_table fun _ => delimits_function).bind fun functions =>
    (delimits_table fun _ => delimits_text).bind fun hostCalls => .pure _

end Reader

/-- The first `n` bytes are an executable of an image all by themselves: the image is decoded from
them whatever follows, and from fewer of them none is. -/
structure EndsAt (n : Nat) (b : List UInt8) (x : Image) : Prop where
  le : n ≤ b.length
  continued : ∀ t, decode (b.take n ++ t) = .ok x
  cut : ∀ m < n, decode (b.take m) = .error (cutError m)

/-- An executable ends at one place only. -/
theorem EndsAt.le_of_endsAt {b : List UInt8} {x y : Image} {n n' : Nat} (h : EndsAt n b x)
    (h' : EndsAt n' b y) : n' ≤ n := by
  by_contra hlt
  have hok := h.continued []
  rw [List.append_nil, h'.cut n (Nat.not_le.1 hlt)] at hok
  cases hok

theorem endsAt_of_run {b rest : List UInt8} {x : Image} (hvalid : x.Valid)
    (h : Reader.image.run b = .ok (x, rest)) : EndsAt (b.length - rest.length) b x := by
  obtain ⟨field, rfl, hreads, hcut⟩ := Reader.delimits_image h
  rw [List.length_append, Nat.add_sub_cancel]
  exact {
    le := by
      rw [List.length_append]
      exact Nat.le_add_right _ _
    continued := fun t => by
      rw [List.take_left]
      exact decode_eq_ok.2 ⟨⟨t, hreads t⟩, hvalid⟩
    cut := fun m hm => by
      rw [List.take_append_of_le_length (Nat.le_of_lt hm)]
      exact decode_of_run_error (hcut m hm) }

/-- **Executables are self-delimiting.** Bytes that are decoded begin with an executable that ends
at one certain place: the same image is decoded whatever follows that place, and if the bytes break
off before it, they are refused, for the signature or for ending unexpectedly. The executable that
is written for an image ends with its last byte. -/
theorem decode_self_delimiting :
    (∀ b x, decode b = .ok x → ∃! n, EndsAt n b x) ∧
    ∀ x, Encodable x → x.validate = .ok () → EndsAt (encode x).length (encode x) x := by
  refine ⟨fun b x h => ?_, fun x hx hvalid => ?_⟩
  · obtain ⟨⟨rest, hrun⟩, hvalid⟩ := decode_eq_ok.1 h
    have hends := endsAt_of_run hvalid hrun
    exact ⟨_, hends, fun n hn => Nat.le_antisymm (hends.le_of_endsAt hn) (hn.le_of_endsAt hends)⟩
  · have hread := Reader.reads_image hx []
    rw [List.append_nil] at hread
    exact endsAt_of_run (Image.validate_eq_ok.1 hvalid) hread

theorem decode_self_delimiting_greeting :
    Encodable greeting ∧ greeting.validate = .ok () ∧
      EndsAt (encode greeting).length (encode greeting) greeting ∧
      ∃! n, EndsAt n (encode greeting) greeting := by
  have hvalid : greeting.validate = .ok () := by decide
  obtain ⟨hdecoded, hencoded⟩ := decode_self_delimiting
  have hends := hencoded greeting encodable_greeting hvalid
  have hdecode := hends.continued []
  rw [List.take_length, List.append_nil] at hdecode
  exact ⟨encodable_greeting, hvalid, hends, hdecoded _ greeting hdecode⟩

end ScriptMachine.Executable
