/-!
# UTF-8

Encoding of text as bytes, and the reading of bytes as text that never fails: each longest
run of bytes that starts a well-formed sequence but does not complete it is read as one
replacement character, and so is each byte that starts none.
-/

namespace ScriptMachine.Text

/-- The UTF-8 bytes of a text. -/
def utf8 (s : String) : List UInt8 :=
  s.toList.flatMap String.utf8EncodeChar

namespace Utf8

/-- The character read for bytes that are no UTF-8. -/
def replacement : Char := '\uFFFD'

/-- What is known inside a sequence: how many bytes are missing, the bits read so far, and
the bounds for the next byte. -/
structure Pending where
  missing : Nat
  bits : Nat
  first : UInt8
  last : UInt8
deriving DecidableEq, Repr

/-- What a byte means outside any sequence. -/
inductive Lead where
  | char (c : Char)
  | opens (pending : Pending)
  | stray
deriving DecidableEq, Repr

/-- The role of a byte at the start of a sequence. The bounds for the second byte exclude
overlong forms, surrogates and values above U+10FFFF. -/
def lead (b : UInt8) : Lead :=
  let n := b.toNat
  if n < 0x80 then .char (Char.ofNat n)
  else if n < 0xc2 then .stray
  else if n < 0xe0 then .opens ⟨1, n - 0xc0, 0x80, 0xbf⟩
  else if n = 0xe0 then .opens ⟨2, 0, 0xa0, 0xbf⟩
  else if n = 0xed then .opens ⟨2, 0xd, 0x80, 0x9f⟩
  else if n < 0xf0 then .opens ⟨2, n - 0xe0, 0x80, 0xbf⟩
  else if n = 0xf0 then .opens ⟨3, 0, 0x90, 0xbf⟩
  else if n < 0xf4 then .opens ⟨3, n - 0xf0, 0x80, 0xbf⟩
  else if n = 0xf4 then .opens ⟨3, 4, 0x80, 0x8f⟩
  else .stray

/-- The reader's state: the characters read, last one first, and the open sequence. -/
structure Decoder where
  chars : List Char := []
  pending : Option Pending := none
deriving DecidableEq, Repr

namespace Decoder

/-- Read a byte outside any sequence. -/
def start (d : Decoder) (b : UInt8) : Decoder :=
  match lead b with
  | .char c => ⟨c :: d.chars, none⟩
  | .opens p => ⟨d.chars, some p⟩
  | .stray => ⟨replacement :: d.chars, none⟩

/-- Read one byte. A byte that cannot continue the open sequence ends it and is read anew. -/
def push (d : Decoder) (b : UInt8) : Decoder :=
  match d.pending with
  | none => d.start b
  | some p =>
    if p.first ≤ b ∧ b ≤ p.last then
      let bits := p.bits * 64 + (b.toNat - 0x80)
      if p.missing ≤ 1 then ⟨Char.ofNat bits :: d.chars, none⟩
      else ⟨d.chars, some ⟨p.missing - 1, bits, 0x80, 0xbf⟩⟩
    else start ⟨replacement :: d.chars, none⟩ b

/-- The text read; a sequence still open at the end is incomplete. -/
def finish (d : Decoder) : List Char :=
  match d.pending with
  | none => d.chars.reverse
  | some _ => (replacement :: d.chars).reverse

end Decoder
end Utf8

/-- The text of arbitrary bytes, with replacement characters where they are no UTF-8. -/
def ofUtf8 (bytes : List UInt8) : String :=
  String.ofList (bytes.foldl Utf8.Decoder.push {}).finish

end ScriptMachine.Text
