import ScriptMachine.Text.Numeral

/-!
# Reading JSON

The lexical part of reading JSON into records of known fields: blanks, literals, numbers,
strings, and values that are skipped unread. A reader fails in one of three ways, and the
first failure decides: the text ends too early, it is no JSON, or a value is well formed but
not of the kind that was asked for.
-/

namespace ScriptMachine.Json

/-- Why a text was not read. -/
inductive ReadError where
  /-- The text ends within a value. -/
  | incomplete
  /-- The text is no JSON. -/
  | malformed
  /-- A value has the wrong kind or is out of range, or a field is given twice. -/
  | mismatch
deriving DecidableEq, Repr

/-- A reader takes what it reads from the front of the text. -/
abbrev Reader := StateT (List Char) (Except ReadError)

namespace Reader

def fail {α : Type} (e : ReadError) : Reader α := throw e

/-- Skip spaces, tabs and line ends. -/
def blanks : Reader Unit :=
  modify fun cs => cs.dropWhile fun c => c = ' ' || c = '\t' || c = '\n' || c = '\r'

/-- The next character, which stays. -/
def peek? : Reader (Option Char) := return (← get).head?

/-- The next character after blanks, which stays. -/
def peekToken? : Reader (Option Char) := do
  blanks
  peek?

/-- Drop a character. -/
def skip : Reader Unit := modify List.tail

/-- Take a character. -/
def next : Reader Char := do
  match ← get with
  | c :: rest => set rest; return c
  | [] => fail .incomplete

/-- Take the given characters, the rest of a literal. -/
def literal : List Char → Reader Unit
  | [] => return ()
  | c :: cs => do
    if (← next) = c then literal cs else fail .malformed

/-! ## Numbers -/

/-- The largest 64-bit number. -/
def maxWord : Nat := 0xffffffffffffffff

/-- Take the digits at the front. -/
def digits : Reader (List Char) := do
  let cs ← get
  set (cs.dropWhile Char.isDigit)
  return cs.takeWhile Char.isDigit

/-- Add digits to a 64-bit number for as long as they fit; also how many did. -/
def gather (start : Nat) (ds : List Char) : Nat × Nat :=
  let step := fun (n, taken, full) d =>
    let m := n * 10 + Text.digitValue d
    if full || maxWord < m then (n, taken, true) else (m, taken + 1, false)
  let (n, taken, _) := ds.foldl step (start, 0, false)
  (n, taken)

/-- The double nearest to a positive integer, which may lie beyond the largest double. -/
def nearestDouble (n : Nat) : Nat :=
  let dropped := n.log2 - 52
  (roundedQuotient n (1 <<< dropped)) <<< dropped

/-- Whether `n * 10 ^ exponent` is too large for a double. It is computed in doubles: the
nearest to `n` times the nearest to the power of ten, of which those up to `10 ^ 308` exist.
The product is too large from halfway between the largest double and the next power of two. -/
def tooLarge (n : Nat) (exponent : Int) : Bool :=
  0 < n && (308 < exponent || (0 ≤ exponent &&
    0x3fffffffffffff <<< 970 ≤ nearestDouble n * nearestDouble (Nat.pow 10 exponent.toNat)))

/-- The exponent of a number, if it has one, added to the exponent so far. -/
def exponent (start : Int) : Reader Int := do
  match ← peek? with
  | some 'e' | some 'E' => do
    skip
    let negative ← match ← peek? with
      | some '+' => skip; pure false
      | some '-' => skip; pure true
      | _ => pure false
    let first ← next
    if first.isDigit then
      let ds ← digits
      let n := Text.digitsValue (first :: ds)
      return if negative then start - n else start + n
    else fail .malformed
  | _ => return start

/-- A number after its sign. The answer is its value if it is written as an integer of 64
bits, and nothing if it has more digits, a fraction or an exponent. -/
def number : Reader (Option Nat) := do
  let first ← next
  if !first.isDigit then fail .malformed
  let more ← digits
  if first = '0' && !more.isEmpty then fail .malformed
  let whole := first :: more
  let (n, taken) := gather 0 whole
  let dropped : Int := whole.length - taken
  match ← peek? with
  | some '.' => do
    skip
    let fraction ← digits
    if fraction.isEmpty then
      match ← peek? with
      | some _ => fail .malformed
      | none => fail .incomplete
    let (n, taken) := gather n fraction
    let e ← exponent (dropped - taken)
    if tooLarge n e then fail .malformed else return none
  | some 'e' | some 'E' => do
    let e ← exponent dropped
    if tooLarge n e then fail .malformed else return none
  | _ =>
    if dropped = 0 then return some n
    else if tooLarge n dropped then fail .malformed else return none

/-! ## Strings -/

/-- The value of a hexadecimal digit. -/
def hexDigit? (c : Char) : Option Nat :=
  if '0' ≤ c ∧ c ≤ '9' then some (c.toNat - '0'.toNat)
  else if 'a' ≤ c ∧ c ≤ 'f' then some (c.toNat - 'a'.toNat + 10)
  else if 'A' ≤ c ∧ c ≤ 'F' then some (c.toNat - 'A'.toNat + 10)
  else none

/-- Four hexadecimal digits. The text ends too early if fewer than four bytes are left. -/
def hexWord : Reader Nat := do
  let cs ← get
  match (cs.take 4).mapM hexDigit? with
  | some [a, b, c, d] =>
    set (cs.drop 4)
    return ((a * 16 + b) * 16 + c) * 16 + d
  | _ =>
    let bytes := (cs.take 4).foldl (fun n c => n + c.utf8Size) 0
    if bytes < 4 then fail .incomplete else fail .malformed

/-- The character of an escape with one letter. -/
def simpleEscape? : Char → Option Char
  | '"' => some '"'
  | '\\' => some '\\'
  | '/' => some '/'
  | 'b' => some '\x08'
  | 'f' => some '\x0c'
  | 'n' => some '\n'
  | 'r' => some '\r'
  | 't' => some '\t'
  | _ => none

/-- The character of an escape in hexadecimal; one beyond U+FFFF takes a pair of escapes. -/
def unicodeEscape : Reader Char := do
  let high ← hexWord
  if 0xdc00 ≤ high ∧ high ≤ 0xdfff then fail .malformed
  else if 0xd800 ≤ high ∧ high ≤ 0xdbff then
    literal ['\\', 'u']
    let low ← hexWord
    if 0xdc00 ≤ low ∧ low ≤ 0xdfff then
      return Char.ofNat ((high - 0xd800) * 0x400 + (low - 0xdc00) + 0x10000)
    else fail .malformed
  else return Char.ofNat high

/-- A string after its opening quote; `fuel` bounds its length. -/
def stringAfterQuote : Nat → List Char → Reader String
  | 0, _ => fail .incomplete
  | fuel + 1, done => do
    let c ← next
    if c = '"' then return String.ofList done.reverse
    else if c = '\\' then
      let e ← next
      if e = 'u' then
        stringAfterQuote fuel ((← unicodeEscape) :: done)
      else
        match simpleEscape? e with
        | some c => stringAfterQuote fuel (c :: done)
        | none => fail .malformed
    else if c < ' ' then fail .malformed
    else stringAfterQuote fuel (c :: done)

/-- A string after its opening quote; `fuel` bounds its length. -/
def string (fuel : Nat) : Reader String := stringAfterQuote fuel []

/-! ## Values that are not read -/

/-- Skip a string after its opening quote; surrogates in it need not come in pairs, and the
fuel bounds its length. -/
def skipString : Nat → Reader Unit
  | 0 => fail .incomplete
  | fuel + 1 => do
    let c ← next
    if c = '"' then return ()
    else if c = '\\' then
      let e ← next
      if e = 'u' then
        let _ ← hexWord
        skipString fuel
      else if (simpleEscape? e).isSome then skipString fuel
      else fail .malformed
    else if c < ' ' then fail .malformed
    else skipString fuel

/-- At least one digit. -/
def skipDigits : Reader Unit := do
  if (← digits).isEmpty then fail .malformed

/-- Skip a number after its sign; it may be of any size. -/
def skipNumber : Reader Unit := do
  let ds ← digits
  match ds with
  | [] => fail .malformed
  | '0' :: _ :: _ => fail .malformed
  | _ =>
    if (← peek?) = some '.' then
      skip
      skipDigits
    match ← peek? with
    | some 'e' | some 'E' =>
      skip
      match ← peek? with
      | some '+' | some '-' => skip
      | _ => pure ()
      skipDigits
    | _ => return ()

/-- The brackets that can be open around a value. -/
inductive Bracket where
  | array
  | object
deriving DecidableEq, Repr

/-- Where the skipping of a value stands: before a value, or behind one (or behind an opening
bracket, where no comma may follow). -/
inductive Place where
  | value
  | behind (comma : Bool)
deriving DecidableEq, Repr

/-- Skip the name of a member and its colon; `fuel` bounds its length. -/
def skipName (fuel : Nat) : Reader Unit := do
  match ← peekToken? with
  | some '"' => skip; skipString fuel
  | some _ => fail .malformed
  | none => fail .incomplete
  match ← peekToken? with
  | some ':' => skip
  | some _ => fail .malformed
  | none => fail .incomplete

/-- Skip the rest of a value, given the brackets open around the place, the innermost first.
Nesting may have any depth; `fuel` bounds the steps, which are fewer than twice the characters
that are left, and the length of each string. -/
def skipFrom : Nat → Place → List Bracket → Reader Unit
  | 0, _, _ => fail .incomplete
  | fuel + 1, .value, open_ => do
    match ← peekToken? with
    | none => fail .incomplete
    | some 'n' => skip; literal ['u', 'l', 'l']; skipFrom fuel (.behind true) open_
    | some 't' => skip; literal ['r', 'u', 'e']; skipFrom fuel (.behind true) open_
    | some 'f' => skip; literal ['a', 'l', 's', 'e']; skipFrom fuel (.behind true) open_
    | some '"' => skip; skipString fuel; skipFrom fuel (.behind true) open_
    | some '[' => skip; skipFrom fuel (.behind false) (.array :: open_)
    | some '\x7b' => skip; skipFrom fuel (.behind false) (.object :: open_)
    | some '-' => skip; skipNumber; skipFrom fuel (.behind true) open_
    | some c =>
      if c.isDigit then
        skipNumber
        skipFrom fuel (.behind true) open_
      else fail .malformed
  | _ + 1, .behind _, [] => return ()
  | fuel + 1, .behind comma, bracket :: outer => do
    match ← peekToken? with
    | none => fail .incomplete
    | some c =>
      let closing := match bracket with
        | .array => ']'
        | .object => '\x7d'
      if c = closing then
        skip
        skipFrom fuel (.behind true) outer
      else if comma && c ≠ ',' then fail .malformed
      else
        if comma then skip
        if bracket = .object then skipName fuel
        skipFrom fuel .value (bracket :: outer)

/-- Skip a value; `fuel` bounds the length of the text that is left. -/
def skipValue (fuel : Nat) : Reader Unit := skipFrom (2 * fuel + 2) .value []

/-! ## Values of a known kind -/

/-- Refuse a value of another kind; if it is not even well formed, that is the failure. -/
def wrongKind {α : Type} : Reader α := do
  match ← peek? with
  | some 'n' => skip; literal ['u', 'l', 'l']; fail .mismatch
  | some 't' => skip; literal ['r', 'u', 'e']; fail .mismatch
  | some 'f' => skip; literal ['a', 'l', 's', 'e']; fail .mismatch
  | some '-' => skip; let _ ← number; fail .mismatch
  | some '"' => skip; let _ ← string (← get).length; fail .mismatch
  | some '[' | some '\x7b' => fail .mismatch
  | some c =>
    if c.isDigit then
      let _ ← number
      fail .mismatch
    else fail .malformed
  | none => fail .incomplete

/-- A natural number up to a limit. -/
def natural (limit : Nat) : Reader Nat := do
  match ← peekToken? with
  | none => fail .incomplete
  | some c =>
    if c.isDigit then
      match ← number with
      | some n => if n ≤ limit then return n else fail .mismatch
      | none => fail .mismatch
    else wrongKind

/-- A truth value. -/
def bool : Reader Bool := do
  match ← peekToken? with
  | none => fail .incomplete
  | some 't' => skip; literal ['r', 'u', 'e']; return true
  | some 'f' => skip; literal ['a', 'l', 's', 'e']; return false
  | _ => wrongKind

/-- Whether another element follows in an array; the closing bracket stays. -/
def nextElement (first : Bool) : Reader Bool := do
  match ← peekToken? with
  | none => fail .incomplete
  | some ']' => return false
  | some ',' =>
    if first then return true
    skip
    match ← peekToken? with
    | some ']' => fail .malformed
    | some _ => return true
    | none => fail .incomplete
  | some _ => if first then return true else fail .malformed

/-- Whether another member follows in an object, whose opening quote is next; the closing
bracket stays. -/
def nextMember (first : Bool) : Reader Bool := do
  let quote : Option Char → Reader Bool
    | some '"' => return true
    | some _ => fail .malformed
    | none => fail .incomplete
  match ← peekToken? with
  | none => fail .incomplete
  | some '\x7d' => return false
  | some ',' =>
    if first then fail .malformed
    skip
    quote (← peekToken?)
  | some c => if first then quote (some c) else fail .malformed

/-- The colon behind the name of a member. -/
def colon : Reader Unit := do
  match ← peekToken? with
  | some ':' => skip
  | some _ => fail .malformed
  | none => fail .incomplete

/-- The closing bracket of an array. -/
def endArray : Reader Unit := do
  match ← peekToken? with
  | some ']' => skip
  | some _ => fail .malformed
  | none => fail .incomplete

/-- The end of the text. -/
def endOfText : Reader Unit := do
  match ← peekToken? with
  | none => return ()
  | some _ => fail .malformed

end Reader
end ScriptMachine.Json
