/-!
# Writing JSON

JSON values and their text: one member or element to a line, indented by two spaces a level.
-/

namespace ScriptMachine

/-- A JSON value whose numbers are natural. -/
inductive JsonValue where
  | null
  | bool (b : Bool)
  | number (n : Nat)
  | string (s : String)
  | array (elements : List JsonValue)
  | object (members : List (String × JsonValue))

namespace JsonValue

/-- A character within a string. -/
def escapedChar (c : Char) : List Char :=
  match c with
  | '"' => ['\\', '"']
  | '\\' => ['\\', '\\']
  | '\x08' => ['\\', 'b']
  | '\x0c' => ['\\', 'f']
  | '\n' => ['\\', 'n']
  | '\r' => ['\\', 'r']
  | '\t' => ['\\', 't']
  | _ =>
    if c.toNat < 0x20 then
      ['\\', 'u', '0', '0', Nat.digitChar (c.toNat / 16), Nat.digitChar (c.toNat % 16)]
    else [c]

/-- A string between quotes. -/
def quoted (s : String) : String :=
  String.ofList ('"' :: s.toList.flatMap escapedChar ++ ['"'])

/-- The start of a line at a level. -/
def newline (level : Nat) : String :=
  String.ofList ('\n' :: List.replicate (2 * level) ' ')

mutual

/-- The text of a value that starts at a level. -/
def pretty (level : Nat) : JsonValue → String
  | null => "null"
  | bool b => if b then "true" else "false"
  | number n => toString n
  | string s => quoted s
  | array [] => "[]"
  | array (v :: vs) =>
    "[" ++ newline (level + 1) ++ pretty (level + 1) v ++ prettyElements (level + 1) vs ++
      newline level ++ "]"
  | object [] => "\x7b\x7d"
  | object ((name, v) :: ms) =>
    "\x7b" ++ newline (level + 1) ++ quoted name ++ ": " ++ pretty (level + 1) v ++
      prettyMembers (level + 1) ms ++ newline level ++ "\x7d"

/-- The further elements of an array. -/
def prettyElements (level : Nat) : List JsonValue → String
  | [] => ""
  | v :: vs => "," ++ newline level ++ pretty level v ++ prettyElements level vs

/-- The further members of an object. -/
def prettyMembers (level : Nat) : List (String × JsonValue) → String
  | [] => ""
  | (name, v) :: ms =>
    "," ++ newline level ++ quoted name ++ ": " ++ pretty level v ++ prettyMembers level ms

end

end JsonValue
end ScriptMachine
