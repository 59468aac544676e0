import ScriptMachine.Binary32.Fixed
import ScriptMachine.Text.Quoted
import ScriptMachine.Text.Numeral

/-!
# Values

`Value` is the one datum of the machine: what an operand says and what a stack slot or the
return register holds. Scripts compute with integers, singles and strings. Stack indices and
registers are addresses, which stand in operands only and are resolved before an instruction
runs; the two markers link a call frame to its caller and stand in stack slots only.

Every value can be read as an integer, as a number and as a text. The readings never fail:
what has no such reading counts as zero or as the empty text.
-/

namespace ScriptMachine

/-- The machine's registers. -/
inductive Register where
  | returnValue
deriving DecidableEq, Repr, Inhabited

/-- What a call frame remembers: the function called and the caller's frame base. -/
structure FrameLink where
  function : Nat
  callerBase : Nat
deriving DecidableEq, Repr, Inhabited

/-- A runtime datum. -/
inductive Value where
  /-- A slot never written. -/
  | null
  | int (n : Int32)
  | float (x : Binary32)
  | string (s : String)
  /-- A stack slot; a negative index counts down from the frame base. -/
  | stackIndex (i : Int32)
  /-- The slot at `base` plus the integer held at `offset`. -/
  | relStackIndex (base offset : Int32)
  | instrIndex (i : Nat)
  | funcIndex (i : Nat)
  | hostCallIndex (i : Nat)
  | register (r : Register)
  /-- The top of a frame opened by a script. -/
  | callMarker (link : FrameLink)
  /-- The top of a frame opened by a synchronous call of the host. -/
  | stackBaseMarker (link : FrameLink)
deriving DecidableEq, Repr, Inhabited

/-- What a host hands to a script: the values that scripts compute with. -/
inductive HostValue where
  | int (n : Int32)
  | float (x : Binary32)
  | string (s : String)
deriving DecidableEq, Repr, Inhabited

/-- A value of the host as a script sees it. -/
def HostValue.toValue : HostValue → Value
  | int n => .int n
  | float x => .float x
  | string s => .string s

/-- The kinds of values, as error messages name them. -/
inductive Kind where
  | null | int | float | string | stackIndex | relStackIndex | instrIndex | funcIndex
  | hostCallIndex | register | callMarker | stackBaseMarker
deriving DecidableEq, Repr

/-- The name of a kind in messages. -/
def Kind.name : Kind → String
  | .null => "null"
  | .int => "int"
  | .float => "float"
  | .string => "string"
  | .stackIndex => "stack index"
  | .relStackIndex => "relative stack index"
  | .instrIndex => "instruction index"
  | .funcIndex => "function index"
  | .hostCallIndex => "host call index"
  | .register => "register"
  | .callMarker => "call marker"
  | .stackBaseMarker => "stack-base marker"

namespace Value

/-- The kind of a value. -/
def kind : Value → Kind
  | null => .null
  | int _ => .int
  | float _ => .float
  | string _ => .string
  | stackIndex _ => .stackIndex
  | relStackIndex _ _ => .relStackIndex
  | instrIndex _ => .instrIndex
  | funcIndex _ => .funcIndex
  | hostCallIndex _ => .hostCallIndex
  | register _ => .register
  | callMarker _ => .callMarker
  | stackBaseMarker _ => .stackBaseMarker

/-- Whether a value is the marker on top of a call frame. -/
def isFrameMarker : Value → Bool
  | callMarker _ | stackBaseMarker _ => true
  | _ => false

/-! ## Readings -/

/-- Singles are written with this many decimals. -/
def floatPlaces : Nat := 6

/-- The integer reading: a number loses its fraction, a text counts for the integer it starts
with, anything else is zero. -/
def toInt : Value → Int32
  | int n => n
  | float x => x.toInt32
  | string s => Text.leadingInt s
  | _ => 0

/-- The number reading: a text counts for the number it starts with. -/
def toFloat : Value → Binary32
  | int n => Binary32.ofInt n.toInt
  | float x => x
  | string s => Text.leadingFloat s
  | _ => Binary32.zero

/-- The text reading. -/
def toText : Value → String
  | int n => toString n.toInt
  | float x => x.fixed floatPlaces
  | string s => s
  | _ => ""

/-- The equality of values in which singles compare as numbers. -/
def same : Value → Value → Bool
  | float x, float y => x.sameNumber y
  | v, w => v = w

/-! ## Written form -/

/-- A value as listings and traces show it. -/
def written : Value → String
  | null => "null"
  | int n => toString n.toInt
  | float x => x.fixed floatPlaces
  | string s => Text.quoted s
  | stackIndex i => s!"[{i.toInt}]"
  | relStackIndex base offset => s!"[{base.toInt} + [{offset.toInt}]]"
  | instrIndex i => "@" ++ String.ofList (paddedDecimal 4 i)
  | funcIndex i => s!"func#{i}"
  | hostCallIndex i => s!"host#{i}"
  | register .returnValue => "_RetVal"
  | callMarker link => s!"<frame func#{link.function} base={link.callerBase}>"
  | stackBaseMarker link => s!"<stack-base func#{link.function} base={link.callerBase}>"

end Value
end ScriptMachine
