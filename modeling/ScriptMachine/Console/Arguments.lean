import ScriptMachine.Machine.Run

/-!
# Command lines

What a command line asks for. Flags are taken out wherever they stand, then options with
their values; of an option given twice the last value counts. What is left is the command and
its files.
-/

namespace ScriptMachine.Console

/-- What a command line asks for. -/
inductive Request where
  | help
  /-- Say what is wrong, and show the help if `help` is set. -/
  | complain (line : String) (help : Bool)
  | run (path : String) (config : Option String) (trace : Bool) (budget : Budget)
    (verbose : Bool)
  | inspect (path : String) (json verbose : Bool)
  | disasm (path : String)
  | check (paths : List String)
deriving DecidableEq, Repr

/-- Take an option and its value out of the arguments: the last value, if there is one, and
the other arguments. There is no answer if a value is missing. -/
def takeOption? (flag : String) : List String → Option (Option String × List String)
  | [] => some (none, [])
  | [arg] => if arg = flag then none else some (none, [arg])
  | arg :: value :: rest =>
    if arg = flag then
      (takeOption? flag rest).map fun (later, rest) => (later <|> some value, rest)
    else (takeOption? flag (value :: rest)).map fun (found, rest) => (found, arg :: rest)

/-- A number of milliseconds: decimal digits, with a plus sign or without, of 64 bits. -/
def millis? (s : String) : Option UInt64 :=
  let digits := match s.toList with
    | '+' :: rest => rest
    | cs => cs
  let n : Nat := digits.foldl (fun n d => n * 10 + (d.toNat - '0'.toNat)) 0
  if !digits.isEmpty && digits.all Char.isDigit && n < UInt64.size then
    some (UInt64.ofNat n)
  else none

/-- The usage line for an option without a value. -/
def optionUsage (flag : String) : Request :=
  .complain s!"Usage: xvm <command> {flag} <value>" false

/-- The request of a command, given what the flags and options say. -/
def command (verbose trace infinite json : Bool) (timeslice : Option UInt64)
    (config : Option String) : List String → Request
  | [] => .help
  | name :: files =>
    match name with
    | "-h" | "--help" | "help" => .help
    | "run" =>
      match files with
      | [] =>
        .complain "Usage: xvm run <file.xse> [--timeslice <ms>|--infinite] [--trace]" false
      | path :: _ =>
        let budget := match timeslice with
          | some ms => if infinite then .unlimited else .millis ms
          | none => .unlimited
        .run path config trace budget verbose
    | "inspect" =>
      match files with
      | [] => .complain "Usage: xvm inspect <file.xse> [--json]" false
      | path :: _ => .inspect path json verbose
    | "disasm" =>
      match files with
      | [] => .complain "Usage: xvm disasm <file.xse>" false
      | path :: _ => .disasm path
    | "check" =>
      match files with
      | [] => .complain "Usage: xvm check <file.xse>..." false
      | paths => .check paths
    | other => .complain ("Error: unknown command `" ++ other ++ "`") true

/-- The request of a command line, without the name of the program. -/
def Request.ofArguments (args : List String) : Request :=
  let flags := ["--verbose", "--trace", "--infinite", "--json"]
  let rest := args.filter fun arg => !flags.contains arg
  match takeOption? "--timeslice" rest with
  | none => optionUsage "--timeslice"
  | some (timeslice, rest) =>
    match timeslice, timeslice.bind millis? with
    | some _, none => .complain "Error: --timeslice expects a non-negative integer." false
    | _, ms =>
      match takeOption? "--config" rest with
      | none => optionUsage "--config"
      | some (config, rest) =>
        command (args.contains "--verbose") (args.contains "--trace") (args.contains "--infinite")
          (args.contains "--json") ms config rest

/-- The help text. -/
def helpText : String :=
  unlines [
    "XtremeScript VM",
    "",
    "Usage:",
    "  xvm run <file.xse>",
    "  xvm inspect <file.xse>",
    "  xvm disasm <file.xse>",
    "  xvm check <file.xse>...",
    "",
    "Flags:",
    "  --timeslice <ms>   Run for at most <ms> milliseconds (run)",
    "  --infinite         Run until every thread stops (run, default)",
    "  --trace            Print VM instruction trace (run)",
    "  --config <file>    Load VM limits and timeslices from JSON (run)",
    "  --json             Print the image summary as JSON (inspect)",
    "  --verbose          Log loader and scheduler activity",
    "  -h, --help         Show this help message",
    ""]

end ScriptMachine.Console
