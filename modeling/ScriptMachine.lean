import ScriptMachine.Executable.Writer
import ScriptMachine.Image.Builder
import ScriptMachine.Main
import ScriptMachine.Proofs.Completion
import ScriptMachine.Proofs.Framing
import ScriptMachine.Proofs.Grammar
import ScriptMachine.Proofs.HostFaults
import ScriptMachine.Proofs.Interleaving
import ScriptMachine.Proofs.Isolation
import ScriptMachine.Proofs.NestedCalls
import ScriptMachine.Proofs.Reachable
import ScriptMachine.Proofs.Registries
import ScriptMachine.Proofs.Reencoding
import ScriptMachine.Proofs.RoundTrip
import ScriptMachine.Proofs.Decoding
import ScriptMachine.Proofs.LoadPaths
import ScriptMachine.Proofs.Timeline
import ScriptMachine.Proofs.Turns
import ScriptMachine.Proofs.Alternation
import ScriptMachine.Proofs.Cycles
import ScriptMachine.Proofs.Timeslices
import ScriptMachine.Proofs.Atomicity
import ScriptMachine.Proofs.Pauses
import ScriptMachine.Proofs.Scoping
import ScriptMachine.Proofs.Effects
import ScriptMachine.Proofs.Budgets
import ScriptMachine.Proofs.Durations
import ScriptMachine.Proofs.SelfDelimiting
import ScriptMachine.Proofs.Addressing
import ScriptMachine.Proofs.Assembly
import ScriptMachine.Proofs.Resets
import ScriptMachine.Proofs.Integers
import ScriptMachine.Proofs.Decimals
import ScriptMachine.Proofs.Interning
import ScriptMachine.Proofs.Tracing
