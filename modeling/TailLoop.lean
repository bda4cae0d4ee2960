import TailLoop.Main
import TailLoop.Walker
import TailLoop.Proofs.Elimination.Hygiene
import TailLoop.Proofs.Simulation.Programs
import TailLoop.Proofs.Interpreter.JumpSafety
import TailLoop.Proofs.Interpreter.SelfCalls
import TailLoop.Proofs.Violations
import TailLoop.Proofs.Elimination.Conversions
import TailLoop.Proofs.Verdicts
import TailLoop.Proofs.Outcomes
import TailLoop.Proofs.Interpreter.Limits
import TailLoop.Proofs.Faults
import TailLoop.Proofs.Simulation.Splitting
import TailLoop.Proofs.Interpreter.Environments
import TailLoop.Proofs.Interpreter.Modes
import TailLoop.Proofs.Simulation.Rebinding
import TailLoop.Proofs.Interpreter.Builtins
import TailLoop.Proofs.Interpreter.Targets
import TailLoop.Proofs.Interpreter.Bits
import TailLoop.Proofs.Interpreter.Equality
import TailLoop.Proofs.Reading.Spans
import TailLoop.Proofs.Dump.Programs
import TailLoop.Proofs.RoundTrip.Outputs
import TailLoop.Proofs.Reading.Strings
import TailLoop.Proofs.Flattening
