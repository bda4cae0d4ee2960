import TailLoop.Proofs.Elimination.Conditions
import TailLoop.Proofs.Printing
import TailLoop.Proofs.Reading.Faults
import TailLoop.Proofs.Violations

/-!
# What compiling a text comes to

Every stage of the optimizer can fail in its own way, and each way but one is a problem that is
reported: syntax errors, reserved names and calls with too many arguments, and jumps without a
target. Printing does not fail, because what is printed is a program of well-formed statements. The
exception is a hexadecimal number that is too large for a double (`compile_outcome`).
-/

namespace TailLoop

open Validity

namespace Compilation

/-- A result with an output, or a failure with something to report. -/
def IsConclusive (c : Compilation) : Prop :=
  c.success = true ∧ c.output.isSome = true ∨ c.success = false ∧ c.diagnostics ≠ []

end Compilation

/-- Whether a tree is a program. -/
def Tree.isProgram : Tree → Bool
  | .node _ (.program _) => true
  | _ => false

/-- Reading a text gives a program, or an error that is reported. -/
def ReadsOrReports (file source : Text) : Prop :=
  (∃ t, Source.parse file source = .ok t ∧ t.isProgram = true) ∨
    ∃ e, Source.parse file source = .error e ∧ (e.problem? source).isSome = true

section Stages

variable {n : Elimination.Naming} {t t' : Tree}

/-- Every refusal of a well-formed tree is reported. -/
theorem isSome_problem_of_refused {checked : Bool} {c : Targets} {e : Elimination.Refusal}
    (wf : WellFormed checked c t) (refused : t.eliminateTailCalls n = .error e) :
    e.problem?.isSome = true := by
  cases Elimination.blames_of_refused wf refused with
  | reservedName | tooManyArguments => rfl

/-- The check of a tree that is well-formed with its jumps left aside fails with a violation. -/
theorem isSome_problem_of_invalid {e : CheckError} (wf : WellFormed false {} t)
    (invalid : t.validate = .error e) : e.problem?.isSome = true := by
  have jump := failsByJumps_of_wellFormed wf {} e invalid
  cases e with
  | invalid => rfl
  | malformed => cases jump

/-- A program stays one when its tail calls are eliminated. -/
theorem isProgram_of_eliminated {stats : Elimination.Stats} (wf : WellFormed false {} t)
    (program : t.isProgram = true) (eliminated : t.eliminateTailCalls n = .ok (t', stats)) :
    t'.isProgram = true := by
  cases Elimination.eliminates_of_ok wf eliminated with
  | expression kind =>
    unfold Tree.isProgram at program
    split at program
    · cases kind
    · cases program
  | statement kind =>
    unfold Tree.isProgram at program
    split at program
    · cases kind
    · cases program
  | declarator => cases program
  | program => rfl

/-- A well-formed program is printed. -/
theorem printTree_isOk (wf : WellFormed false {} t) (program : t.isProgram = true)
    (indent : Text) : ∃ output, printTree indent t = .ok output := by
  unfold Tree.isProgram at program
  split at program
  · obtain ⟨output, printed, -⟩ := Print.gives_print wf indent
    exact ⟨output, by rw [printTree, printed]; rfl⟩
  · cases program

end Stages

/-- The passes turn a well-formed program into one, or fail with something to report. -/
theorem runPasses_outcome (s : Settings) (temporary : Text.isName s.naming.temporary = true)
    (loop : Text.isName s.naming.loop = true) {t : Tree} (wf : WellFormed false {} t)
    (program : t.isProgram = true) :
    (∃ t', (runPasses s.naming s.passes t {}).1 = .ok t' ∧ WellFormed false {} t' ∧
      t'.isProgram = true) ∨
    ∃ e, (runPasses s.naming s.passes t {}).1 = .error e ∧ e.problem?.isSome = true := by
  cases eliminated : t.eliminateTailCalls s.naming with
  -- A refusal of the rewriting is a problem that is reported.
  | error refusal =>
    refine .inr ⟨.eliminating refusal, ?_, isSome_problem_of_refused wf eliminated⟩
    unfold Settings.passes
    split <;> simp only [runPasses, Pass.run, eliminated]
  | ok result =>
    obtain ⟨t', stats⟩ := result
    -- The rewritten program is well-formed but for its jumps, whether it is checked or not.
    have wf' := (Elimination.eliminates_of_ok wf eliminated).wellFormed temporary loop wf
    have program' := isProgram_of_eliminated wf program eliminated
    unfold Settings.passes
    split
    · cases checked : t'.validate with
      | ok count =>
        refine .inl ⟨t', ?_, wf', program'⟩
        simp only [runPasses, Pass.run, eliminated, checked]
      -- What the check refuses is reported, too.
      | error e =>
        refine .inr ⟨.checking e, ?_, isSome_problem_of_invalid wf' checked⟩
        simp only [runPasses, Pass.run, eliminated, checked]
    · refine .inl ⟨t', ?_, wf', program'⟩
      simp only [runPasses, Pass.run, eliminated]

/-- Reading a text with a file name and compiling it always ends with a result or with something to
report, whatever the text is and whether or not the result of elimination is checked. Only a
hexadecimal number that is too large for a double is an error that nothing reports. -/
theorem compile_outcome {s : Settings} (temporary : Text.isName s.naming.temporary = true)
    (loop : Text.isName s.naming.loop = true) {file : Text} (named : file ≠ []) (source : Text) :
    (ReadsOrReports file source ∧ ∃ c, compile s file source = .ok c ∧ c.IsConclusive) ∨
      Source.parse file source = .error .numberTooLarge ∧
        compile s file source = .error (.reading source .numberTooLarge) ∧
        Source.HoldsOversized source := by
  unfold compile optimizeTree readProgram
  cases read : Source.parse file source with
  -- The text is no program, for one of three reasons.
  | error e =>
    rcases Source.error_of_parse read with syntactic | ⟨-, nowhere⟩ | ⟨rfl, oversized⟩
    · have reported : e.problem? source = some _ := if_pos syntactic
      refine .inl ⟨.inr ⟨e, read, by rw [reported]; rfl⟩, ?_⟩
      simp only [Except.mapError, Failure.problem?, reported]
      exact ⟨_, rfl, .inr ⟨rfl, List.cons_ne_nil _ _⟩⟩
    · exact (named nowhere).elim
    · exact .inr ⟨rfl, rfl, oversized⟩
  | ok t =>
    -- The program is well-formed but for its jumps, so that the passes end properly.
    have wf := Source.parse_wellFormed read {}
    have program : t.isProgram = true := by
      obtain ⟨l, _⟩ := Source.isProgram_of_parse read
      rfl
    refine .inl ⟨.inl ⟨t, read, program⟩, ?_⟩
    simp only [Except.mapError]
    rcases runPasses_outcome s temporary loop wf program with
      ⟨t', passed, wf', program'⟩ | ⟨e, failed, reported⟩
    -- What the passes return can be printed.
    · obtain ⟨output, printed⟩ := printTree_isOk wf' program' s.indent
      simp only [passed, printed]
      exact ⟨_, rfl, .inl ⟨rfl, rfl⟩⟩
    · obtain ⟨p, problem⟩ := Option.isSome_iff_exists.mp reported
      simp only [failed, problem]
      exact ⟨_, rfl, .inr ⟨rfl, List.cons_ne_nil _ _⟩⟩

/-- An empty statement holds no hexadecimal number, so that compiling it comes to a result. -/
theorem compile_outcome_emptyStatement :
    Text.isName ({} : Settings).naming.temporary = true ∧
      Text.isName ({} : Settings).naming.loop = true ∧ defaultFile ≠ [] ∧
      ReadsOrReports defaultFile ";" ∧ ∃ c, compile {} defaultFile ";" = .ok c ∧ c.IsConclusive := by
  have temporary : Text.isName ({} : Settings).naming.temporary = true := by decide
  have loop : Text.isName ({} : Settings).naming.loop = true := by decide
  have named : defaultFile ≠ [] := by decide
  refine ⟨temporary, loop, named, ?_⟩
  rcases compile_outcome temporary loop named ";" with
    outcome | ⟨-, -, rest, n, k, inside, hex, -⟩
  · exact outcome
  · -- Neither the text nor the end of it begins a number.
    rcases List.suffix_cons_iff.mp inside with rfl | none
    · cases hex
    · cases List.suffix_nil.mp none
      cases hex

end TailLoop
