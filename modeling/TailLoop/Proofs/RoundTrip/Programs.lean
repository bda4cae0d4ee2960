import TailLoop.Pipeline
import TailLoop.Proofs.RoundTrip.Rendering

/-!
# Printed programs are read back

What is printed for a legible program that is accepted by validation is read as the program, with
braces around the consequents that would take the `else` after them and with other locations
(`parse_print`). The indentation may be any white space.
-/

namespace TailLoop

namespace Print

open Source

variable {indent : Text} {ts : List Tree}

/-- The statements of a program are printed one by one. -/
theorem gives_spelledStatements (parts : ∀ s ∈ ts, RendersStatement indent s) :
    Gives (ts.mapM (visit indent 0)) fun printed => ∃ xs : List Text,
      printed = xs.map Printed.statement ∧ List.Forall₂ IsLineOf xs (ts.map Tree.braced) := by
  induction ts with
  | nil => exact gives_ok ⟨[], rfl, .nil⟩
  | cons s rest ih =>
    rw [List.forall_mem_cons] at parts
    rw [List.mapM_cons]
    refine gives_bind (parts.1 0) ?_
    rintro _ ⟨x, rfl, spelled⟩
    refine gives_bind (ih parts.2) ?_
    rintro _ ⟨xs, rfl, others⟩
    exact gives_ok ⟨x :: xs, rfl, .cons ⟨_, spelled⟩ others⟩

/-- Statements in a row are written as their lines. -/
theorem mapM_line (xs : List Text) : (xs.map Printed.statement).mapM Printed.line = .ok xs := by
  induction xs with
  | nil => rfl
  | cons x xs ih =>
    rw [List.map_cons, List.mapM_cons, ih]
    rfl

/-- Lines of statements are read as the program of the statements. -/
theorem parse_lines {file : Text} {l : Option Location} {xs : List Text} (named : file ≠ [])
    (lines : List.Forall₂ IsLineOf xs ts) : ∃ u,
      parse file (Text.join [Text.newline] xs) = .ok u ∧
        (Tree.node l (.program (.tuple ts))).ReadAs u := by
  cases lines with
  | nil => exact parse_nil named
  | cons first others =>
    obtain ⟨isOpen, spelled⟩ := spells_lines (.cons first others)
    exact parse_of_spells named
      (spelled.make produces_program rfl)

end Print

open Print Validity

/-- A legible program that is well-formed is printed, and read from its text as the program with
braces around the consequents that would take the `else` after them. -/
theorem print_reads {file indent : Text} {l : Option Location} {body : Tree} {checked : Bool}
    {c : Targets} (named : file ≠ []) (white : IsWhite indent)
    (wf : WellFormed checked c (.node l (.program body)))
    (legible : (Tree.node l (.program body)).Legible) :
    ∃ text u, (Tree.node l (.program body)).print indent = .ok text ∧
      Source.parse file text = .ok u ∧ (Tree.node l (.program body)).braced.ReadAs u := by
  cases wf with
  | @program _ _ ss kinds parts =>
    have row : (Tree.tuple ss).Legible := legible.child (.head _)
    -- Each statement is written in a way that the grammar reads as it.
    obtain ⟨_, written, xs, rfl, lines⟩ := gives_spelledStatements fun s hs =>
      (renders_of_wellFormed white (parts s hs) (row.item hs)).statement (kinds s hs)
    have printed : (Tree.node l (.program (.tuple ss))).print indent =
        .ok (Text.join [Text.newline] xs) := by
      have items : Fault.whilePrinting (Tree.tuple ss).items = .ok ss := rfl
      rw [Tree.print, Tree.written, items]
      change ((ss.mapM (visit indent 0) >>= fun printed => printed.mapM Printed.line >>= _).map _) = _
      rw [written]
      change (((xs.map Printed.statement).mapM Printed.line >>= _).map _) = _
      rw [mapM_line]
      rfl
    -- The lines together are the text of the program.
    obtain ⟨u, read, same⟩ := parse_lines (l := l) named lines
    refine ⟨_, u, printed, read, ?_⟩
    rw [Tree.braced_node (fun other => by cases other), Shape.map, Tree.braced_tuple]
    exact same

/-- A legible program that is accepted is read back from its text, with braces around the consequents
that would take the `else` after them. -/
theorem parse_print {file indent : Text} {l : Option Location} {body : Tree} {n : Nat}
    (named : file ≠ []) (white : IsWhite indent)
    (valid : (Tree.node l (.program body)).validate = .ok n)
    (flags : (Tree.node l (.program body)).FlagsAreBoolean)
    (legible : (Tree.node l (.program body)).Legible) :
    ∃ text u, (Tree.node l (.program body)).print indent = .ok text ∧
      Source.parse file text = .ok u ∧ (Tree.node l (.program body)).braced.same u = true := by
  obtain ⟨text, u, printed, read, reads⟩ :=
    print_reads named white (wellFormed_of_validate valid flags) legible
  exact ⟨text, u, printed, read, reads.same⟩

/-- A condition whose consequent is one without `else` and would take the `else` after it. -/
def danglingElse : Tree :=
  .new (.program (.tuple [.new (.ifStatement (.identifier "a")
    (.new (.ifStatement (.identifier "b") (.new .emptyStatement) .null))
    (.new (.expressionStatement (.new (.unary (.text "-") (.new (.literal (.int 1)))
      (.bool true))))))]))

/-- The program is read back with braces around the inner condition. -/
theorem parse_print_danglingElse : defaultFile ≠ [] ∧ IsWhite defaultIndent ∧
    danglingElse.validate = .ok 9 ∧ danglingElse.FlagsAreBoolean ∧ danglingElse.Legible ∧
    danglingElse.same danglingElse.braced = false ∧
    ∃ text u, danglingElse.print defaultIndent = .ok text ∧ Source.parse defaultFile text = .ok u ∧
      danglingElse.braced.same u = true := by
  have named : defaultFile ≠ [] := by decide
  have white : IsWhite defaultIndent := by decide
  have valid : danglingElse.validate = .ok 9 := rfl
  have flags : danglingElse.FlagsAreBoolean := by decide
  have legible : danglingElse.Legible := by decide +kernel
  exact ⟨named, white, valid, flags, legible, rfl, parse_print named white valid flags legible⟩

end TailLoop
