import TailLoop.Proofs.Elimination.Legibility
import TailLoop.Proofs.Reading.Exactness

/-!
# The output of the optimizer is source again

What the optimizer prints for a program is read as a program with the same text
(`optimizeSource_settles`), unless names of the program are keywords or numbers of it are not read
back from their text. The reader takes a keyword for a name where no keyword can stand; names that
are declared or passed to a function move from there to the start of a statement, where keywords do
stand.
-/

namespace TailLoop

open Elimination Print Validity

/-- What the passes give is what elimination makes of the program, if the check accepts it where the
result is checked. -/
theorem runPasses_ok {s : Settings} {t t' : Tree} :
    (runPasses s.naming s.passes t {}).1 = .ok t' ↔
      ∃ stats, t.eliminateTailCalls s.naming = .ok (t', stats) ∧
        (s.validates = true → ∃ n, t'.validate = .ok n) := by
  unfold Settings.passes
  cases eliminated : t.eliminateTailCalls s.naming with
  | error refusal =>
    split <;> simp only [runPasses, Pass.run, eliminated] <;> exact ⟨nofun, nofun⟩
  | ok result =>
    obtain ⟨r, stats⟩ := result
    split
    · rename_i validates
      cases checked : r.validate with
      | error e =>
        simp only [runPasses, Pass.run, eliminated, checked]
        refine ⟨nofun, ?_⟩
        rintro ⟨_, same, valid⟩
        cases same
        obtain ⟨n, accepted⟩ := valid validates
        cases checked.symm.trans accepted
      | ok n =>
        simp only [runPasses, Pass.run, eliminated, checked]
        constructor
        · rintro ⟨⟩
          exact ⟨stats, rfl, fun _ => ⟨n, checked⟩⟩
        · rintro ⟨_, ⟨⟩, -⟩
          rfl
    · rename_i unchecked
      simp only [runPasses, Pass.run, eliminated]
      constructor
      · rintro ⟨⟩
        exact ⟨stats, rfl, fun validates => (unchecked validates).elim⟩
      · rintro ⟨_, ⟨⟩, -⟩
        rfl

/-- The optimizer gives the text of what elimination makes of the program that it reads, if the
check accepts it where the result is checked. -/
theorem optimizeSource_ok {s : Settings} {file source output : Text} :
    optimizeSource s file source = .ok output ↔ ∃ t t' stats, Source.parse file source = .ok t ∧
      t.eliminateTailCalls s.naming = .ok (t', stats) ∧
      (s.validates = true → ∃ n, t'.validate = .ok n) ∧ t'.print s.indent = .ok output := by
  have printed (t : Tree) : printTree s.indent t = .ok output ↔ t.print s.indent = .ok output := by
    unfold printTree
    cases t.print s.indent with
    | error e => exact ⟨nofun, nofun⟩
    | ok text => exact ⟨fun h => congrArg Except.ok (Except.ok.inj h), congrArg _⟩
  unfold optimizeSource optimizeTree readProgram
  cases read : Source.parse file source with
  | error error => exact ⟨nofun, nofun⟩
  | ok t =>
    simp only [Except.mapError]
    constructor
    · intro h
      obtain ⟨t', passed, written⟩ := bind_ok.mp h
      obtain ⟨stats, eliminated, valid⟩ := runPasses_ok.mp passed
      exact ⟨t, t', stats, rfl, eliminated, valid, (printed t').mp written⟩
    · rintro ⟨t, t', stats, same, eliminated, valid, written⟩
      cases same
      exact bind_ok.mpr ⟨t', runPasses_ok.mpr ⟨stats, eliminated, valid⟩, (printed t').mpr written⟩

/-- What the optimizer gives for a program whose names are no keywords and whose numbers are read
back from their texts is source again: it is read as a program whose text it is. -/
theorem optimizeSource_settles {s : Settings} {file file' source output : Text} {t : Tree}
    (naming : s.naming.IsFree) (white : IsWhite s.indent) (named : file' ≠ [])
    (read : Source.parse file source = .ok t) (legible : t.Legible)
    (optimized : optimizeSource s file source = .ok output) :
    ∃ u, Source.parse file' output = .ok u ∧ u.print s.indent = .ok output := by
  obtain ⟨t, t', stats, read', eliminated, -, printed⟩ := optimizeSource_ok.mp optimized
  cases read.symm.trans read'
  -- The program is well-formed, and all its nodes are read as what they are.
  have wf := Source.parse_wellFormed read {}
  have readable : Readable t :=
    ⟨Tree.writable_iff.mpr ⟨legible, Source.exact_of_parse read⟩, wf.all⟩
  -- So is what elimination makes of it, once single assignments are unwrapped.
  have eliminates := eliminates_of_ok wf eliminated
  have wf' := eliminates.wellFormed naming.temporary (isName_of_isFree naming.loop) wf
  obtain ⟨l, _⟩ := Source.isProgram_of_parse read
  obtain ⟨legible', exact'⟩ := Tree.writable_iff.mp (eliminates.writable naming readable)
  cases eliminates with
  | expression kind => cases kind
  | statement kind => cases kind
  | program =>
    obtain ⟨text, u, printed', read, settled⟩ := print_settles named white wf' legible' exact'
    cases printed.symm.trans printed'
    exact ⟨u, read, settled⟩

/-! ## A function that calls itself -/

section CallsItself

variable (place : Nat → Option Location)

/-- A function whose parameter is the next argument in each call, with the given places. -/
def callsItself : Tree :=
  .node (place 0) (.program (.tuple [.node (place 1) (.function .declaration
    (.node (place 2) (.identifier (.text "f"))) (.tuple [.node (place 3) (.identifier (.text "a"))])
    (.node (place 4) (.block (.tuple [.node (place 5) (.returnStatement (.node (place 6) (.call
      (.node (place 7) (.identifier (.text "f")))
      (.tuple [.node (place 8) (.identifier (.text "b"))]))))]))))]))

/-- What becomes of this function: the parameter stands at the start of a statement. -/
def callsItselfNoMore : Tree :=
  .node (place 0) (.program (.tuple [.node (place 1) (.function .declaration
    (.node (place 2) (.identifier (.text "f"))) (.tuple [.node (place 3) (.identifier (.text "a"))])
    (.node (place 4) (.block (.tuple [loopAround {} [] [
      .new (.expressionStatement (.assign "a" (.node (place 8) (.identifier (.text "b"))))),
      jumpBack {}]]))))]))

/-- The text of the function. -/
def callsItselfText : Text := "function f(a) \x7b\n    return f(b);\n\x7d"

/-- The text of what becomes of it. -/
def callsItselfNoMoreText : Text :=
  "function f(a) \x7b\n    _tailCall_: while (true) \x7b\n        a = b;\n" ++
  "        continue _tailCall_;\n        return;\n    \x7d\n\x7d"

/-- The names of the function are no keywords. -/
theorem legible_callsItself : (callsItself place).Legible := by
  have all : (callsItself place).nodes.all (fun u => u.isLegible && u.readsBack) = true := rfl
  exact fun u hu => Bool.and_eq_true_iff.mp (List.all_eq_true.mp all u hu)

/-- The function is one well-formed statement. -/
theorem wellFormed_callsItself : WellFormed true {} (callsItself place) := by
  have valid : (callsItself place).validate = .ok 9 := rfl
  have flags : (callsItself place).nodes.all (·.flagIsBoolean) = true := rfl
  exact wellFormed_of_validate valid (List.all_eq_true.mp flags)

/-- The function becomes a loop. -/
theorem eliminated_callsItself : ∃ stats,
    (callsItself place).eliminateTailCalls {} = .ok (callsItselfNoMore place, stats) := ⟨_, rfl⟩

/-- The loop is valid. -/
theorem validate_callsItselfNoMore : (callsItselfNoMore place).validate = .ok 17 := rfl

/-- The text of the function. -/
theorem print_callsItself : (callsItself place).print defaultIndent = .ok callsItselfText := by
  rfl

set_option maxRecDepth 2000 in
/-- The text of the loop. -/
theorem print_callsItselfNoMore :
    (callsItselfNoMore place).print defaultIndent = .ok callsItselfNoMoreText := by
  rfl

variable {place}

/-- What is the same as the function is the function in other places. -/
theorem callsItself_of_same {t : Tree} (h : (callsItself place).same t = true) :
    ∃ place', t = callsItself place' := by
  -- Each tree of the same form has nodes of the same kinds, so that only locations are free.
  obtain ⟨program, us, rfl, items⟩ := Tree.program_of_same h
  match us, items with
  | [_], .cons whole .nil =>
    obtain ⟨function, _, _, _, rfl, name, params, body⟩ := Tree.function_of_same whole
    obtain ⟨f, rfl⟩ := Tree.identifier_of_same name
    obtain ⟨us, rfl, names⟩ := Tree.tuple_of_same params
    obtain ⟨block, us', rfl, statements⟩ := Tree.block_of_same body
    match us, names, us', statements with
    | [_], .cons param .nil, [_], .cons statement .nil =>
      obtain ⟨a, rfl⟩ := Tree.identifier_of_same param
      obtain ⟨result, _, rfl, returned⟩ := Tree.returnStatement_of_same statement
      obtain ⟨call, _, us, rfl, callee, arguments⟩ := Tree.call_of_same returned
      obtain ⟨g, rfl⟩ := Tree.identifier_of_same callee
      match us, arguments with
      | [_], .cons argument .nil =>
        obtain ⟨b, rfl⟩ := Tree.identifier_of_same argument
        exact ⟨fun i => [program, function, f, a, block, result, call, g, b].getD i none, rfl⟩

/-- The text is read as the function. -/
theorem parse_callsItselfText : ∃ place,
    Source.parse defaultFile callsItselfText = .ok (callsItself place) := by
  have named : defaultFile ≠ [] := by decide
  have white : IsWhite defaultIndent := by decide
  have legible := legible_callsItself fun _ => none
  have wf := wellFormed_callsItself fun _ => none
  obtain ⟨text, t, printed, read, reads⟩ := print_reads named white wf legible
  have written : text = callsItselfText :=
    Except.ok.inj (printed.symm.trans (print_callsItself fun _ => none))
  have same : (callsItself fun _ => none).same t = true := reads.same
  obtain ⟨place, rfl⟩ := callsItself_of_same same
  exact ⟨place, written ▸ read⟩

end CallsItself

/-- The optimizer makes a loop of this function, and the text of the loop is source again. -/
theorem optimizeSource_settles_callsItself :
    ({} : Settings).naming.IsFree ∧ IsWhite ({} : Settings).indent ∧ defaultFile ≠ [] ∧
    ∃ t, Source.parse defaultFile callsItselfText = .ok t ∧ t.Legible ∧
      optimizeSource {} defaultFile callsItselfText = .ok callsItselfNoMoreText ∧
      ∃ u, Source.parse defaultFile callsItselfNoMoreText = .ok u ∧
        u.print ({} : Settings).indent = .ok callsItselfNoMoreText := by
  have naming : ({} : Settings).naming.IsFree := Naming.isFree_default
  have white : IsWhite ({} : Settings).indent := by decide
  have named : defaultFile ≠ [] := by decide
  obtain ⟨place, read⟩ := parse_callsItselfText
  have legible := legible_callsItself place
  obtain ⟨stats, eliminated⟩ := eliminated_callsItself place
  have optimized : optimizeSource {} defaultFile callsItselfText = .ok callsItselfNoMoreText :=
    optimizeSource_ok.mpr ⟨_, _, stats, read, eliminated,
      fun _ => ⟨_, validate_callsItselfNoMore place⟩, print_callsItselfNoMore place⟩
  exact ⟨naming, white, named, _, read, legible, optimized,
    optimizeSource_settles naming white named read legible optimized⟩

end TailLoop
