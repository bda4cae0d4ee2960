import TailLoop.Proofs.Dump.Faithful
import TailLoop.Proofs.Reading.Faults
import TailLoop.Proofs.Reading.Programs
import TailLoop.Proofs.RoundTrip.Programs

/-!
# Dumps of programs

What reading gives is made of parts that dumps have a notation for (`dumped_of_parse`), so dumps of
programs tell them apart (`dump_eq_iff_of_parse`). The rules of the grammar make no other parts. A
number token has no sign, and neither has the number that it denotes, so there is only one zero.
-/

namespace TailLoop

/-! ## Numbers of tokens -/

namespace Double

/-- The sign of a double from its parts. -/
theorem isSigned_ofParts (s : Bool) (m : Nat) (e : Int) : (ofParts s m e).isSigned = s := by
  unfold ofParts
  split <;> rfl

/-- Rounding keeps the sign. -/
theorem isSigned_round (s : Bool) (n : Nat) (e : Int) : (round s n e).isSigned = s := by
  unfold round
  dsimp only
  split_ifs
  · rfl
  all_goals exact isSigned_ofParts _ _ _

/-- A decimal keeps its sign. -/
theorem isSigned_ofDecimal (s : Bool) (digits : Nat) (e : Int) :
    (ofDecimal s digits e).isSigned = s := by
  unfold ofDecimal ofRatio
  dsimp only
  split_ifs
  all_goals first
    | rfl
    | exact isSigned_round _ _ _

/-- A numeral denotes a number of the sign that it is given. -/
theorem isSigned_unsigned? {s : Bool} {t : Text} {d : Double} (h : unsigned? s t = some d) :
    d.isSigned = s := by
  have last {p : Prop} [Decidable p] {digits : Nat} {count : Int} {power : Option Int}
      (h : (if p then none else power.map fun e => ofDecimal s digits (e - count)) = some d) :
      d.isSigned = s := by
    obtain ⟨-, h⟩ := Option.ite_none_left_eq_some.mp h
    obtain ⟨e, -, rfl⟩ := Option.map_eq_some_iff.mp h
    exact isSigned_ofDecimal _ _ _
  unfold unsigned? at h
  dsimp only at h
  split at h
  · split at h
    · exact last h
    · exact last h
  · exact last h

end Double

namespace Source

open Grammar TailLoop.Tree

/-- The number of a number token has no sign. -/
theorem isSigned_number {t : Text} {n : Nat} {d : Double} (cut : numberLength? t = some n)
    (denotes : Literal.number (t.take n) = .ok d) : d.isSigned = false := by
  unfold numberLength? at cut
  unfold Literal.number at denotes
  cases hex : hexLength? t with
  | some m =>
    rw [hex, Option.some_or] at cut
    cases cut
    obtain ⟨marked, digits, -⟩ := hex_take hex
    rw [if_pos marked] at denotes
    -- Digits have no sign in front, so that the integer is not negative.
    have natural {k : Int} (value : Double.hexInteger? ((t.take n).drop 2) = some k) : 0 ≤ k := by
      unfold Double.hexInteger? at value
      rw [unpad_eq (isPadding_hexDigits digits), splitSign_hexDigits digits] at value
      dsimp only at value
      split at value
      · obtain ⟨-, value⟩ := Option.ite_none_left_eq_some.mp value
        cases value
        exact Int.natCast_nonneg _
      · cases value
    split at denotes
    · rename_i k value
      split at denotes
      · rename_i d' known
        cases denotes
        -- Rounding keeps the sign.
        have sign : (Double.ofInt k).isSigned = false := by
          rw [Double.ofInt, Double.isSigned_round, decide_eq_false_iff_not]
          have := natural value
          omega
        unfold Double.ofInt? at known
        split at known
        · cases known
        · cases known
          exact sign
      · cases denotes
    · cases denotes
  | none =>
    rw [hex, Option.none_or] at cut
    obtain ⟨m, length, rfl⟩ := Option.map_eq_some_iff.mp cut
    -- A decimal numeral has no sign in front either.
    have numeral := decimalNumeral_take length
    rw [hasHexMark_numeral numeral, if_neg Bool.false_ne_true] at denotes
    split at denotes
    · rename_i d' value
      cases denotes
      unfold Double.ofText? at value
      rw [unpad_eq (isPadding_numeral numeral), splitSign_numeral numeral] at value
      dsimp only at value
      split_ifs at value
      · cases value
        rfl
      · cases value
        rfl
      · exact Double.isSigned_unsigned? value
    · cases denotes

/-! ## What rules make -/

/-- Contents whose trees dumps have a notation for. -/
def Shown : Content → Prop
  | .token _ => True
  | .tree t => Dumped t
  | .trees ts => ∀ t ∈ ts, Dumped t

section Parts

variable {ps : Parts}

/-- The tree at an index is dumped, if all parts are. -/
theorem dumped_tree (shown : ∀ p ∈ ps, Shown p.content) (i : Nat) : Dumped (ps.tree i) := by
  unfold Parts.tree
  split
  · rename_i t l found
    exact shown _ (List.mem_of_getElem? found)
  · exact .atom .null

/-- The trees at an index are dumped, if all parts are. -/
theorem dumped_trees (shown : ∀ p ∈ ps, Shown p.content) (i : Nat) : ∀ t ∈ ps.trees i, Dumped t := by
  unfold Parts.trees
  split
  · rename_i ts l found
    exact shown _ (List.mem_of_getElem? found)
  · exact nofun

/-- The row at an index is dumped, if all parts are. -/
theorem dumped_row (shown : ∀ p ∈ ps, Shown p.content) (i : Nat) : Dumped (ps.row i) :=
  .tuple (dumped_trees shown i)

/-- The empty row is dumped. -/
theorem dumped_emptyRow : Dumped emptyRow := by
  show Dumped (.tuple [])
  exact .tuple nofun

/-- The row of the variable that a loop declares. -/
theorem dumped_binding (ps : Parts) (i : Nat) :
    Dumped (.tuple [ps.nodeAt i (.variableDeclarator (ps.name i) absent)]) :=
  .tuple (List.forall_mem_singleton.mpr (.node _ rfl (List.forall_mem_cons.mpr
    ⟨.identifier _ _, List.forall_mem_singleton.mpr (.atom .null)⟩)))

end Parts

/-- A production whose rule makes from shown parts, tokens among them, a shown content. -/
def Shows (source : Text) (p : Production) : Prop :=
  ∀ file parts result,
    List.Forall₂ (fun X (part : Part) => IsTokenOf source X part.content ∧ Shown part.content)
      p.symbols parts →
    content file p.rule parts = .ok result → Shown result

section Rules

variable {source : Text} {phrase : Phrase} {symbols : List Symbol}

/-- The parts of a phrase are shown, if each of them is. -/
theorem shown_parts {parts : Parts} (fitting : List.Forall₂
    (fun X (part : Part) => IsTokenOf source X part.content ∧ Shown part.content) symbols parts) :
    ∀ p ∈ parts, Shown p.content := by
  induction fitting with
  | nil => exact nofun
  | cons first _ ih => exact List.forall_mem_cons.mpr ⟨first.2, ih⟩

/-- A rule that keeps a part shows what the part does. -/
theorem shows_keep {i : Nat} : Shows source ⟨phrase, symbols, .keep i⟩ := by
  intro file parts result fitting made
  cases made
  cases found : parts[i]? with
  | none => exact Dumped.atom .null
  | some p => exact shown_parts fitting p (List.mem_of_getElem? found)

/-- A rule that gathers trees shows their row. -/
theorem shows_gather {trees : Parts → List Tree}
    (shown : ∀ ps : Parts, (∀ p ∈ ps, Shown p.content) → ∀ t ∈ trees ps, Dumped t) :
    Shows source (derive phrase symbols (.gather trees)) := by
  intro file parts result fitting made
  cases made
  exact shown parts (shown_parts fitting)

/-- A rule that makes a node shows it. -/
theorem shows_make {name : Text} {shape : Parts → Shape Tree}
    (shown : ∀ ps : Parts, (∀ p ∈ ps, Shown p.content) → ∀ l, Dumped (.node l (shape ps))) :
    Shows source (derive phrase symbols (.make name shape)) := by
  intro file parts result fitting made
  change (if file = [] then _ else _) = _ at made
  split at made
  · cases made
  · cases made
    exact shown parts (shown_parts fitting) _

/-- A rule that checks its target shows its node. -/
theorem shows_checked {name : Text} {target : Nat} {role : Parts → Text} {shape : Parts → Shape Tree}
    (shown : ∀ ps : Parts, (∀ p ∈ ps, Shown p.content) → ∀ l, Dumped (.node l (shape ps))) :
    Shows source (derive phrase symbols (.makeChecked name target role shape)) := by
  intro file parts result fitting made
  rw [derive, Rule.makeChecked, content] at made
  split at made
  · cases made
  · rename_i result' built
    split at built
    · cases built
      split at made
      · cases made
      · cases made
        exact shown parts (shown_parts fitting) _
    · cases built

/-- A rule for a loop over a collection shows its node. -/
theorem shows_forEach {name : Text} {domain : Domain} :
    Shows source (derive phrase symbols (.makeForEach name domain)) := by
  intro file parts result fitting made
  have shown := shown_parts fitting
  rw [derive, Rule.makeForEach, content] at made
  split at made
  · cases made
  · rename_i result' built
    dsimp only at built
    split at built
    · cases built
      split at made
      · cases made
      · cases made
        -- The loop shows its target, its source and its body.
        refine Dumped.node _ rfl ?_
        exact List.forall_mem_cons.mpr ⟨dumped_tree shown 2, List.forall_mem_cons.mpr
          ⟨dumped_tree shown 4, List.forall_mem_singleton.mpr (dumped_tree shown 6)⟩⟩
    · cases built

/-- A rule for a token shows its node. -/
theorem shows_leaf {terminal : Terminal} {shape : Parts → Shape Tree}
    (leaf : ∀ l ps, Dumped (.node l (shape ps))) :
    Shows source (derive phrase [terminal] (.plain fun ps =>
      .ok (.tree (ps.nodeAt 0 (shape ps))))) := by
  intro file parts result _ made
  cases made
  exact leaf _ parts

/-- A number token is a literal of a number without a sign. -/
theorem shows_number : Shows source (derive .primary [Terminal.number] (.plain numberContent)) := by
  intro file parts result fitting made
  cases fitting with
  | @cons _ part _ _ token rest =>
    cases rest
    obtain ⟨c, l⟩ := part
    cases c with
    | token s =>
      obtain ⟨⟨allowed, rest, n, inside, matched, rfl⟩, -⟩ := token
      change (numberContent _).mapError ofRefusal = _ at made
      unfold numberContent at made
      split at made
      · rename_i d value
        cases made
        exact Dumped.literal _ (.num (isSigned_number (numberLength_of_match matched) value))
      · cases made
    | _ => cases token.1

end Rules

/-- Every production shows what it makes. -/
theorem shows_productions (source : Text) : ∀ p ∈ productions, Shows source p := by
  simp only [productions, structureProductions, statementProductions, controlProductions,
    simpleProductions, binaryProductions, expressionProductions, primaryProductions,
    signProductions, operands, oneOf, List.forall_mem_append, List.forall_mem_cons,
    List.forall_mem_map, List.not_mem_nil, false_implies, implies_true, and_true]
  and_intros
  all_goals first
    | exact shows_keep
    | exact fun sign known => shows_keep
    | exact shows_number
    | exact shows_forEach
    | exact shows_leaf fun l ps => .identifier l _
    | exact shows_leaf fun l ps => .literal l (.atom (.text _))
    | exact shows_make fun ps shown l => .literal l (.atom (.bool _))
    | exact shows_make fun ps shown l => .literal l (.atom .null)
    | refine shows_make fun ps shown l => .node l rfl ?_
    | refine shows_gather fun ps shown => ?_
    | refine shows_checked fun ps shown l => .node l rfl ?_
  -- What is left are the fields of each node and the trees of each row.
  all_goals simp only [Shape.parts, Shape.children, declared, List.map_cons, List.map_nil,
    List.forall_mem_append, List.forall_mem_cons, List.not_mem_nil, false_implies,
      implies_true, and_true]
  all_goals and_intros
  all_goals first
    | exact dumped_tree shown _
    | exact dumped_row shown _
    | exact dumped_trees shown _
    | exact .identifier _ _
    | exact .atom (.text _)
    | exact .atom (.bool _)
    | exact .atom .null
    | exact dumped_emptyRow
    | exact dumped_binding _ _
    | exact .tuple (List.forall_mem_cons.mpr ⟨dumped_tree shown _, dumped_trees shown _⟩)

/-! ## Programs -/

/-- The reader keeps that contents can be shown. -/
theorem keptByReading_shown (source : Text) :
    KeptByReading source fun X c => Fits X c ∧ IsTokenOf source X c ∧ Shown c where
  token allowed t terminal n inside matched :=
    ⟨(keptByReading_fits source).token allowed t terminal n inside matched,
      (keptByReading_tokens source).token allowed t terminal n inside matched, trivial⟩
  phrase p known file parts result fitting made :=
    ⟨(keptByReading_fits source).phrase p known file parts result
        (fitting.imp fun _ _ h => h.1) made, trivial,
      shows_productions source p known file parts result (fitting.imp fun _ _ h => h.2) made⟩

variable {file file' source source' : Text} {t u : Tree}

/-- What a text is read as is made of parts that dumps have a notation for. -/
theorem dumped_of_parse (h : parse file source = .ok t) : Dumped t := by
  obtain ⟨c, ⟨fits, -, shown⟩, same⟩ := (keptByReading_shown source).of_parse h
  cases c with
  | tree u =>
    rw [same u rfl]
    exact shown
  | _ => cases fits

/-- Programs that were read have dumps in both forms, and two of them have the same dump, without
locations, exactly when they are the same but for their locations. -/
theorem dump_eq_iff_of_parse (ht : parse file source = .ok t) (hu : parse file' source' = .ok u)
    (pretty : Bool) :
    (∃ text, t.dump ⟨pretty, false⟩ = .ok text) ∧
      (t.dump ⟨pretty, false⟩ = u.dump ⟨pretty, false⟩ ↔ t.bare = u.bare) :=
  dump_eq_iff (dumped_of_parse ht) (dumped_of_parse hu) pretty

/-! ## Programs with a name, an operator and a literal -/

open Print

/-- A statement that assigns to `a` what an operator gives of `b` and a string. -/
def combination (op x : Text) : Tree :=
  .new (.expressionStatement (.new (.assignment (.text "=") (.identifier "a")
    (.new (.binary (.text op) (.identifier "b") (.new (.literal (.text x))))))))

/-- The program of this statement in a block. -/
def combining (op x : Text) : Tree :=
  .new (.program (.tuple [.new (.block (.tuple [combination op x]))]))

/-- The text of this program. -/
def combiningText (indent op x : Text) : Text :=
  braces indent 0 ["a = b " ++ op ++ " " ++ Literal.quote x ++ ";"]

/-- There is no integer in this program. -/
theorem exact_combining (op x : Text) : (combining op x).Exact := by
  have all : (combining op x).nodes.all Tree.isExact = true := rfl
  exact List.all_eq_true.mp all

/-- The text is read as the program, whatever the indentation, the operator and the string. -/
theorem parse_combining {indent op x : Text} {p : Precedence} (white : IsWhite indent)
    (known : (op, p) ∈ BinaryOperator.table.map (·.2)) : ∃ t,
      parse "a.js" (combiningText indent op x) = .ok t ∧ t.bare = combining op x := by
  obtain ⟨low, high, S, joins⟩ := joins_of_binary known
  -- Operands are spelled as tightly as their operator asks.
  have value : Spelled (.new (.binary (.text op) (.identifier "b") (.new (.literal (.text x))))) p
      ("b " ++ op ++ " " ++ Literal.quote x) :=
    spelled_between joins low high (spelled_identifier (x := "b") rfl)
      (Nat.le_of_lt (Nat.lt_succ_of_lt high)) (spelled_string x) (Nat.le_succ_of_le high) rfl
  have statement : SpelledStatement (combination op x)
      ("a = b " ++ op ++ " " ++ Literal.quote x ++ ";") :=
    spelled_expressionStatement (spelled_assignment
      (show Text.ofString "=" ∈ assignmentSpellings by decide) rfl
      (spelled_identifier (x := "a") rfl) (by decide) value (Nat.le_of_succ_le low))
  -- The statement stands in a block, which the grammar reads as one line.
  have block : IsLineOf (combiningText indent op x)
      (Tree.new (.block (.tuple [combination op x]))).braced :=
    ⟨_, spelled_block white (.cons ⟨_, statement⟩ .nil)⟩
  obtain ⟨t, parsed, reads⟩ : ∃ t, parse "a.js" (combiningText indent op x) = .ok t ∧
      (combining op x).ReadAs t :=
    parse_lines (l := none) (by decide) (.cons block .nil)
  exact ⟨t, parsed, (reads.bare (exact_combining op x)).symm⟩

/-- The indentation is not in the dump, and the operator and the string are. -/
theorem dump_eq_iff_of_parse_combining : ∃ t u v w,
    parse "a.js" "\x7b\n  a = b + \"x\";\n\x7d" = .ok t ∧
      parse "a.js" "\x7b\n\ta = b + \"x\";\n\x7d" = .ok u ∧
      parse "a.js" "\x7b\n  a = b - \"x\";\n\x7d" = .ok v ∧
      parse "a.js" "\x7b\n  a = b + \"y\";\n\x7d" = .ok w ∧
      t.dump ⟨true, false⟩ = u.dump ⟨true, false⟩ ∧
      t.dump ⟨true, false⟩ ≠ v.dump ⟨true, false⟩ ∧ t.dump ⟨true, false⟩ ≠ w.dump ⟨true, false⟩ := by
  have two : IsWhite "  " := by decide
  have tab : IsWhite "\t" := by decide
  have plus : (Text.ofString "+", Precedence.additive) ∈ BinaryOperator.table.map (·.2) := by decide
  have minus : (Text.ofString "-", Precedence.additive) ∈ BinaryOperator.table.map (·.2) := by decide
  obtain ⟨t, first, one⟩ := parse_combining (x := "x") two plus
  obtain ⟨u, second, alike⟩ := parse_combining (x := "x") tab plus
  obtain ⟨v, third, operator⟩ := parse_combining (x := "x") two minus
  obtain ⟨w, fourth, string⟩ := parse_combining (x := "y") two plus
  -- Only the indentation differs, so that the trees are equal.
  refine ⟨t, u, v, w, first, second, third, fourth, ?_, fun same => ?_, fun same => ?_⟩
  · rw [(dump_eq_iff_of_parse first second true).2, one, alike]
  -- The operators differ, and so do the trees.
  · rw [(dump_eq_iff_of_parse first third true).2, one, operator] at same
    cases same
  -- The strings differ, and so do the trees.
  · rw [(dump_eq_iff_of_parse first fourth true).2, one, string] at same
    cases same

end Source

end TailLoop
