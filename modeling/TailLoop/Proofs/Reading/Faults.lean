import TailLoop.Proofs.Reading.Numerals
import TailLoop.Proofs.Reading.Stack

/-!
# Why reading fails

A text that is not read as a program is either no program, which is a syntax error, or its phrases
follow the grammar and the rule of one of them refuses its parts (`error_of_parse`). As long as no
fault is known the stack is one that the grammar explains, so that the first fault is always that of
a rule on parts of its own symbols (`FaultOf`). Rules refuse a target that cannot be assigned to,
which is a syntax error as well, and a number without a value; without a file name no phrase has a
place (`productions_fail`). A number token without a value is a hexadecimal number that is too
large.
-/

namespace TailLoop.Source

open Grammar Grammar.Automaton

variable {M : Symbol → Content → Prop} {states : Array State} {file source : Text} {t : Terminal}

/-! ## Where faults come from -/

/-- A fault that the rule of a production finds in parts of its symbols. -/
def FaultOf (M : Symbol → Content → Prop) (file : Text) (e : Error) : Prop :=
  ∃ p ∈ productions, ∃ parts, List.Forall₂ (fun X part => M X part.content) p.symbols parts ∧
    content file p.rule parts = .error e

/-- The fault of a machine comes from a rule. -/
def Machine.Blames (M : Symbol → Content → Prop) (file : Text) (m : Machine) : Prop :=
  ∀ e, m.fault = some e → FaultOf M file e

/-- A reduction that the table asks for finds a fault in parts of the symbols of its production. -/
theorem Machine.Blames.reduce (faithful : Faithful states) {m : Machine} (sound : m.Sound M)
    (h : m.Blames M file) {number : Nat} {p : Production}
    (act : action? states (topState m.stack) t = some (.reduce number))
    (of : productions[number]? = some p) : (reduce states file p m).Blames M file := by
  obtain ⟨inner, p', k, of', here, found⟩ := faithful.allows act
  cases of.symm.trans of'
  intro e failed
  unfold Source.reduce at failed
  dsimp only at failed
  -- A fault that is known already is kept.
  split at failed
  · exact h e failed
  · rename_i e' refused
    -- A new fault is that of the rule, applied to the parts on the stack.
    cases known : m.fault with
    | some first =>
      rw [known] at failed
      exact h e (known.trans failed)
    | none =>
      rw [known] at failed
      cases failed
      obtain ⟨fitting, -, -⟩ := (sound known).pop here found of
      rw [List.take_length] at fitting
      exact ⟨p, List.mem_of_getElem? of, _, fitting, refused⟩

/-- The fault of what reducing before a terminal comes to, if a machine is left. -/
def Settled.Blames (M : Symbol → Content → Prop) (file : Text) : Settled → Prop
  | .shift _ m => m.Blames M file
  | .accept m => m.Blames M file
  | .stuck _ => True

/-- Reducing before a terminal finds the faults of rules only. -/
theorem Machine.Blames.settle (kept : KeptByReading source M) (faithful : Faithful states)
    (fuel : Nat) {m : Machine} (sound : m.Sound M) (h : m.Blames M file) :
    (settle states file t fuel m).Blames M file := by
  induction fuel generalizing m with
  | zero => trivial
  | succ fuel ih =>
    rw [Source.settle]
    split
    · exact h
    · exact h
    · rename_i number act
      split
      · rename_i p of
        exact ih (sound.reduce kept faithful act of) (h.reduce faithful sound act of)
      · trivial
    · trivial

/-- A machine that fails at the end fails by the syntax or by a fault of a rule. -/
theorem Machine.Blames.close (kept : KeptByReading source M) (faithful : Faithful states)
    {m : Machine} {last : Position} {e : Error} (sound : m.Sound M) (h : m.Blames M file)
    (failed : close states file last m = .error e) : e.isSyntax = true ∨ FaultOf M file e := by
  unfold Source.close at failed
  have blames := h.settle (t := .endOfInput) kept faithful (settleFuel m) sound
  split at failed
  -- What was settled before is accounted for, and the last step fails with its own fault.
  · rename_i m' settled
    rw [settled] at blames
    unfold finish at failed
    split at failed
    · rename_i e' found
      cases failed
      exact .inr (blames e found)
    · cases failed
    · cases failed
  · cases failed
    exact .inl rfl
  · cases failed
    exact .inl rfl

/-- A text that is out of place is a fault of the syntax. -/
theorem misplaced_isSyntax (file : Text) (allowed : List Terminal) (position : Position) (c : Nat)
    (rest : Text) : (misplaced file allowed position c rest).isSyntax = true := by
  unfold misplaced
  split <;> rfl

/-- Reading on fails by the syntax or by a fault of a rule. -/
theorem Machine.Blames.readFrom (kept : KeptByReading source M) (faithful : Faithful states)
    (fuel : Nat) {position last : Position} {rest : Text} {m : Machine} {e : Error}
    (inside : rest <:+ source) (sound : m.Sound M) (h : m.Blames M file)
    (failed : readFrom states file fuel position last rest m = .error e) :
    e.isSyntax = true ∨ FaultOf M file e := by
  -- By induction on the fuel, along the reading of the text.
  induction fuel generalizing position last rest m with
  | zero => exact h.close kept faithful sound failed
  | succ fuel ih =>
    cases rest with
    | nil => exact h.close kept faithful sound failed
    | cons c rest =>
      rw [Source.readFrom] at failed
      dsimp only at failed
      split at failed
      -- White space leaves the machine as it is.
      · exact ih ((List.drop_suffix _ _).trans inside) sound h failed
      -- What is no token is a syntax error.
      · split at failed
        · cases failed
          exact .inl (misplaced_isSyntax ..)
        · rename_i terminal n matched
          have sound' := sound.settle kept faithful file terminal (settleFuel m)
          have blames := h.settle (t := terminal) kept faithful (settleFuel m) sound
          split at failed
          · rename_i state m' settled
            rw [settled] at sound' blames
            -- A token is shifted, after the machine was settled for it.
            have token := kept.token _ _ _ _ inside matched
            refine ih ((List.drop_suffix _ _).trans inside) (fun clear => ?_) ?_ failed
            · exact .cons sound'.2 token (sound'.1 clear)
            · exact blames
          · cases failed
            exact .inl rfl
          · cases failed
            exact .inl rfl

/-- A text that is not read has a syntax error, or a rule finds a fault in parts that were read as
its symbols. -/
theorem KeptByReading.error_of_parse (kept : KeptByReading source M) {e : Error}
    (h : parse file source = .error e) : e.isSyntax = true ∨ FaultOf M file e :=
  Machine.Blames.readFrom kept faithful_automaton _ (List.suffix_refl source) (fun _ => .nil)
    (fun _ none => by cases none) h

/-! ## What rules refuse -/

/-- What the rule of a production refuses: a target that cannot be assigned to, any phrase that
needs a place without a file name, and a number token that gives no number. -/
def RuleFails (p : Production) : Prop :=
  ∀ file parts e, content file p.rule parts = .error e → e.isSyntax = true ∨
    ((∃ rule, e = .noFile rule) ∧ file = []) ∨
    e = .numberTooLarge ∧ p.symbols = [.terminal .number] ∧
      ∃ fault, Literal.number (Parts.text parts 0) = .error fault

section Rules

variable {p : Phrase} {symbols : List Symbol}

/-- A rule that keeps a part refuses nothing. -/
theorem fails_keep {i : Nat} : RuleFails ⟨p, symbols, .keep i⟩ := nofun

/-- A phrase that is another one refuses nothing. -/
theorem fails_isA {q : Phrase} : RuleFails (isA p q) := fails_keep

/-- A rule that gathers trees refuses nothing. -/
theorem fails_gather {trees : Parts → List Tree} :
    RuleFails (derive p symbols (.gather trees)) := nofun

/-- A rule that makes a node needs a file name. -/
theorem fails_make {name : Text} {shape : Parts → Shape Tree} :
    RuleFails (derive p symbols (.make name shape)) := by
  intro file parts e failed
  change (if file = [] then _ else _) = _ at failed
  split at failed
  · rename_i missing
    cases failed
    exact .inr (.inl ⟨⟨_, rfl⟩, missing⟩)
  · cases failed

/-- A rule that checks its target refuses those that cannot be assigned to. -/
theorem fails_checked {name : Text} {target : Nat} {role : Parts → Text}
    {shape : Parts → Shape Tree} :
    RuleFails (derive p symbols (.makeChecked name target role shape)) := by
  intro file parts e failed
  rw [derive, Rule.makeChecked, content] at failed
  split at failed
  · rename_i refusal refused
    split at refused
    · cases refused
    · cases refused
      cases failed
      exact .inl rfl
  · split at failed
    · rename_i missing
      cases failed
      exact .inr (.inl ⟨⟨_, rfl⟩, missing⟩)
    · cases failed

/-- A rule for a loop over a collection refuses targets that cannot be assigned to. -/
theorem fails_forEach {name : Text} {domain : Domain} :
    RuleFails (derive p symbols (.makeForEach name domain)) := by
  intro file parts e failed
  rw [derive, Rule.makeForEach, content] at failed
  split at failed
  · rename_i refusal refused
    dsimp only at refused
    split at refused
    · cases refused
    · cases refused
      cases failed
      exact .inl rfl
  · split at failed
    · rename_i missing
      cases failed
      exact .inr (.inl ⟨⟨_, rfl⟩, missing⟩)
    · cases failed

/-- The rule for numbers refuses what is too large. -/
theorem fails_number : RuleFails (derive .primary [Terminal.number] (.plain numberContent)) := by
  intro file parts e failed
  change (numberContent parts).mapError ofRefusal = _ at failed
  unfold numberContent at failed
  split at failed
  · cases failed
  · rename_i fault refused
    cases failed
    exact .inr (.inr ⟨rfl, rfl, fault, refused⟩)

end Rules

/-- The rule of each production refuses nothing else. -/
theorem productions_fail : ∀ p ∈ productions, RuleFails p := by
  simp only [productions, structureProductions, statementProductions, controlProductions,
    simpleProductions, binaryProductions, expressionProductions, primaryProductions,
    signProductions, operands, oneOf, List.forall_mem_append, List.forall_mem_cons,
    List.forall_mem_map, List.not_mem_nil, false_implies, implies_true, and_true]
  and_intros
  all_goals first
    | exact fails_isA
    | exact fails_make
    | exact fails_gather
    | exact fails_checked
    | exact fails_forEach
    | exact fails_keep
    | exact fails_number
    | exact nofun

/-! ## Tokens of a text -/

/-- A token that was cut from a text. -/
def IsTokenOf (source : Text) : Symbol → Content → Prop
  | .terminal t, .token s =>
    ∃ allowed rest n, rest <:+ source ∧ match? allowed rest = some (t, n) ∧ s = rest.take n
  | .terminal _, _ => False
  | .phrase _, _ => True

/-- The reader keeps that tokens are cut off the text. -/
theorem keptByReading_tokens (source : Text) : KeptByReading source (IsTokenOf source) where
  token allowed rest _ n inside matched := ⟨allowed, rest, n, inside, matched, rfl⟩
  phrase _ _ _ _ _ _ _ := trivial

/-- A fixed text that was found stands in the table. -/
theorem longestFixed_mem {t : Text} {table : List (Terminal × Text)} {terminal : Terminal} {n : Nat}
    (h : longestFixed? t table = some (terminal, n)) : terminal ∈ table.map (·.1) := by
  induction table with
  | nil => cases h
  | cons e rest ih =>
    rw [longestFixed?] at h
    split at h
    · cases h
      exact List.mem_cons_self
    · exact List.mem_cons_of_mem _ (ih h)

/-- A token that is neither a name nor of a fixed spelling is cut as a number or as a string. -/
theorem length_of_match {allowed : List Terminal} {t : Text} {terminal : Terminal} {n : Nat}
    (h : match? allowed t = some (terminal, n)) (unnamed : terminal ≠ .name)
    (loose : ∀ e ∈ Terminal.fixed, e.1 ≠ terminal) :
    terminal = .number ∧ numberLength? t = some n ∨
      terminal = .string ∧ stringLength? t = some n := by
  unfold match? at h
  dsimp only at h
  split at h
  · -- A name is a name or a keyword.
    rw [Option.some.injEq, Prod.mk.injEq] at h
    obtain ⟨kind, -⟩ := h
    cases keyword : keyword? allowed (t.take _) with
    | none =>
      rw [keyword] at kind
      exact (unnamed kind.symm).elim
    | some found =>
      rw [keyword] at kind
      obtain ⟨e, listed, same⟩ := Option.map_eq_some_iff.mp keyword
      have known := List.mem_of_find?_eq_some listed
      refine (loose e ?_ (same.trans kind)).elim
      simp only [Terminal.fixed, List.mem_append]
      exact .inl (.inl (.inl known))
  · rename_i number
    cases h
    exact .inl ⟨rfl, (Option.ite_none_right_eq_some.mp number).2⟩
  · rename_i string
    cases h
    exact .inr ⟨rfl, (Option.ite_none_right_eq_some.mp string).2⟩
  -- A fixed text is listed with its terminal.
  · obtain ⟨e, known, kind⟩ := List.mem_map.mp (longestFixed_mem h)
    obtain ⟨e', known', made⟩ := List.mem_filterMap.mp known
    obtain ⟨-, same⟩ := Option.ite_none_right_eq_some.mp made
    cases same
    exact (loose _ known' kind).elim

/-- A token of a number is cut as one. -/
theorem numberLength_of_match {allowed : List Terminal} {t : Text} {n : Nat}
    (h : match? allowed t = some (.number, n)) : numberLength? t = some n := by
  rcases length_of_match h nofun (by decide) with ⟨-, length⟩ | ⟨other, -⟩
  · exact length
  · cases other

/-- A token of a string is cut as one. -/
theorem stringLength_of_match {allowed : List Terminal} {t : Text} {n : Nat}
    (h : match? allowed t = some (.string, n)) : stringLength? t = some n := by
  rcases length_of_match h nofun (by decide) with ⟨other, -⟩ | ⟨-, length⟩
  · cases other
  · exact length

/-- A hexadecimal number that is too large for a double stands in a text. -/
def HoldsOversized (source : Text) : Prop :=
  ∃ rest n k, rest <:+ source ∧ hexLength? rest = some n ∧
    Double.hexInteger? ((rest.take n).drop 2) = some k ∧ Double.ofInt? k = none

/-- A text that is not read has a syntax error or no file name, or holds a hexadecimal number that
is too large. -/
theorem error_of_parse {e : Error} (h : parse file source = .error e) :
    e.isSyntax = true ∨ ((∃ rule, e = .noFile rule) ∧ file = []) ∨
      e = .numberTooLarge ∧ HoldsOversized source := by
  -- The fault is that of a rule, so that all productions are looked through.
  rcases (keptByReading_tokens source).error_of_parse h with syntactic | fault
  · exact .inl syntactic
  · obtain ⟨p, known, parts, fitting, failed⟩ := fault
    rcases productions_fail p known file parts e failed with syntactic | nowhere | oversized
    · exact .inl syntactic
    · exact .inr (.inl nowhere)
    -- The only rule that can be too large is the one for numbers, and its part is a token of the
    -- text.
    · obtain ⟨same, symbols, fault, refused⟩ := oversized
      rw [symbols] at fitting
      cases fitting with
      | @cons _ part _ _ token =>
        obtain ⟨c, l⟩ := part
        cases c with
        | token s =>
          obtain ⟨allowed, rest, n, inside, matched, rfl⟩ := token
          obtain ⟨hex, k, value, large⟩ :=
            number_error (numberLength_of_match matched) refused
          exact .inr (.inr ⟨same, rest, n, k, inside, hex, value, large⟩)
        | _ => cases token

end TailLoop.Source
