import TailLoop.Proofs.RoundTrip.Braces

/-!
# Printed expressions

What is written for an expression is read as it, as an expression of the precedence that goes with it
(`Spelled`). One lemma for each kind of expression says so, given the same of its operands.
-/

namespace TailLoop.Print

open Source Grammar

/-! ## Texts of expressions -/

/-- The phrase that an expression is at the start of a statement. -/
def initialPhrase (p : Precedence) : Phrase := if p = 0 then .statementExpr else .statementAssignment

/-- A text that is read as an expression of a precedence. -/
structure Spelled (e : Tree) (p : Precedence) (x : Text) : Prop where
  bound : p ≤ 16
  whole : Spells delimits [.phrase (level p)] x [.tree e.braced] false
  /-- A point or an update sign may follow what can be called and is no number. -/
  glued : Precedence.call ≤ p → isNumber e = false →
    Spells endsName [.phrase .lhsExpr] x [.tree e.braced] false
  head : x.head?.any (· != '='.toNat) = true
  /-- At the start of a statement only what does not start with `function` is an expression. -/
  initial : startsFunction x = true ∨
    Spells delimits [.phrase (initialPhrase p)] x [.tree e.braced] false

variable {e : Tree} {p q : Precedence} {x y : Text} {l : Option Location}

/-- A text that holds together more tightly than an assignment. -/
theorem Spelled.of_tight (tight : 2 ≤ p) (bound : p ≤ 16)
    (whole : Spells delimits [.phrase (level p)] x [.tree e.braced] false)
    (glued : Precedence.call ≤ p → isNumber e = false →
      Spells endsName [.phrase .lhsExpr] x [.tree e.braced] false)
    (head : x.head?.any (· != '='.toNat) = true) : Spelled e p x := by
  refine ⟨bound, whole, glued, head, .inr ?_⟩
  have conditional : Spells delimits [.phrase (level 2)] x [.tree e.braced] false :=
    whole.loosen tight bound
  have initial := conditional.is produces_initialConditional
  rwa [initialPhrase, if_neg (Nat.ne_of_gt (Nat.lt_of_lt_of_le Nat.two_pos tight))]

/-- A text that can be called, whatever follows. -/
theorem Spelled.of_glued (tight : Precedence.call ≤ p) (bound : p ≤ 16)
    (whole : Spells endsName [.phrase (level p)] x [.tree e.braced] false)
    (head : x.head?.any (· != '='.toNat) = true) : Spelled e p x := by
  have glued : Spells endsName [.phrase (level 15)] x [.tree e.braced] false :=
    whole.loosen tight bound
  exact .of_tight (Nat.le_trans (by decide) tight) bound
    (whole.mono fun _ => endsName_of_delimits) (fun _ _ => glued) head

/-- What is written in the place of an operand is read as one. -/
theorem Spelled.at (h : Spelled e p x) (le : q ≤ p) :
    Spells delimits [.phrase (level q)] x [.tree e.braced] false :=
  h.whole.loosen le h.bound

/-- An expression in parentheses. -/
theorem Spelled.enclosed (h : Spelled e p x) : Spelled e 16 (parenthesize x) := by
  have whole : Spells delimits [.phrase (level 0)] x [.tree e.braced] false := h.at (Nat.zero_le p)
  exact .of_glued (by decide) le_rfl (whole.enclosed.mono fun _ _ => rfl) rfl

/-- What is written in the place of an operand. -/
def IsOperand (e : Tree) (q : Precedence) (t : Tree) : Prop :=
  ∃ p x, t = .text x ∧ q ≤ p ∧ Spelled e p x

/-- What is printed for an expression. -/
def IsSpelled (e : Tree) (printed : Printed) : Prop :=
  ∃ p x, printed = .ofText x p ∧ Spelled e p x

/-- An operand is put in parentheses where it binds less tightly. -/
theorem gives_spelledOperand {printed : Printed} (h : IsSpelled e printed) (bound : q ≤ 16) :
    Gives (printed.operand q) (IsOperand e q) := by
  obtain ⟨p, x, rfl, spelled⟩ := h
  refine ⟨_, rfl, ?_⟩
  split
  · exact ⟨16, parenthesize x, rfl, bound, spelled.enclosed⟩
  · rename_i tight
    exact ⟨p, x, rfl, Nat.le_of_not_lt tight, spelled⟩

/-! ## Names and literals -/

/-- A name does not start with an equals sign. -/
theorem head_of_isFree (free : isFree x = true) : x.head?.any (· != '='.toNat) = true := by
  rw [isFree, Bool.and_eq_true] at free
  cases x with
  | nil => cases free.1
  | cons c more =>
    have name := free.1
    rw [Text.isName, Bool.and_eq_true] at name
    have range := range_of_isNameStart name.1
    change (c != 61) = true
    rw [bne_iff_ne]
    omega

/-- A name. -/
theorem spelled_identifier (free : isFree x = true) : Spelled (identifierAt l x) 16 x := by
  refine .of_glued (by decide) le_rfl ?_ (head_of_isFree free)
  exact (spells_name free).make produces_name rfl

/-- The literal `null`. -/
theorem spelled_null : Spelled (.node l (.literal .null)) 16 "null" :=
  .of_glued (by decide) le_rfl ((spells_reserved .null "null" rfl).make produces_null rfl) rfl

/-- The literal `true`. -/
theorem spelled_true : Spelled (.node l (.literal (.bool true))) 16 "true" :=
  .of_glued (by decide) le_rfl ((spells_reserved .true_ "true" rfl).make produces_true rfl) rfl

/-- The literal `false`. -/
theorem spelled_false : Spelled (.node l (.literal (.bool false))) 16 "false" :=
  .of_glued (by decide) le_rfl ((spells_reserved .false_ "false" rfl).make produces_false rfl) rfl

/-- A string. -/
theorem spelled_string (s : Text) :
    Spelled (.node l (.literal (.text s))) 16 (Literal.quote s) := by
  refine .of_glued (by decide) le_rfl ?_ rfl
  have whole := (spells_string s).make (produces_string (l := l)) rfl
  rw [unquote_quote] at whole
  exact whole.mono fun _ _ => rfl

/-- A number is read back if its text is a numeral that denotes it. -/
theorem spelled_number {v : Tree} {d : Double} (numeral : DecimalNumeral x)
    (number : isNumber (.node l (.literal v)) = true) (value : Double.ofText? x = some d)
    (same : v.same (.num d) = true)
    (exact : (Tree.node l (.literal v)).isExact = true → v = .num d) (self : v.braced = v) :
    Spelled (.node l (.literal v)) 16 x := by
  -- The numeral denotes the number by the rule of the grammar.
  have read : Literal.number x = .ok d := by
    rw [Literal.number, hasHexMark_numeral numeral, if_neg Bool.false_ne_true, value]
  have braced : (Tree.node l (.literal v)).braced = .node l (.literal v) := by
    rw [Tree.braced_node (s := .literal v) nofun, Shape.map, self]
  have whole : Spells delimits [.phrase .primary] x [.tree (.node l (.literal v))] false :=
    ((spells_number numeral).make (produces_number read same exact) rfl).mono fun _ =>
      endsNumber_of_delimits
  refine .of_tight (by decide) le_rfl ?_ (fun _ other => ?_) ?_
  · rw [braced]
    exact whole
  · rw [number] at other
    cases other
  -- The text begins with a digit or a point, so that it does not lengthen a sign.
  · obtain ⟨c, rest, rfl, first⟩ := numeral_head numeral
    change (c != 61) = true
    rw [bne_iff_ne]
    rcases first with digit | rfl
    · have := range_of_isDecimal digit
      omega
    · decide

/-! ## Calls and members -/

/-- A text starts as its first part does. -/
theorem head_append {f : Nat → Bool} (h : x.head?.any f = true) : (x ++ y).head?.any f = true := by
  cases x with
  | nil => cases h
  | cons => exact h

variable {a b f o k : Tree} {ts : List Tree} {xs : List Text} {n op : Text}

/-- The text of the owner of a member, with a number in parentheses. -/
theorem Spelled.owner (h : Spelled o p x) (tight : Precedence.call ≤ p) :
    Spells endsName [.phrase .lhsExpr] (if isNumber o then parenthesize x else x) [.tree o.braced]
      false := by
  split
  · have whole : Spells delimits [.phrase (level 0)] x [.tree o.braced] false := h.at (Nat.zero_le p)
    have simple : Spells anything [.phrase (level 16)] (parenthesize x) [.tree o.braced] false :=
      whole.enclosed
    have left : Spells anything [.phrase (level 15)] (parenthesize x) [.tree o.braced] false :=
      simple.loosen (by decide) le_rfl
    exact left.mono fun _ _ => rfl
  · rename_i other
    rw [Bool.not_eq_true] at other
    exact h.glued tight other

/-- The owner of a member does not start with an equals sign, in parentheses or not. -/
theorem head_owner (h : Spelled o p x) :
    (if isNumber o then parenthesize x else x).head?.any (· != '='.toNat) = true := by
  split
  · rfl
  · exact h.head

/-- The expressions of a row with their texts. -/
abbrev SpelledRow (xs : List Text) (ts : List Tree) : Prop :=
  List.Forall₂ (SpellsItem (.phrase .assignmentExpr) fun c t => c = .tree t) xs (ts.map Tree.braced)

/-- An array, from its elements. -/
theorem spelled_array (row : SpelledRow xs ts) :
    Spelled (.node l (.array (.tuple ts))) 16 ("[" ++ Text.join ", " xs ++ "]") := by
  obtain ⟨Xs, cs, slot, spells⟩ := arguments_row.slot row
  have whole := (((spells_sign .leftBracket "[" rfl).append spells meets_anything).append
    (spells_sign .rightBracket "]" rfl) (meets_head rfl)).make (produces_array (l := l) slot) rfl
  rw [← Tree.braced_tuple] at whole
  exact .of_glued (by decide) le_rfl (whole.mono fun _ _ => rfl) rfl

/-- A call, from what is called and its arguments. -/
theorem spelled_call (callee : Spelled f p x) (tight : Precedence.call ≤ p)
    (row : SpelledRow xs ts) :
    Spelled (.node l (.call f (.tuple ts))) 15 (x ++ parenthesize (Text.join ", " xs)) := by
  obtain ⟨Xs, cs, slot, spells⟩ := arguments_row.slot row
  have called : Spells delimits [.phrase (level 15)] x [.tree f.braced] false := callee.at tight
  have whole := (called.append (((spells_sign .leftParen "(" rfl).append spells meets_anything).append
    (spells_sign .rightParen ")" rfl) (meets_head rfl)) (meets_head rfl)).make
      (produces_call (l := l) slot) rfl
  rw [← Tree.braced_tuple] at whole
  exact .of_glued le_rfl (by decide) (whole.mono fun _ _ => rfl) (head_append callee.head)

/-- A member by name, whose owner is in parentheses if it is a number. -/
theorem spelled_member {ln : Option Location} (object : Spelled o p x)
    (tight : Precedence.call ≤ p) (free : isFree n = true) :
    Spelled (.node l (.member o (identifierAt ln n) (.bool false))) 15
      ((if isNumber o then parenthesize x else x) ++ "." ++ n) := by
  have whole := ((object.owner tight).append (spells_property free) (meets_head rfl)).make
    (produces_member (l := l) (k := ln)) rfl
  rw [List.append_assoc]
  exact .of_glued le_rfl (by decide) whole (head_append (head_owner object))

/-- A member by key, whose owner is in parentheses if it is a number. -/
theorem spelled_computed (object : Spelled o p x) (tight : Precedence.call ≤ p)
    (key : Spelled k q y) :
    Spelled (.node l (.member o k (.bool true))) 15
      ((if isNumber o then parenthesize x else x) ++ "[" ++ y ++ "]") := by
  have inner : Spells delimits [.phrase (level 0)] y [.tree k.braced] false := key.at (Nat.zero_le q)
  have opened := (object.owner tight).append (spells_sign .leftBracket "[" rfl) (meets_head rfl)
  have whole := ((opened.append inner meets_anything).append (spells_sign .rightBracket "]" rfl)
    (meets_head rfl)).make
      (produces_computed (l := l)) rfl
  refine .of_glued le_rfl (by decide) (whole.mono fun _ _ => rfl) ?_
  exact head_append (head_append (head_append (head_owner object)))

/-! ## Operators -/

/-- A conditional, from its three parts. -/
theorem spelled_conditional {c : Tree} {r : Precedence} {z : Text} (test : Spelled a p x)
    (tight : Precedence.logicalOr ≤ p) (yes : Spelled b q y) (yesTight : Precedence.assignment ≤ q)
    (no : Spelled c r z) (noTight : Precedence.assignment ≤ r) :
    Spelled (.node l (.conditional a b c)) 2 (x ++ " ? " ++ y ++ " : " ++ z) := by
  have first : Spells delimits [.phrase (level 3)] x [.tree a.braced] false := test.at tight
  have second : Spells delimits [.phrase (level 1)] y [.tree b.braced] false := yes.at yesTight
  have third : Spells delimits [.phrase (level 1)] z [.tree c.braced] false := no.at noTight
  have whole := ((((first.append (spells_padded .question " ? " rfl) (meets_head rfl)).append second
    meets_anything).append (spells_padded .colon " : " rfl) (meets_head rfl)).append third
      meets_anything).make (produces_conditional (l := l)) rfl
  refine .of_tight le_rfl (by decide) whole (fun h => absurd h (by decide)) ?_
  exact head_append (head_append (head_append (head_append test.head)))

/-- An operator between blanks. -/
theorem infix_text : x ++ (Text.ofString " " ++ (op ++ Text.ofString " ")) ++ y =
    x ++ Text.ofString " " ++ op ++ Text.ofString " " ++ y := by
  simp only [List.append_assoc]

/-- An operator that joins two operands, the second of which binds more tightly. -/
theorem spelled_between {S : Symbol} {shape : Tree → Tree → Shape Tree} (joins : Joins S op p shape)
    (tight : 2 ≤ p) (loose : p < 15) (first : Spelled a q x) (le : p ≤ q) {r : Precedence}
    (second : Spelled b r y) (lt : p + 1 ≤ r)
    (braced : (Tree.node l (shape a b)).braced = .node l (shape a.braced b.braced)) :
    Spelled (.node l (shape a b)) p (x ++ " " ++ op ++ " " ++ y) := by
  obtain ⟨sign, made⟩ := joins
  have joined := ((first.at le).append sign.padded (meets_head rfl)).append (second.at lt)
    meets_anything
  rw [infix_text] at joined
  have whole := joined.make (made l a.braced b.braced) (Bool.and_false _)
  rw [← braced] at whole
  exact .of_tight tight (Nat.le_of_lt (Nat.lt_succ_of_lt loose)) whole
    (fun h => absurd h (Nat.not_le.mpr loose))
    (head_append (head_append (head_append (head_append first.head))))

/-- Braces leave a target what can be assigned to. -/
theorem isTarget_braced (target : a.isAssignable = true) : Rule.isTarget a.braced = true := by
  cases a with
  | node l s =>
    cases s with
    | identifier | member => rfl
    | function form => cases form <;> cases target
    | forEach domain => cases domain <;> cases target
    | jump kind => cases kind <;> cases target
    | _ => cases target
  | _ => cases target

/-- No target is a number. -/
theorem isNumber_target (target : a.isAssignable = true) : isNumber a = false := by
  cases a with
  | node l s =>
    cases s with
    | literal => cases target
    | _ => rfl
  | _ => rfl

/-- An assignment, whose right side may be another one. -/
theorem spelled_assignment (known : op ∈ assignmentSpellings) (target : a.isAssignable = true)
    (left : Spelled a p x) (tight : Precedence.call ≤ p) (right : Spelled b q y)
    (rightTight : Precedence.assignment ≤ q) :
    Spelled (.node l (.assignment (.text op) a b)) 1 (x ++ " " ++ op ++ " " ++ y) := by
  have first : Spells delimits [.phrase (level 13)] x [.tree a.braced] false :=
    left.at (Nat.le_trans (by decide) tight)
  have second : Spells delimits [.phrase (level 1)] y [.tree b.braced] false := right.at rightTight
  have joined := (first.append (isSign_of_assignment known).padded (meets_head rfl)).append second
    meets_anything
  rw [infix_text] at joined
  refine ⟨by decide, ?_, fun h => absurd h (by decide), ?_, .inr ?_⟩
  · exact joined.make (produces_assignment (isTarget_braced target)) rfl
  · exact head_append (head_append (head_append (head_append left.head)))
  · exact joined.make (produces_initialAssignment (isTarget_braced target)) rfl

/-- An update sign before its operand. -/
theorem spelled_updateBefore (known : op ∈ UpdateOperator.table.map (·.2))
    (target : a.isAssignable = true)
    (operand : Spelled a p x) (tight : Precedence.unary ≤ p) :
    Spelled (.node l (.update (.text op) a (.bool true))) 13 (op ++ x) := by
  have first : Spells delimits [.phrase (level 13)] x [.tree a.braced] false := operand.at tight
  have whole := ((spells_updateSign known).append first meets_anything).make
    (produces_updateBefore (l := l) (isTarget_braced target)) rfl
  refine .of_tight (by decide) (by decide) whole (fun h => absurd h (by decide)) ?_
  have heads : ∀ op ∈ UpdateOperator.table.map (·.2), op.head?.any (· != '='.toNat) = true := by
    decide
  exact head_append (heads op known)

/-- An update sign after its operand. -/
theorem spelled_updateAfter (known : op ∈ UpdateOperator.table.map (·.2))
    (target : a.isAssignable = true)
    (operand : Spelled a p x) (tight : Precedence.call ≤ p) :
    Spelled (.node l (.update (.text op) a (.bool false))) 14 (x ++ op) := by
  have first := operand.glued tight (isNumber_target target)
  have follows : ∀ op ∈ UpdateOperator.table.map (·.2), op.head?.any endsName = true := by decide
  have whole := (first.append (spells_updateSign known) (meets_head (follows op known))).make
    (produces_updateAfter (l := l) (isTarget_braced target)) rfl
  refine .of_tight (by decide) (by decide) (whole.mono fun _ _ => rfl)
    (fun h => absurd h (by decide)) (head_append operand.head)

/-- No sign before an operand starts with an equals sign. -/
theorem head_unarySign : ∀ s ∈ unarySigns, s.spelling.head?.any (· != '='.toNat) = true := by decide

/-- A sign directly before its operand, which does not make it longer. -/
theorem spelled_joined {s : Terminal} (known : s ∈ unarySigns) (operand : Spelled a p x)
    (tight : Precedence.unary ≤ p) (ends : x.head?.any (endsSign s) = true) :
    Spelled (.node l (.unary (.text s.spelling) a (.bool true))) 13 (s.spelling ++ x) := by
  have first : Spells delimits [.phrase (level 13)] x [.tree a.braced] false := operand.at tight
  have whole := ((spells_unarySign known).append first (meets_head ends)).make
    (produces_unary (l := l)) rfl
  exact .of_tight (by decide) (by decide) whole (fun h => absurd h (by decide))
    (head_append (head_unarySign s known))

/-- A unary operator with a blank after it. -/
theorem spelled_apart (sign : Spells anything [.phrase .unaryOp] (op ++ " ") [.token op] false)
    (head : op.head?.any (· != '='.toNat) = true) (operand : Spelled a p x)
    (tight : Precedence.unary ≤ p) :
    Spelled (.node l (.unary (.text op) a (.bool true))) 13 (op ++ " " ++ x) := by
  have first : Spells delimits [.phrase (level 13)] x [.tree a.braced] false := operand.at tight
  have whole := (sign.append first meets_anything).make (produces_unary (l := l)) rfl
  exact .of_tight (by decide) (by decide) whole (fun h => absurd h (by decide))
    (head_append (head_append head))

/-- What starts neither with `=` nor like a sign does not make the sign longer. -/
theorem endsSign_of_head {s : Terminal} {d : Nat}
    (only : ∀ c ∈ continuations s.spelling, c = '='.toNat ∨ c = d)
    (head : x.head?.any (· != '='.toNat) = true) (other : x.startsWith [d] = false) :
    x.head?.any (endsSign s) = true := by
  cases x with
  | nil => cases head
  | cons c x =>
    have different : c ≠ '='.toNat := bne_iff_ne.mp head
    have apart : c ≠ d := by
      rintro rfl
      change ((c == c) && true) = false at other
      rw [beq_self_eq_true] at other
      cases other
    change endsSign s c = true
    rw [endsSign, Bool.not_eq_true', ← Bool.not_eq_true, List.contains_iff_mem]
    exact fun there => (only c there).elim different apart

/-- A unary operator before its operand, apart from it or not. -/
theorem spelled_unary (known : op ∈ UnaryOperator.table.map (·.2)) (operand : Spelled a p x)
    (tight : Precedence.unary ≤ p) :
    ∃ y, unaryText (.text op) (.text x) = .ok y ∧
      Spelled (.node l (.unary (.text op) a (.bool true))) 13 y := by
  -- A sign is kept apart from an operand that begins with it.
  have signed (s : Terminal) (d : Nat) (spelling : s.spelling = [d]) (sign : s ∈ unarySigns)
      (blank : endsSign s 32 = true) (word : Text.isWord s.spelling = false)
      (inside : (Text.find? s.spelling "+-").isSome = true)
      (only : ∀ c ∈ continuations s.spelling, c = '='.toNat ∨ c = d) :
      ∃ y, unaryText (.text s.spelling) (.text x) = .ok y ∧
        Spelled (.node l (.unary (.text s.spelling) a (.bool true))) 13 y := by
    unfold unaryText
    simp only [word, Bool.false_eq_true, if_false, inside, if_true]
    cases begins : x.startsWith s.spelling with
    | true =>
      exact ⟨_, rfl, spelled_apart ((spells_unarySign sign).before_blank blank)
        (head_unarySign s sign) operand tight⟩
    | false =>
      refine ⟨_, rfl, spelled_joined sign operand tight (endsSign_of_head only operand.head ?_)⟩
      rwa [← spelling]
  simp only [UnaryOperator.table, List.map_cons, List.map_nil, List.mem_cons, List.not_mem_nil,
    or_false] at known
  rcases known with rfl | rfl | rfl | rfl | rfl | rfl
  · exact signed .minus 45 (by decide) (by decide) (by decide) (by decide) (by decide) (by decide)
  · exact signed .plus 43 (by decide) (by decide) (by decide) (by decide) (by decide) (by decide)
  · refine ⟨_, rfl, spelled_joined (s := .bang) (by decide) operand tight ?_⟩
    cases x with
    | nil => exact operand.head
    | cons c x =>
      have only : ∀ c ∈ continuations (Terminal.spelling .bang), c = '='.toNat := by decide
      change endsSign .bang c = true
      rw [endsSign, Bool.not_eq_true', ← Bool.not_eq_true, List.contains_iff_mem]
      exact fun there => bne_iff_ne.mp operand.head (only c there)
  · refine ⟨_, rfl, spelled_joined (s := .tilde) (by decide) operand tight ?_⟩
    cases x with
    | nil => exact operand.head
    | cons c x => rfl
  · exact ⟨_, rfl, spelled_apart (spells_unaryWord (a := .typeof) (by decide)) rfl operand tight⟩
  · exact ⟨_, rfl, spelled_apart (spells_unaryWord (a := .void) (by decide)) rfl operand tight⟩

/-! ## Sequences and functions -/

/-- What starts with `function` still does when a comma comes after it. -/
theorem startsFunction_append (starts : startsFunction x = true)
    (comma : y.head? = some ','.toNat) : startsFunction (x ++ y) = true := by
  rw [startsFunction, Bool.and_eq_true] at starts ⊢
  obtain ⟨begins, ends⟩ := starts
  have inside : Text.ofString "function" <+: x := List.isPrefixOf_iff_prefix.mp begins
  refine ⟨List.isPrefixOf_iff_prefix.mpr (inside.trans (List.prefix_append x y)), ?_⟩
  have long : 8 ≤ x.length := inside.length_le
  rw [List.drop_append_of_le_length long]
  cases rest : x.drop 8 with
  | nil =>
    rw [List.nil_append, comma]
    decide
  | cons d rest' =>
    rw [rest] at ends
    exact ends

/-- A sequence of two or more expressions. -/
theorem spelled_sequence (first : Spelled a p x) (tight : Precedence.assignment ≤ p)
    (others : SpelledRow (y :: xs) (b :: ts)) :
    Spelled (.node l (.sequence (.tuple (a :: b :: ts)))) 0 (Text.join ", " (x :: y :: xs)) := by
  rw [join_cons]
  have start : Spells delimits [.phrase (level 1)] x [.tree a.braced] false := first.at tight
  have more := arguments_row.more others
  have braced : (Tree.node l (.sequence (.tuple (a :: b :: ts)))).braced =
      .node l (.sequence (.tuple (a.braced :: b.braced :: ts.map Tree.braced))) := by
    rw [Tree.braced_node (s := .sequence _) nofun, Shape.map, Tree.braced_tuple]
    rfl
  refine ⟨by decide, ?_, fun h => absurd h (by decide), head_append first.head, ?_⟩
  · rw [braced]
    exact (start.append more (meets_head rfl)).make produces_sequence rfl
  -- The sequence begins as its first part does.
  · rcases first.initial with starts | initial
    · exact .inl (startsFunction_append starts rfl)
    · refine .inr ?_
      rw [initialPhrase, if_neg (Nat.ne_of_gt tight)] at initial
      rw [braced]
      exact (initial.append more (meets_head rfl)).make produces_initialSequence rfl

/-- A name that a node has or lacks, with its text. -/
inductive SpelledName : Tree → Text → Prop where
  | absent : SpelledName .null []
  | present {l : Option Location} {n : Text} (free : isFree n = true) :
    SpelledName (identifierAt l n) (" " ++ n)

/-- The names of a row of parameters. -/
abbrev SpelledParams (xs : List Text) (ts : List Tree) : Prop :=
  List.Forall₂ (SpellsItem (.terminal .name) fun c t => ∃ l n, c = .token n ∧ t = identifierAt l n)
    xs ts

/-- A name that may be missing, as a part of a production. -/
theorem SpelledName.slot {t : Tree} (h : SpelledName t x) :
    t.braced = t ∧ (∀ c ∈ x.head?, endsName c = true) ∧ ∃ Xs cs, NameSlot Xs cs t ∧
      Spells endsName Xs x cs false := by
  cases h with
  | absent => exact ⟨rfl, nofun, [], [], .absent, spells_nil.mono fun _ _ => rfl⟩
  | present free =>
    refine ⟨rfl, ?_, _, _, .present,
      (spells_name free).after_space (List.forall_mem_singleton.mpr rfl)⟩
    rintro c ⟨⟩
    rfl

/-- A text meets an end that it starts with. -/
theorem meets_self {ends : Nat → Bool} (h : ∀ c ∈ x.head?, ends c = true) : Meets ends ends x := by
  cases x with
  | nil => exact fun rest next => next
  | cons d x => exact fun rest _ c hc => h c hc

/-- Braces leave parameters alone. -/
theorem braced_params (params : SpelledParams xs ts) : ts.map Tree.braced = ts := by
  induction params with
  | nil => rfl
  | cons first _ ih =>
    obtain ⟨_, ⟨l, n, rfl, rfl⟩, _⟩ := first
    rw [List.map_cons, ih]
    rfl

/-- A function, from its name, its parameters and its body. -/
theorem spelled_function {id : Tree} (name : SpelledName id x) (params : SpelledParams xs ts)
    (body : Spells anything [.phrase .block] y [.tree b.braced] false) :
    Spelled (.node l (.function .expression id (.tuple ts) b)) 1
      ("function" ++ x ++ parenthesize (Text.join ", " xs) ++ " " ++ y) := by
  -- The name is there or not; each form has a production.
  obtain ⟨self, meets, Xs, cs, slot, spells⟩ := name.slot
  obtain ⟨Ys, ds, row, inner⟩ := params_row.slot params
  have blank : ∀ c ∈ Text.ofString " ", isSpace c = true := List.forall_mem_singleton.mpr rfl
  have last := (spells_sign .rightParen ")" rfl).append (body.after_space blank) meets_anything
  have joined :=
    ((((spells_reserved .function "function" rfl).append spells (meets_self meets)).append
    (spells_sign .leftParen "(" rfl) (meets_head rfl)).append inner meets_anything).append last
      (meets_head rfl)
  have whole := (joined.make (produces_function (l := l) slot row) rfl).is produces_functionExpression
  have braced : (Tree.node l (.function .expression id (.tuple ts) b)).braced =
      .node l (.function .expression id (.tuple ts) b.braced) := by
    rw [Tree.braced_node (s := .function .expression ..) nofun, Shape.map,
      Tree.braced_tuple, braced_params params, self]
  -- The text is the one that the productions spell.
  rw [← braced] at whole
  have text : Text.ofString "function" ++ x ++ parenthesize (Text.join ", " xs) ++ " " ++ y =
      Text.ofString "function" ++ x ++ "(" ++ Text.join ", " xs ++ (Text.ofString ")" ++
        (" " ++ y)) := by
    simp only [parenthesize, List.append_assoc]
  refine ⟨by decide, ?_, fun h => absurd h (by decide), ?_, .inl ?_⟩
  · rw [text]
    exact whole.mono fun _ _ => rfl
  · exact head_append (head_append (head_append (head_append rfl)))
  · cases name <;> rfl

end TailLoop.Print
