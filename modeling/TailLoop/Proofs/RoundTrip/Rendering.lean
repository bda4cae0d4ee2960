import TailLoop.Proofs.RoundTrip.Statements

/-!
# Printing trees that are read back

What the printer writes for a legible, well-formed node is read as it: `Renders` says so for a node
of each sort, and `renders_of_wellFormed` shows it by induction on the judgement. The texts
themselves are those of the lemmas on expressions and statements; here they are found to be what is
printed.
-/

namespace TailLoop.Print

open Source Validity

/-! ## Names and literals -/

/-- An identifier whose name is no keyword. -/
def IsFreeName (t : Tree) : Prop := ∃ l n, t = identifierAt l n ∧ isFree n = true

section Names

variable {t : Tree} {ts : List Tree} {xs : List Text} {l : Option Location}

/-- A legible name is no keyword. -/
theorem isFreeName_of_legible (name : IsName t) (legible : t.Legible) : IsFreeName t := by
  obtain ⟨l, _⟩ := name
  exact ⟨l, _, rfl, legible.self.1⟩

/-- A legible name that may be missing is missing or no keyword. -/
theorem absent_or_free (name : t.isNull = false → IsName t) (legible : t.Legible) :
    t = .null ∨ IsFreeName t := by
  cases t with
  | null => exact .inl rfl
  | _ => exact .inr (isFreeName_of_legible (name rfl) legible)

/-- A free name is written as its text. -/
theorem gives_freeName (name : IsFreeName t) :
    Gives (nameOf t) fun written =>
      ∃ l n, t = identifierAt l n ∧ isFree n = true ∧ written = .text n := by
  obtain ⟨l, n, rfl, free⟩ := name
  exact gives_ok ⟨l, n, rfl, free, rfl⟩

/-- A name that may be missing is written after a blank or not at all. -/
theorem gives_spelledName (name : t = .null ∨ IsFreeName t) :
    Gives (spacedName t) (SpelledName t) := by
  rcases name with rfl | ⟨l, n, rfl, free⟩
  · exact gives_ok .absent
  · exact gives_ok (.present free)

/-- Texts in a row are written with commas between them. -/
theorem commaList_texts : commaList (xs.map .text) = .ok (Text.join ", " xs) := by
  have texts : (xs.map Tree.text).mapM textOf = .ok xs := by
    induction xs with
    | nil => rfl
    | cons x xs ih =>
      rw [List.map_cons, List.mapM_cons, ih]
      rfl
  rw [commaList, texts]
  rfl

/-- The names of parameters with commas between them. -/
theorem gives_spelledParams (names : ∀ p ∈ ts, IsFreeName p) :
    Gives (parameterList (.tuple ts)) fun x => ∃ xs, x = Text.join ", " xs ∧ SpelledParams xs ts := by
  -- By induction on the parameters, which are written one after the other.
  have written : ∃ xs : List Text, ts.mapM nameOf = .ok (xs.map Tree.text) ∧ SpelledParams xs ts := by
    induction ts with
    | nil => exact ⟨[], rfl, .nil⟩
    | cons p rest ih =>
      rw [List.forall_mem_cons] at names
      obtain ⟨⟨l, n, rfl, free⟩, others⟩ := names
      obtain ⟨xs, all, spelled⟩ := ih others
      refine ⟨n :: xs, ?_, .cons ⟨_, ⟨l, n, rfl, rfl⟩, ?_⟩ spelled⟩
      · rw [List.mapM_cons, all]
        rfl
      · exact (spells_name free).mono fun _ => endsName_of_delimits
  obtain ⟨xs, all, spelled⟩ := written
  refine ⟨_, ?_, xs, rfl, spelled⟩
  have items : Fault.whilePrinting (Tree.tuple ts).items = .ok ts := rfl
  rw [parameterList, items]
  change (ts.mapM nameOf >>= commaList) = _
  rw [all]
  exact commaList_texts

/-- A number that is not negative is the same as itself. -/
theorem same_finite {m : Nat} {e : Int} {canonical : Double.Canonical m e} :
    (Tree.num (.finite false m e canonical)).same (.num (.finite false m e canonical)) = true := by
  change ((m == 0 && m == 0 || (false == false && m == m && e == e)) || _) = true
  simp only [beq_self_eq_true, Bool.and_self, Bool.or_true, Bool.true_or]

/-- A legible literal is read back. -/
theorem gives_spelledLiteral {v : Tree} (plain : v.isPlain = true)
    (legible : (Tree.node l (.literal v)).Legible) :
    Gives (literal v) (IsSpelled (.node l (.literal v))) := by
  -- Negative numbers are excluded, as the grammar reads them as another expression.
  obtain ⟨sound, back⟩ := legible.self
  cases v with
  | null => exact gives_ok ⟨_, _, rfl, spelled_null⟩
  | bool b =>
    cases b with
    | true => exact gives_ok ⟨_, _, rfl, spelled_true⟩
    | false => exact gives_ok ⟨_, _, rfl, spelled_false⟩
  | int n =>
    have positive : 0 ≤ n := of_decide_eq_true sound
    change (Double.ofText? (Text.ofInt n)).any _ = true at back
    cases value : Double.ofText? (Text.ofInt n) with
    | none =>
      rw [value] at back
      cases back
    | some d =>
      rw [value] at back
      refine ⟨_, rfl, _, _, rfl, ?_⟩
      rw [if_neg (Int.not_lt.mpr positive)]
      exact spelled_number (decimalNumeral_ofInt positive) rfl value back
        (fun exact => by cases exact) rfl
  | num d =>
    -- Neither not-a-number nor the infinities can be written as literals.
    cases d with
    | nan | infinite => cases sound
    | finite negative m e canonical =>
      cases negative with
      | true => cases sound
      | false =>
        have numeral := decimalNumeral_numeral canonical
        have value : Double.ofText? (Double.numeral (.finite false m e canonical)) = some _ :=
          beq_iff_eq.mp back
        refine ⟨_, rfl, _, _, rfl, ?_⟩
        rw [startsWith_numeral numeral, if_neg Bool.false_ne_true]
        exact spelled_number numeral rfl value same_finite (fun _ => rfl) rfl
  | text s =>
    refine ⟨.ofText (Literal.quote s) .primary, literal_text s, _, _, rfl, spelled_string s⟩
  | _ => cases plain

end Names

/-! ## Nodes -/

/-- An expression is printed as a text that is read as it, at any level. -/
def RendersExpression (indent : Text) (e : Tree) : Prop :=
  ∀ i, Gives (visit indent i e) (IsSpelled e)

/-- What is printed for a statement. -/
def IsSpelledStatement (s : Tree) (printed : Printed) : Prop :=
  ∃ x, printed = .statement x ∧ SpelledStatement s x

/-- A statement is printed as a text that is read as it, at any level. -/
def RendersStatement (indent : Text) (s : Tree) : Prop :=
  ∀ i, Gives (visit indent i s) (IsSpelledStatement s)

/-- A declarator of a name that is no keyword, without a value or with one that is read back. -/
inductive RendersDeclarator (indent : Text) : Tree → Prop where
  | bare {l l' n} (free : isFree n = true) :
    RendersDeclarator indent (.node l (.variableDeclarator (identifierAt l' n) .null))
  | initialized {l l' n init} (free : isFree n = true) (some : init.isNull = false)
      (value : RendersExpression indent init) :
    RendersDeclarator indent (.node l (.variableDeclarator (identifierAt l' n) init))

/-- What is printed for a tree of each sort is read as it. -/
structure Renders (indent : Text) (t : Tree) : Prop where
  expression : t.isExpression = true → RendersExpression indent t
  statement : t.isStatement = true → RendersStatement indent t
  declarator : t.hasKind .variableDeclarator = true → RendersDeclarator indent t
  declaration : t.hasKind .variableDeclaration = true →
    ∀ i, Gives (declaration indent i t) fun x => SpelledSlot .forInit x t

namespace Renders

variable {indent : Text} {t : Tree}

/-- What is printed for an expression is read as it, and an expression is of no other sort. -/
theorem ofExpression (statement : t.isStatement = false)
    (declarator : t.hasKind .variableDeclarator = false)
    (declaration : t.hasKind .variableDeclaration = false) (h : RendersExpression indent t) :
    Renders indent t where
  expression _ := h
  statement kind := absurd (statement.symm.trans kind) Bool.false_ne_true
  declarator kind := absurd (declarator.symm.trans kind) Bool.false_ne_true
  declaration kind := absurd (declaration.symm.trans kind) Bool.false_ne_true

/-- What is printed for a statement is read as it, and a statement that declares no variables is of no
other sort. -/
theorem ofStatement (expression : t.isExpression = false)
    (declarator : t.hasKind .variableDeclarator = false)
    (declaration : t.hasKind .variableDeclaration = false) (h : RendersStatement indent t) :
    Renders indent t where
  expression kind := absurd (expression.symm.trans kind) Bool.false_ne_true
  statement _ := h
  declarator kind := absurd (declarator.symm.trans kind) Bool.false_ne_true
  declaration kind := absurd (declaration.symm.trans kind) Bool.false_ne_true

end Renders

section Nodes

variable {l : Option Location} {indent : Text} {i : Nat} {t : Tree} {ts : List Tree} {q : Precedence}

variable {β : Type} {R : β → Prop}

/-- An expression is printed in the place of an operand, and then something else. -/
theorem RendersExpression.operand {f : Tree → Except PrintError β} (h : RendersExpression indent t)
    (bound : q ≤ 16) (rest : ∀ p x, q ≤ p → Spelled t p x → Gives (f (.text x)) R) :
    Gives (visit indent i t >>= fun printed => printed.operand q >>= f) R :=
  gives_bind (h i) fun _ spelled => gives_bind (gives_spelledOperand spelled bound)
    fun _ ⟨p, x, same, tight, spelled⟩ => same ▸ rest p x tight spelled

/-- A statement is printed on a line, and then something else. -/
theorem RendersStatement.line {f : Text → Except PrintError β} (h : RendersStatement indent t)
    (rest : ∀ x, SpelledStatement t x → Gives (f x) R) :
    Gives (visit indent i t >>= fun printed => printed.line >>= f) R :=
  gives_bind (h i) fun _ ⟨x, same, spelled⟩ => same ▸ rest x spelled

/-- The expressions of a row are read back. -/
theorem gives_spelledRow (parts : ∀ e ∈ ts, RendersExpression indent e) :
    Gives (operands indent i (.tuple ts)) fun written =>
      ∃ xs : List Text, written = xs.map Tree.text ∧ SpelledRow xs ts := by
  rw [operands]
  induction ts with
  | nil => exact gives_ok ⟨[], rfl, .nil⟩
  | cons e rest ih =>
    rw [List.forall_mem_cons] at parts
    rw [operandItems]
    refine parts.1.operand (by decide) fun p x tight spelled => gives_bind (ih parts.2) ?_
    rintro _ ⟨xs, rfl, others⟩
    exact gives_ok ⟨x :: xs, rfl, .cons ⟨_, rfl, spelled.at tight⟩ others⟩

/-- The expressions of a row with commas between them. -/
theorem gives_spelledList {f : Text → Except PrintError β}
    (parts : ∀ e ∈ ts, RendersExpression indent e)
    (rest : ∀ xs, SpelledRow xs ts → Gives (f (Text.join ", " xs)) R) :
    Gives (operands indent i (.tuple ts) >>= fun written => commaList written >>= f) R := by
  refine gives_bind (gives_spelledRow parts) ?_
  rintro _ ⟨xs, rfl, row⟩
  rw [commaList_texts]
  exact rest xs row

/-- The expressions of a row of at least one with commas between them, the first by itself. -/
theorem gives_spelledSequence {a : Tree} {f : Text → Except PrintError β}
    (first : RendersExpression indent a) (others : ∀ e ∈ ts, RendersExpression indent e)
    (rest : ∀ p x xs, Precedence.assignment ≤ p → Spelled a p x → SpelledRow xs ts →
      Gives (f (Text.join ", " (x :: xs))) R) :
    Gives (operands indent i (.tuple (a :: ts)) >>= fun written => commaList written >>= f) R := by
  have more := gives_spelledRow (i := i) others
  -- The first part is written as tightly as an assignment, and so are the others.
  have row : Gives (operands indent i (.tuple (a :: ts))) fun written => ∃ p x xs,
      written = (x :: xs).map Tree.text ∧ Precedence.assignment ≤ p ∧ Spelled a p x ∧
        SpelledRow xs ts := by
    rw [operands] at more ⊢
    rw [operandItems]
    refine first.operand (by decide) fun p x tight spelled => gives_bind more ?_
    rintro _ ⟨xs, rfl, spelledOthers⟩
    exact gives_ok ⟨p, x, xs, rfl, tight, spelled, spelledOthers⟩
  refine gives_bind row ?_
  rintro _ ⟨p, x, xs, rfl, tight, spelled, spelledOthers⟩
  rw [commaList_texts]
  exact rest p x xs tight spelled spelledOthers

/-- The statements of a row are read back. -/
theorem gives_spelledLines (parts : ∀ s ∈ ts, RendersStatement indent s) :
    Gives (lines indent i (.tuple ts)) fun xs => List.Forall₂ IsLineOf xs (ts.map Tree.braced) := by
  rw [lines]
  induction ts with
  | nil => exact gives_ok .nil
  | cons s rest ih =>
    rw [List.forall_mem_cons] at parts
    rw [lineItems]
    refine parts.1.line fun x spelled => gives_bind (ih parts.2) fun xs others => ?_
    exact gives_ok (.cons ⟨_, spelled⟩ others)

/-- The declarators of a row are read back. -/
theorem gives_spelledDeclarators (parts : ∀ d ∈ ts, RendersDeclarator indent d) :
    Gives (declarators indent i (.tuple ts)) fun written =>
      ∃ xs : List Text, written = xs.map Tree.text ∧ SpelledDeclarators xs ts := by
  rw [declarators]
  -- By induction on the declarators, each with a value or without one.
  induction ts with
  | nil => exact gives_ok ⟨[], rfl, .nil⟩
  | cons d rest ih =>
    rw [List.forall_mem_cons] at parts
    obtain ⟨first, others⟩ := parts
    cases first with
    | @bare l l' n free =>
      rw [declaratorItems]
      refine gives_bind (gives_ok rfl) fun _ named => ?_
      rw [if_pos (show Tree.null.isNull = true from rfl)]
      refine gives_bind (gives_ok named) fun _ first => gives_bind (ih others) ?_
      rintro _ ⟨xs, rfl, spelled⟩
      have read := (spelled_bare (l := l) (k := l') free).mono fun _ => endsName_of_delimits
      exact gives_ok ⟨n :: xs, by rw [← first]; rfl, .cons ⟨_, rfl, read⟩ spelled⟩
    | @initialized l l' n init free some value =>
      rw [declaratorItems]
      refine gives_bind (gives_ok rfl) fun _ named => ?_
      rw [if_neg (by rw [some]; exact Bool.false_ne_true)]
      refine value.operand (by decide) fun p x tight spelled => ?_
      refine gives_bind (gives_ok rfl) fun _ first => gives_bind (ih others) ?_
      rintro _ ⟨xs, rfl, more⟩
      have read := spelled_initialized (l := l) (k := l') free spelled tight
      refine gives_ok ⟨(n ++ " = " ++ x) :: xs, ?_, .cons ⟨_, rfl, read⟩ more⟩
      rw [← first, ← named]
      rfl

/-- The declarators of a row with commas between them. -/
theorem gives_spelledDeclaration {f : Text → Except PrintError β}
    (parts : ∀ d ∈ ts, RendersDeclarator indent d)
    (rest : ∀ xs, SpelledDeclarators xs ts → Gives (f (Text.join ", " xs)) R) :
    Gives (declarators indent i (.tuple ts) >>= fun written => commaList written >>= f) R := by
  refine gives_bind (gives_spelledDeclarators parts) ?_
  rintro _ ⟨xs, rfl, row⟩
  rw [commaList_texts]
  exact rest xs row

/-- The body of a function is read back. -/
theorem gives_spelledBlock (white : IsWhite indent) (parts : ∀ s ∈ ts, RendersStatement indent s) :
    Gives (block indent i (.node l (.block (.tuple ts)))) fun x =>
      Spells anything [.phrase .block] x [.tree (Tree.node l (.block (.tuple ts))).braced] false := by
  rw [block]
  refine gives_bind (gives_spelledLines parts) fun xs row => gives_ok ?_
  have whole := spells_braces (i := i) (l := l) white row
  rw [← Tree.braced_tuple] at whole
  exact whole

end Nodes

/-! ## The heads of loops -/

section Loops

variable {l : Option Location} {indent : Text} {i : Nat} {init test left right body : Tree}

/-- What is written before the first semicolon of a loop. -/
theorem gives_spelledStart
    (kind : init.isNull = false → init.hasKind .variableDeclaration = true ∨ init.isExpression = true)
    (h : init.isNull = false → Renders indent init) :
    Gives (loopStart indent i init) fun written =>
      Gives (textOf written) fun x => SpelledSlot .forInit x init := by
  unfold loopStart
  split
  -- The start declares names.
  · rename_i declared
    have some : init.isNull = false := by
      cases init with
      | node => rfl
      | _ => cases declared
    obtain ⟨x, same, spelled⟩ := (h some).declaration declared i
    rw [same]
    exact gives_ok (gives_ok spelled)
  -- Otherwise it is absent, or an expression.
  · rename_i undeclared
    split
    · rename_i absent
      cases init with
      | null => exact gives_ok (gives_ok .absent)
      | _ => cases absent
    · rename_i some
      rw [Bool.not_eq_true] at some
      refine gives_bind ((h some).expression ((kind some).resolve_left undeclared) i) ?_
      intro _ spelled
      refine (gives_spelledOperand spelled (Nat.zero_le 16)).imp ?_
      rintro _ ⟨p, x, rfl, _, spelled⟩
      exact gives_ok (.start spelled)

/-- What is written for another part of the head of a loop. -/
theorem gives_spelledPart (kind : test.isNull = false → test.isExpression = true)
    (h : test.isNull = false → Renders indent test) :
    Gives (loopPart indent i test) fun written =>
      Gives (spacedPart written) fun x => SpelledSlot .expression x test := by
  unfold loopPart
  split
  -- Without a test nothing is written, not even a blank.
  · rename_i absent
    cases test with
    | null => exact gives_ok (gives_ok .absent)
    | _ => cases absent
  · rename_i some
    rw [Bool.not_eq_true] at some
    refine gives_bind ((h some).expression (kind some) i) ?_
    intro _ spelled
    refine (gives_spelledOperand spelled (Nat.zero_le 16)).imp ?_
    rintro _ ⟨p, x, rfl, _, spelled⟩
    -- A written expression is not empty, so that it is set off by a blank.
    have truthy : (Tree.text x).truthy = true := by
      cases x with
      | nil => cases spelled.head
      | cons => rfl
    rw [spacedPart, if_pos truthy]
    exact gives_ok (SpelledSlot.expression spelled).after_blank

/-- A loop over a collection whose target is read back. -/
theorem renders_forEach (white : IsWhite indent) {domain : Domain}
    (target : ∀ i, Gives (loopTarget indent i left) fun written =>
      ∃ x, written = .text x ∧ Spells delimits [.phrase .forBinding] x [.tree left.braced] false)
    (known : isLoopTarget left.braced = true) (source : RendersExpression indent right)
    (ih : RendersStatement indent body) :
    Renders indent (.node l (.forEach domain left right body)) := by
  -- Only the word between the target and the source depends on the domain.
  have renders : RendersStatement indent (.node l (.forEach domain left right body)) := by
    intro i
    rw [visit_forEach]
    refine gives_bind (target i) ?_
    rintro _ ⟨x, rfl, spelled⟩
    cases domain with
    | keys | values =>
      refine source.operand (by decide) fun p y tight read => ?_
      exact ih.line fun z inside =>
        gives_ok ⟨_, rfl, spelled_forEach white spelled known read tight inside⟩
  cases domain with
  | keys | values => exact .ofStatement rfl rfl rfl renders

/-- The variable of a loop over a collection. -/
theorem gives_loopVariable {ld le ln : Option Location} {n : Text} (free : isFree n = true) :
    Gives (loopTarget indent i (loopVariable ld le ln n)) fun written =>
      ∃ x, written = .text x ∧
        Spells delimits [.phrase .forBinding] x [.tree (loopVariable ld le ln n).braced] false := by
  have written : loopTarget indent i (loopVariable ld le ln n) = .ok (.text ("var " ++ n)) := by
    unfold loopTarget
    rw [if_pos (show (loopVariable ld le ln n).hasKind .variableDeclaration = true from rfl),
      loopVariable, Grammar.declared, declaration, declarators, declaratorItems]
    rfl
  refine ⟨_, written, _, rfl, ?_⟩
  have whole := ((spells_word .var "var " rfl).append (spells_name free) meets_anything).make
    (produces_forVariable (l := ld) (k := le) (j := ln)) rfl
  exact whole.mono fun _ => endsName_of_delimits

/-- What a loop over a collection assigns to. -/
theorem gives_spelledTarget (target : left.isAssignable = true) (h : RendersExpression indent left) :
    Gives (loopTarget indent i left) fun written =>
      ∃ x, written = .text x ∧ Spells delimits [.phrase .forBinding] x [.tree left.braced] false := by
  have kind := isExpression_of_isAssignable target
  unfold loopTarget
  rw [if_neg (by rw [undeclared_of_isExpression kind]; exact Bool.false_ne_true)]
  refine gives_bind (h i) ?_
  intro _ spelled
  refine (gives_spelledOperand spelled (by decide)).imp ?_
  rintro _ ⟨p, x, rfl, tight, spelled⟩
  have read : Spells delimits [.phrase (level 15)] x [.tree left.braced] false := spelled.at tight
  exact ⟨x, rfl, read.is produces_forTarget⟩

end Loops

/-! ## Kinds of nodes

One lemma for each kind of node says that it is read back as its parts are. -/

section Kinds

variable {indent op : Text} {l lb : Option Location} {a b c : Tree} {ss ts : List Tree}

/-- The precedence of a binary operator is that of the table. -/
theorem gives_binaryPrecedence (known : op ∈ BinaryOperator.table.map (·.2.1)) :
    Gives (operatorPrecedence (.text op)) fun p => (op, p) ∈ BinaryOperator.table.map (·.2) := by
  have all : ∀ op ∈ BinaryOperator.table.map (·.2.1), ∃ p ∈ infixPrecedence? op,
      (op, p) ∈ BinaryOperator.table.map (·.2) := by
    decide
  obtain ⟨p, found, listed⟩ := all op known
  refine ⟨p, ?_, listed⟩
  simp only [operatorPrecedence, Tree.key, Fault.whilePrinting, Except.mapError, bind, Except.bind,
    Option.mem_def.mp found]
  rfl

/-- The precedence of a logical operator is that of the table. -/
theorem gives_logicalPrecedence (known : op ∈ LogicalOperator.table.map (·.2.1)) :
    Gives (operatorPrecedence (.text op)) fun p => (op, p) ∈ LogicalOperator.table.map (·.2) := by
  have all : ∀ op ∈ LogicalOperator.table.map (·.2.1), ∃ p ∈ infixPrecedence? op,
      (op, p) ∈ LogicalOperator.table.map (·.2) := by
    decide
  obtain ⟨p, found, listed⟩ := all op known
  refine ⟨p, ?_, listed⟩
  simp only [operatorPrecedence, Tree.key, Fault.whilePrinting, Except.mapError, bind, Except.bind,
    Option.mem_def.mp found]
  rfl

/-- A jump is read back with its label. -/
theorem renders_jump {kind : JumpKind} (name : a = .null ∨ IsFreeName a) :
    Renders indent (.node l (.jump kind a)) := by
  cases kind with
  | breaks =>
    refine .ofStatement rfl rfl rfl fun i => ?_
    rw [visit]
    exact gives_bind (gives_spelledName name) fun _ label => gives_ok ⟨_, rfl, spelled_break label⟩
  | continues =>
    refine .ofStatement rfl rfl rfl fun i => ?_
    rw [visit]
    exact gives_bind (gives_spelledName name) fun _ label => gives_ok ⟨_, rfl, spelled_continue label⟩

/-- An operator between its operands. -/
theorem gives_between {i : Nat} {S : Grammar.Symbol} {p : Precedence}
    {shape : Tree → Tree → Shape Tree}
    (joins : Joins S op p shape) (low : 2 ≤ p) (high : p < 15)
    (braced : ∀ a b, (Tree.node l (shape a b)).braced = .node l (shape a.braced b.braced))
    (left : RendersExpression indent a) (right : RendersExpression indent b) :
    Gives (do
      let first ← (← visit indent i a).operand p
      let second ← (← visit indent i b).operand (p + 1)
      return .ofText (first.inline ++ " " ++ op ++ " " ++ second.inline) p)
      (IsSpelled (.node l (shape a b))) := by
  have below : p + 1 ≤ 16 := Nat.le_succ_of_le high
  refine left.operand (Nat.le_of_succ_le below) fun q x tight first => ?_
  refine right.operand below fun r y tightRight second => ?_
  exact gives_ok ⟨_, _, rfl, spelled_between joins low high first tight second
    tightRight (braced a b)⟩

/-- A program is none of the parts that are printed by themselves. -/
theorem renders_program : Renders indent (.node l (.program a)) :=
  ⟨fun kind => absurd kind Bool.false_ne_true, fun kind => absurd kind Bool.false_ne_true,
    fun kind => absurd kind Bool.false_ne_true, fun kind => absurd kind Bool.false_ne_true⟩

/-! Statements. -/

/-- A block is read back with its statements. -/
theorem renders_block (white : IsWhite indent) (parts : ∀ s ∈ ss, RendersStatement indent s) :
    Renders indent (.node l (.block (.tuple ss))) := by
  refine .ofStatement rfl rfl rfl fun i => ?_
  rw [visit]
  exact gives_bind (gives_spelledLines parts) fun _ row => gives_ok ⟨_, rfl, spelled_block white row⟩

/-- A declared function is read back with its name, its parameters and its body. -/
theorem renders_functionDeclaration (white : IsWhite indent) (name : IsFreeName a)
    (names : ∀ p ∈ ts, IsFreeName p) (parts : ∀ s ∈ ss, RendersStatement indent s) :
    Renders indent
      (.node l (.function .declaration a (.tuple ts) (.node lb (.block (.tuple ss))))) := by
  refine .ofStatement rfl rfl rfl fun i => ?_
  rw [visit]
  refine gives_bind (gives_spelledParams names) ?_
  rintro _ ⟨xs, rfl, row⟩
  refine gives_bind (gives_freeName name) ?_
  rintro _ ⟨l', n, rfl, free, rfl⟩
  refine gives_bind (gives_spelledBlock white parts) fun x inside => ?_
  exact gives_ok ⟨_, rfl, spelled_functionDeclaration free row inside⟩

/-- A returned value is read back, or that there is none. -/
theorem renders_return (part : a.isNull = false → RendersExpression indent a) :
    Renders indent (.node l (.returnStatement a)) := by
  refine .ofStatement rfl rfl rfl fun i => ?_
  rw [visit]
  split
  · rename_i absent
    cases a with
    | null => exact gives_ok ⟨_, rfl, spelled_bareReturn⟩
    | _ => cases absent
  · rename_i some
    rw [Bool.not_eq_true] at some
    exact (part some).operand (by decide) fun p x _ spelled =>
      gives_ok ⟨_, rfl, spelled_return spelled⟩

/-- A declaration is read back both as a statement and in the head of a loop. -/
theorem renders_declaration (some : ts ≠ []) (each : ∀ d ∈ ts, RendersDeclarator indent d) :
    Renders indent (.node l (.variableDeclaration (.tuple ts) (.text Tree.varKind))) := by
  refine ⟨fun kind => absurd kind Bool.false_ne_true, fun _ i => ?_,
    fun kind => absurd kind Bool.false_ne_true, fun _ i => ?_⟩
  · rw [visit]
    exact gives_spelledDeclaration each fun xs row => gives_ok ⟨_, rfl, spelled_variables row some⟩
  · rw [declaration]
    exact gives_spelledDeclaration each fun xs row => gives_ok (spelled_forVariables row some)

/-- A declarator is read back with its initial value, or that it has none. -/
theorem renders_declarator (name : IsFreeName a)
    (part : b.isNull = false → RendersExpression indent b) :
    Renders indent (.node l (.variableDeclarator a b)) := by
  refine ⟨fun kind => absurd kind Bool.false_ne_true, fun kind => absurd kind Bool.false_ne_true,
    fun _ => ?_, fun kind => absurd kind Bool.false_ne_true⟩
  obtain ⟨l', n, rfl, free⟩ := name
  cases present : b.isNull with
  | true =>
    cases b with
    | null => exact .bare free
    | _ => cases present
  | false => exact .initialized free present (part present)

/-- A conditional statement is read back, with or without an alternate. -/
theorem renders_if (white : IsWhite indent) (test : RendersExpression indent a)
    (yes : RendersStatement indent b) (no : c.isNull = false → RendersStatement indent c) :
    Renders indent (.node l (.ifStatement a b c)) := by
  refine .ofStatement rfl rfl rfl fun i => ?_
  rw [visit]
  refine test.operand (by decide) fun p x _ condition => ?_
  refine yes.line fun y first => ?_
  split
  · rename_i absent
    cases c with
    | null => exact gives_ok ⟨_, rfl, spelled_if white condition first⟩
    | _ => cases absent
  · rename_i some
    rw [Bool.not_eq_true] at some
    refine (no some).line fun z last => ?_
    exact gives_ok ⟨_, rfl, spelled_ifElse white condition first some last⟩

/-- A loop with a head of three parts is read back. -/
theorem renders_for (white : IsWhite indent) {init test step body : Tree}
    (initKind : init.isNull = false →
      init.hasKind .variableDeclaration = true ∨ init.isExpression = true)
    (start : init.isNull = false → Renders indent init)
    (testKind : test.isNull = false → test.isExpression = true)
    (condition : test.isNull = false → Renders indent test)
    (stepKind : step.isNull = false → step.isExpression = true)
    (advance : step.isNull = false → Renders indent step) (ih : RendersStatement indent body) :
    Renders indent (.node l (.forStatement init test step body)) := by
  refine .ofStatement rfl rfl rfl fun i => ?_
  rw [visit_forStatement]
  -- The parts of the head are all looked at before the first of them is written.
  refine gives_bind (gives_spelledStart initKind start) fun _ start => ?_
  refine gives_bind (gives_spelledPart testKind condition) fun _ condition => ?_
  refine gives_bind (gives_spelledPart stepKind advance) fun _ advance => ?_
  refine gives_bind start fun _ start => ?_
  refine gives_bind condition fun _ condition => ?_
  refine gives_bind advance fun _ advance => ?_
  exact ih.line fun x inside => gives_ok ⟨_, rfl, spelled_for white start condition advance inside⟩

/-- A loop with a condition before its body is read back. -/
theorem renders_while (white : IsWhite indent) (test : RendersExpression indent a)
    (body : RendersStatement indent b) : Renders indent (.node l (.whileStatement a b)) := by
  refine .ofStatement rfl rfl rfl fun i => ?_
  rw [visit]
  refine test.operand (by decide) fun p x _ condition => ?_
  exact body.line fun y inside => gives_ok ⟨_, rfl, spelled_while white condition inside⟩

/-- So is one with the condition after the body. -/
theorem renders_doWhile (white : IsWhite indent) (body : RendersStatement indent a)
    (test : RendersExpression indent b) : Renders indent (.node l (.doWhileStatement a b)) := by
  refine .ofStatement rfl rfl rfl fun i => ?_
  rw [visit]
  refine body.line fun y inside => ?_
  exact test.operand (by decide) fun p x _ condition =>
    gives_ok ⟨_, rfl, spelled_doWhile white inside condition⟩

/-- An expression is read back where it stands for a statement. -/
theorem renders_expressionStatement (part : RendersExpression indent a) :
    Renders indent (.node l (.expressionStatement a)) := by
  refine .ofStatement rfl rfl rfl fun i => ?_
  rw [visit]
  exact part.operand (by decide) fun p x _ spelled =>
    gives_bind (gives_ok rfl) fun _ same =>
      gives_ok ⟨_, rfl, same ▸ spelled_expressionStatement spelled⟩

/-- The empty statement is read back. -/
theorem renders_emptyStatement : Renders indent (.node l .emptyStatement) := by
  refine .ofStatement rfl rfl rfl fun i => ?_
  rw [visit]
  exact gives_ok ⟨_, rfl, spelled_empty⟩

/-- A statement is read back with its label. -/
theorem renders_labeled (name : IsFreeName a) (part : RendersStatement indent b) :
    Renders indent (.node l (.labeled a b)) := by
  refine .ofStatement rfl rfl rfl fun i => ?_
  rw [visit]
  refine gives_bind (gives_freeName name) ?_
  rintro _ ⟨l', n, same, free, rfl⟩
  refine gives_bind (part i) ?_
  rintro _ ⟨x, rfl, inside⟩
  rw [same]
  exact gives_ok ⟨_, rfl, spelled_labeled free inside⟩

/-! Expressions. -/

/-- A function is read back with its name, if it has one, its parameters and its body. -/
theorem renders_functionExpression (white : IsWhite indent) (name : a = .null ∨ IsFreeName a)
    (names : ∀ p ∈ ts, IsFreeName p) (parts : ∀ s ∈ ss, RendersStatement indent s) :
    Renders indent
      (.node l (.function .expression a (.tuple ts) (.node lb (.block (.tuple ss))))) := by
  refine .ofExpression rfl rfl rfl fun i => ?_
  rw [visit]
  refine gives_bind (gives_spelledName name) fun _ spelled => ?_
  refine gives_bind (gives_spelledParams names) ?_
  rintro _ ⟨xs, rfl, row⟩
  refine gives_bind (gives_spelledBlock white parts) fun x inside => ?_
  exact gives_ok ⟨_, _, rfl, spelled_function spelled row inside⟩

/-- A free name is read back. -/
theorem renders_identifier {n : Text} (free : isFree n = true) :
    Renders indent (.node l (.identifier (.text n))) := by
  refine .ofExpression rfl rfl rfl fun i => ?_
  rw [visit]
  exact gives_ok ⟨_, _, rfl, spelled_identifier free⟩

/-- A legible literal is read back. -/
theorem renders_literal (plain : a.isPlain = true) (legible : (Tree.node l (.literal a)).Legible) :
    Renders indent (.node l (.literal a)) := by
  refine .ofExpression rfl rfl rfl fun i => ?_
  rw [visit]
  exact gives_spelledLiteral plain legible

/-- An array is read back with its elements. -/
theorem renders_array (parts : ∀ e ∈ ts, RendersExpression indent e) :
    Renders indent (.node l (.array (.tuple ts))) := by
  refine .ofExpression rfl rfl rfl fun i => ?_
  rw [visit]
  exact gives_spelledList parts fun xs row => gives_ok ⟨_, _, rfl, spelled_array row⟩

/-- A sequence of at least two expressions is read back. -/
theorem renders_sequence (several : 2 ≤ ts.length) (parts : ∀ e ∈ ts, RendersExpression indent e) :
    Renders indent (.node l (.sequence (.tuple ts))) := by
  refine .ofExpression rfl rfl rfl fun i => ?_
  rw [visit]
  obtain ⟨a, b, rest, rfl⟩ : ∃ a b rest, ts = a :: b :: rest := by
    cases ts with
    | nil => exact absurd several (by decide)
    | cons a rest =>
      cases rest with
      | nil => exact absurd several (Nat.not_succ_le_self 1)
      | cons b rest => exact ⟨a, b, rest, rfl⟩
  rw [List.forall_mem_cons] at parts
  refine gives_spelledSequence parts.1 parts.2 fun p x xs tight first row => ?_
  cases row with
  | cons second others =>
    exact gives_ok ⟨_, _, rfl, spelled_sequence first tight (.cons second others)⟩

/-- A call is read back with its arguments. -/
theorem renders_call (callee : RendersExpression indent a)
    (parts : ∀ e ∈ ts, RendersExpression indent e) :
    Renders indent (.node l (.call a (.tuple ts))) := by
  refine .ofExpression rfl rfl rfl fun i => ?_
  rw [visit]
  refine callee.operand (by decide) fun p x tight function => ?_
  exact gives_spelledList parts fun xs row => gives_ok ⟨_, _, rfl, spelled_call function tight row⟩

/-- A property by its name is read back. -/
theorem renders_member (object : RendersExpression indent a) (name : IsFreeName b) :
    Renders indent (.node l (.member a b (.bool false))) := by
  obtain ⟨ln, n, rfl, free⟩ := name
  refine .ofExpression rfl rfl rfl fun i => ?_
  rw [visit]
  exact object.operand (by decide) fun p x tight owner =>
    gives_ok ⟨_, _, rfl, spelled_member owner tight free⟩

/-- So is one by its key. -/
theorem renders_computedMember (object : RendersExpression indent a)
    (key : RendersExpression indent b) :
    Renders indent (.node l (.member a b (.bool true))) := by
  refine .ofExpression rfl rfl rfl fun i => ?_
  rw [visit]
  refine object.operand (by decide) fun p x tight owner => ?_
  exact key.operand (by decide) fun q y _ inside =>
    gives_ok ⟨_, _, rfl, spelled_computed owner tight inside⟩

/-- A conditional expression is read back. -/
theorem renders_conditional (test : RendersExpression indent a) (yes : RendersExpression indent b)
    (no : RendersExpression indent c) : Renders indent (.node l (.conditional a b c)) := by
  refine .ofExpression rfl rfl rfl fun i => ?_
  rw [visit]
  refine test.operand (by decide) fun p x tight first => ?_
  refine yes.operand (by decide) fun q y tightYes second => ?_
  refine no.operand (by decide) fun r z tightNo third => ?_
  exact gives_ok ⟨_, _, rfl, spelled_conditional first tight second tightYes third tightNo⟩

/-- An assignment is read back. -/
theorem renders_assignment (known : op ∈ assignmentSpellings) (target : a.isAssignable = true)
    (left : RendersExpression indent a) (right : RendersExpression indent b) :
    Renders indent (.node l (.assignment (.text op) a b)) := by
  refine .ofExpression rfl rfl rfl fun i => ?_
  rw [visit]
  refine left.operand (by decide) fun p x tight first => ?_
  refine right.operand (by decide) fun q y tightRight second => ?_
  exact gives_ok ⟨_, _, rfl, spelled_assignment known target first tight second tightRight⟩

/-- A binary operation is read back. -/
theorem renders_binary (known : op ∈ BinaryOperator.table.map (·.2.1))
    (left : RendersExpression indent a) (right : RendersExpression indent b) :
    Renders indent (.node l (.binary (.text op) a b)) := by
  refine .ofExpression rfl rfl rfl fun i => ?_
  rw [visit]
  refine gives_bind (gives_binaryPrecedence known) fun p listed => ?_
  obtain ⟨low, high, _, joins⟩ := joins_of_binary listed
  exact gives_between joins low high (fun _ _ => rfl) left right

/-- A logical operation is read back. -/
theorem renders_logical (known : op ∈ LogicalOperator.table.map (·.2.1))
    (left : RendersExpression indent a) (right : RendersExpression indent b) :
    Renders indent (.node l (.logical (.text op) a b)) := by
  refine .ofExpression rfl rfl rfl fun i => ?_
  rw [visit]
  refine gives_bind (gives_logicalPrecedence known) fun p listed => ?_
  obtain ⟨low, high, _, joins⟩ := joins_of_logical listed
  exact gives_between joins low high (fun _ _ => rfl) left right

/-- An operator before its operand is read back. -/
theorem renders_unary (known : op ∈ UnaryOperator.table.map (·.2))
    (part : RendersExpression indent a) :
    Renders indent (.node l (.unary (.text op) a (.bool true))) := by
  refine .ofExpression rfl rfl rfl fun i => ?_
  rw [visit]
  refine part.operand (by decide) fun p x tight spelled => ?_
  obtain ⟨y, text, whole⟩ := spelled_unary known spelled tight
  exact gives_bind ⟨y, text, rfl⟩ fun _ same => gives_ok ⟨_, _, rfl, same ▸ whole⟩

/-- An update is read back, with its operator before or after its operand. -/
theorem renders_update {isPrefix : Bool} (known : op ∈ UpdateOperator.table.map (·.2))
    (target : a.isAssignable = true) (part : RendersExpression indent a) :
    Renders indent (.node l (.update (.text op) a (.bool isPrefix))) := by
  refine .ofExpression rfl rfl rfl fun i => ?_
  rw [visit]
  cases isPrefix with
  | true =>
    exact part.operand (by decide) fun p x tight spelled =>
      gives_ok ⟨_, _, rfl, spelled_updateBefore known target spelled tight⟩
  | false =>
    exact part.operand (by decide) fun p x tight spelled =>
      gives_ok ⟨_, _, rfl, spelled_updateAfter known target spelled tight⟩

end Kinds

/-! ## The induction -/

/-- What is printed for a legible, well-formed node is read as it. -/
theorem renders_of_wellFormed {indent : Text} (white : IsWhite indent) {checked : Bool} {c : Targets}
    {t : Tree} (h : WellFormed checked c t) (legible : t.Legible) : Renders indent t := by
  -- By induction on the judgement: parts of a legible node are legible, so that they are read back.
  induction h with
  | program => exact renders_program
  | block kinds _ ih =>
    have parts := legible.child (.head _)
    exact renders_block white fun s hs => (ih s hs (parts.item hs)).statement (kinds s hs)
  | @function _ l form _ ps lb ss named name params kinds _ ih =>
    have inside := (legible.child (.tail _ (.tail _ (.head _)))).child (.head _)
    have names : ∀ p ∈ ps, IsFreeName p := fun p hp =>
      isFreeName_of_legible (params p hp) ((legible.child (.tail _ (.head _))).item hp)
    have body : ∀ s ∈ ss, RendersStatement indent s := fun s hs =>
      (ih s hs (inside.item hs)).statement (kinds s hs)
    cases form with
    | declaration =>
      exact renders_functionDeclaration white
        (isFreeName_of_legible (named rfl) (legible.child (.head _))) names body
    | expression =>
      exact renders_functionExpression white (absent_or_free name
        (legible.child (.head _))) names body
  | returnStatement kind _ ih =>
    exact renders_return fun some => (ih some (legible.child (.head _))).expression (kind some)
  | variableDeclaration some kinds _ ih =>
    have parts := legible.child (.head _)
    exact renders_declaration some fun d hd => (ih d hd (parts.item hd)).declarator (kinds d hd)
  | variableDeclarator name kind _ ih =>
    exact renders_declarator (isFreeName_of_legible name (legible.child (.head _))) fun some =>
      (ih some (legible.child (.tail _ (.head _)))).expression (kind some)
  | ifStatement testKind _ kind _ elseKind _ ihTest ih ihElse =>
    exact renders_if white ((ihTest (legible.child (.head _))).expression testKind)
      ((ih (legible.child (.tail _ (.head _)))).statement kind) fun some =>
        (ihElse some (legible.child (.tail _ (.tail _ (.head _))))).statement (elseKind some)
  | forStatement initKind _ testKind _ stepKind _ kind _ ihInit ihTest ihStep ih =>
    exact renders_for white initKind (fun some => ihInit some (legible.child (.head _))) testKind
      (fun some => ihTest some (legible.child (.tail _ (.head _)))) stepKind
      (fun some => ihStep some (legible.child (.tail _ (.tail _ (.head _)))))
      ((ih (legible.child (.tail _ (.tail _ (.tail _ (.head _)))))).statement kind)
  | @forEachDeclared _ _ _ ld le id right body name rightKind _ kind _ ihRight ih =>
    have declared := legible.child (.head _)
    have declarator := (declared.child (.head _)).item (.head _)
    obtain ⟨ln, n, rfl, free⟩ := isFreeName_of_legible name (declarator.child (.head _))
    exact renders_forEach white (fun i => gives_loopVariable free) rfl
      ((ihRight (legible.child (.tail _ (.head _)))).expression rightKind)
      ((ih (legible.child (.tail _ (.tail _ (.head _))))).statement kind)
  | forEach target _ rightKind _ kind _ ihLeft ihRight ih =>
    have left := (ihLeft (legible.child (.head _))).expression (isExpression_of_isAssignable target)
    exact renders_forEach white (fun i => gives_spelledTarget target left)
      (isLoopTarget_braced target)
      ((ihRight (legible.child (.tail _ (.head _)))).expression rightKind)
      ((ih (legible.child (.tail _ (.tail _ (.head _))))).statement kind)
  | whileStatement testKind _ kind _ ihTest ih =>
    exact renders_while white ((ihTest (legible.child (.head _))).expression testKind)
      ((ih (legible.child (.tail _ (.head _)))).statement kind)
  | doWhileStatement testKind _ kind _ ihTest ih =>
    exact renders_doWhile white ((ih (legible.child (.head _))).statement kind)
      ((ihTest (legible.child (.tail _ (.head _)))).expression testKind)
  | expressionStatement kind _ ih =>
    exact renders_expressionStatement ((ih (legible.child (.head _))).expression kind)
  | emptyStatement => exact renders_emptyStatement
  | bareJump => exact renders_jump (.inl rfl)
  | jump spelled =>
    exact renders_jump (.inr (isFreeName_of_legible (.mk _ spelled) (legible.child (.head _))))
  | labeled spelled _ kind _ ih =>
    exact renders_labeled (isFreeName_of_legible (.mk _ spelled) (legible.child (.head _)))
      ((ih (legible.child (.tail _ (.head _)))).statement kind)
  | identifier => exact renders_identifier legible.self.1
  | literal plain => exact renders_literal plain legible
  | array kinds _ ih =>
    have parts := legible.child (.head _)
    exact renders_array fun e he => (ih e he (parts.item he)).expression (kinds e he)
  | sequence _ kinds _ ih =>
    have parts := legible.child (.head _)
    exact renders_sequence (of_decide_eq_true legible.self.1) fun e he =>
      (ih e he (parts.item he)).expression (kinds e he)
  | call kind _ kinds _ ih ihs =>
    have parts := legible.child (.tail _ (.head _))
    exact renders_call ((ih (legible.child (.head _))).expression kind) fun e he =>
      (ihs e he (parts.item he)).expression (kinds e he)
  | member kind _ name ih =>
    exact renders_member ((ih (legible.child (.head _))).expression kind)
      (isFreeName_of_legible name (legible.child (.tail _ (.head _))))
  | computedMember kind _ keyKind _ ih ihKey =>
    exact renders_computedMember ((ih (legible.child (.head _))).expression kind)
      ((ihKey (legible.child (.tail _ (.head _)))).expression keyKind)
  | conditional testKind _ kind _ elseKind _ ihTest ih ihElse =>
    exact renders_conditional ((ihTest (legible.child (.head _))).expression testKind)
      ((ih (legible.child (.tail _ (.head _)))).expression kind)
      ((ihElse (legible.child (.tail _ (.tail _ (.head _))))).expression elseKind)
  | assignment known target _ kind _ ihLeft ih =>
    exact renders_assignment known target
      ((ihLeft (legible.child (.tail _ (.head _)))).expression (isExpression_of_isAssignable target))
      ((ih (legible.child (.tail _ (.tail _ (.head _))))).expression kind)
  | binary known leftKind _ kind _ ihLeft ih =>
    exact renders_binary known ((ihLeft (legible.child (.tail _ (.head _)))).expression leftKind)
      ((ih (legible.child (.tail _ (.tail _ (.head _))))).expression kind)
  | logical known leftKind _ kind _ ihLeft ih =>
    exact renders_logical known ((ihLeft (legible.child (.tail _ (.head _)))).expression leftKind)
      ((ih (legible.child (.tail _ (.tail _ (.head _))))).expression kind)
  | @unary _ _ _ _ isPrefix known kind _ ih =>
    obtain rfl : isPrefix = true := legible.self.1
    exact renders_unary known ((ih (legible.child (.tail _ (.head _)))).expression kind)
  | update known target _ ih =>
    exact renders_update known target
      ((ih (legible.child (.tail _ (.head _)))).expression (isExpression_of_isAssignable target))

end TailLoop.Print
