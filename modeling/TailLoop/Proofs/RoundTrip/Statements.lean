import TailLoop.Proofs.RoundTrip.Expressions

/-!
# Printed statements

What is written for a statement is read as it, at any level of indentation, as long as the
indentation is white space (`SpelledStatement`). One lemma for each kind of statement says so, given
the same of its parts.
-/

namespace TailLoop.Print

open Source Grammar

/-! ## White space -/

/-- A text of white space. -/
def IsWhite (x : Text) : Prop := ∀ c ∈ x, isSpace c = true

instance (x : Text) : Decidable (IsWhite x) :=
  inferInstanceAs (Decidable (∀ c ∈ x, isSpace c = true))

/-- A blank is white. -/
theorem isWhite_blank : IsWhite " " := List.forall_mem_singleton.mpr rfl

variable {indent x y z : Text} {i : Nat}

/-- A white indentation is white at each depth. -/
theorem isWhite_pad (white : IsWhite indent) : IsWhite (pad indent i) := by
  intro c hc
  obtain ⟨part, inside, hc⟩ := List.mem_flatten.mp hc
  rw [List.eq_of_mem_replicate inside] at hc
  exact white c hc

/-- A line break and its indentation are white. -/
theorem isWhite_lineBreak (white : IsWhite indent) : IsWhite (lineBreak indent i) :=
  List.forall_mem_append.mpr ⟨List.forall_mem_singleton.mpr rfl, isWhite_pad white⟩

/-- What separates a statement from the keyword after it is white. -/
theorem isWhite_following (white : IsWhite indent) {b : Bool} :
    IsWhite (following indent i b) := by
  unfold following
  split
  · exact isWhite_blank
  · exact isWhite_lineBreak white

/-! ## Blocks -/

variable {l k : Option Location} {a b c : Tree} {ts : List Tree} {xs : List Text}

/-- A text that is read as a statement. An `else` after it may belong to an `if` at its end. -/
def SpelledStatement (s : Tree) (x : Text) : Prop :=
  Spells anything [.phrase .statement] x [.tree s.braced] (endsOpen s)

/-- A text that is read as a part of a row of statements. -/
def IsLineOf (x : Text) (t : Tree) : Prop :=
  ∃ isOpen, Spells anything [.phrase .statement] x [.tree t] isOpen

/-- White text in front of a line leaves it the line of its statement. -/
theorem IsLineOf.after_space (h : IsLineOf y a) (white : IsWhite x) : IsLineOf (x ++ y) a := by
  obtain ⟨isOpen, spells⟩ := h
  exact ⟨isOpen, spells.after_space white⟩

/-- The statements of a row, one a line. -/
theorem spells_lines (parts : List.Forall₂ IsLineOf (x :: xs) (a :: ts)) :
    ∃ isOpen, Spells anything [.phrase .statements] (Text.join [Text.newline] (x :: xs))
      [.trees (a :: ts)] isOpen := by
  cases parts with
  | cons first others =>
    rw [join_cons]
    obtain ⟨isOpen, spells⟩ := first
    have start := spells.make produces_statement rfl
    refine grows (P := fun z us => ∃ o, Spells anything [.phrase .statements] z [.trees us] o)
      (fun z us y u before next => ?_) others ⟨isOpen, start⟩
    obtain ⟨o, before⟩ := before
    obtain ⟨o', next⟩ := next
    have line : IsWhite [Text.newline] := List.forall_mem_singleton.mpr rfl
    exact ⟨o', (before.and_then (next.after_space line) meets_anything fun _ => nofun).make
      produces_statements rfl⟩

/-- Statements between braces. -/
theorem spells_braces (white : IsWhite indent) (parts : List.Forall₂ IsLineOf xs ts) :
    Spells anything [.phrase .block] (braces indent i xs) [.tree (.node l (.block (.tuple ts)))]
      false := by
  have close := spells_sign .rightBrace "\x7d" rfl
  unfold braces
  cases parts with
  -- Without statements the braces stand side by side.
  | nil =>
    exact ((spells_sign .leftBrace "\x7b" rfl).append close meets_anything).make
      (produces_block .absent) rfl
  | @cons y u ys us first others =>
    -- Each line is indented, which the grammar does not see.
    have padded : List.Forall₂ IsLineOf ((y :: ys).map (pad indent (i + 1) ++ ·)) (u :: us) :=
      List.forall₂_map_left_iff.mpr
        ((List.Forall₂.cons first others).imp fun _ _ h => h.after_space (isWhite_pad white))
    rw [List.map_cons] at padded
    obtain ⟨isOpen, inner⟩ := spells_lines padded
    have line : IsWhite [Text.newline] := List.forall_mem_singleton.mpr rfl
    have opened := (spells_sign .leftBrace "\x7b" rfl).append (inner.after_space line) meets_anything
    have whole := (opened.and_then (close.after_space (isWhite_lineBreak (i := i) white))
      meets_anything fun _ => nofun).make (produces_block (l := l) .present) rfl
    rw [← List.append_assoc, ← List.append_assoc] at whole
    exact whole

/-! ## Bodies -/

/-- A body on the line of its head or on one of its own. -/
theorem spells_place (white : IsWhite indent) (body : SpelledStatement b y) :
    Spells anything [.phrase .statement] (place indent i b y) [.tree b.braced] (endsOpen b) := by
  unfold place
  split
  · exact Spells.after_space isWhite_blank body
  · exact Spells.after_space (isWhite_lineBreak white) body

/-- A body that is put in its place ends the name before it. -/
theorem meets_place {follow : Nat → Bool} : Meets endsName follow (place indent i b y) := by
  unfold place
  split
  · exact meets_head rfl
  · exact meets_head rfl

/-- A statement put into braces. -/
theorem spells_placeBraced (white : IsWhite indent) (body : SpelledStatement b y) :
    Spells anything [.phrase .statement] (placeBraced indent i y) [.tree (Tree.block [b.braced])]
      false := by
  have block : Spells anything [.phrase .block] (braces indent i [y]) [.tree (Tree.block [b.braced])]
      false := spells_braces white (.cons ⟨_, body⟩ .nil)
  exact (block.is (produces_ofKind (by repeat constructor))).after_space isWhite_blank

/-- A condition in parentheses after a word. -/
theorem spells_condition {w : Terminal} {p : Precedence}
    (word : Spells anything [.terminal w] z [.token w.spelling] false) (test : Spelled a p x) :
    Spells anything [.terminal w, .terminal .leftParen, .phrase .expression, .terminal .rightParen]
      (z ++ parenthesize x) [.token w.spelling, .token "(", .tree a.braced, .token ")"] false := by
  have inner : Spells delimits [.phrase (level 0)] x [.tree a.braced] false := test.at (Nat.zero_le p)
  exact word.append inner.parentheses meets_anything

/-! ## Conditions -/

section Conditions

variable {p : Precedence}

/-- A condition with one branch. -/
theorem spelled_if (white : IsWhite indent) (test : Spelled a p x) (body : SpelledStatement b y) :
    SpelledStatement (.node l (.ifStatement a b .null))
      ("if " ++ parenthesize x ++ place indent i b y) := by
  have joined := (spells_condition (spells_word .if_ "if " rfl) test).append
    (spells_place (i := i) white body) meets_anything
  have whole := (joined.make_open (produces_if (l := l)) (List.cons_ne_nil _ _)).is
    (produces_ofKind (by repeat constructor))
  rw [show isShort .ifStatement _ = true from rfl, Bool.or_true] at whole
  have braced : (Tree.node l (.ifStatement a b .null)).braced =
      .node l (.ifStatement a.braced b.braced .null) := Tree.braced_if (.inl rfl)
  rw [← braced] at whole
  exact whole

/-- A condition whose first branch, in braces or not, is read as a statement that takes no `else`. -/
theorem spells_ifElse (white : IsWhite indent) {u v : Tree} {shut : Bool} {o : Bool}
    (test : Spelled a p x) (yes : Spells anything [.phrase .statement] y [.tree u] false)
    (no : Spells anything [.phrase .statement] z [.tree v] o) (meets : Meets endsName anything z) :
    Spells anything [.phrase .statement]
      ("if " ++ parenthesize x ++ y ++ following indent i shut ++ "else" ++ z)
      [.tree (.node l (.ifStatement a.braced u v))] o := by
  have word := (spells_reserved .else_ "else" rfl).after_space
    (isWhite_following (i := i) (b := shut) white)
  have joined :=
    (((spells_condition (spells_word .if_ "if " rfl) test).append yes meets_anything).append
    word meets_anything).append no meets
  have whole :=
    (joined.make (produces_ifElse (l := l)) rfl).is (produces_ofKind (by repeat constructor))
  rw [← List.append_assoc] at whole
  exact whole

/-- A condition with two branches ends open if the second one does. -/
theorem endsOpen_ifElse (some : c.isNull = false) :
    endsOpen (.node l (.ifStatement a b c)) = endsOpen c := by
  cases c with
  | null => cases some
  | _ => rfl

/-- A condition with two branches, the first in braces if it could take the `else`. -/
theorem spelled_ifElse (white : IsWhite indent) (test : Spelled a p x) (yes : SpelledStatement b y)
    (some : c.isNull = false) (no : SpelledStatement c z) :
    SpelledStatement (.node l (.ifStatement a b c))
      ("if " ++ parenthesize x ++
        (if endsOpen b then placeBraced indent i y else place indent i b y) ++
        following indent i (endsOpen b || isBlock b) ++ "else" ++
        (if c.hasKind .ifStatement then " " ++ z else place indent i c z)) := by
  -- The second branch stands on the same line if it is an `if`, and below otherwise.
  have last : Spells anything [.phrase .statement]
      (if c.hasKind .ifStatement then " " ++ z else place indent i c z) [.tree c.braced]
      (endsOpen c) := by
    split
    · exact Spells.after_space isWhite_blank no
    · exact spells_place white no
  have meets : Meets endsName anything
      (if c.hasKind .ifStatement then " " ++ z else place indent i c z) := by
    split
    · exact meets_head rfl
    · exact meets_place
  unfold SpelledStatement
  rw [endsOpen_ifElse some]
  cases opens : endsOpen b with
  -- An open first branch gets braces, so that `else` belongs to the outer statement.
  | true =>
    rw [Tree.braced_if_open some opens, if_pos rfl]
    exact spells_ifElse white test (spells_placeBraced white yes) last meets
  | false =>
    rw [Tree.braced_if (.inr opens), if_neg Bool.false_ne_true]
    exact spells_ifElse white test (opens ▸ spells_place white yes) last meets

end Conditions

/-! ## Loops -/

section Loops

variable {d : Tree} {p q : Precedence}

/-- What is written in the head of a loop, for a phrase that it has or lacks. -/
def SpelledSlot (A : Phrase) (x : Text) (t : Tree) : Prop :=
  ∃ Xs cs, Slot A Xs cs t.braced ∧ Spells delimits Xs x cs false

/-- A part that is missing is spelled by nothing. -/
theorem SpelledSlot.absent {A : Phrase} : SpelledSlot A [] .null :=
  ⟨[], [], .absent, spells_nil.mono fun _ _ => rfl⟩

/-- A part that is an expression. -/
theorem SpelledSlot.expression (part : Spelled a p x) : SpelledSlot .expression x a := by
  have whole : Spells delimits [.phrase (level 0)] x [.tree a.braced] false := part.at (Nat.zero_le p)
  exact ⟨_, _, .present, whole⟩

/-- A part may have a blank in front of it. -/
theorem SpelledSlot.after_blank {A : Phrase} (part : SpelledSlot A x a) :
    SpelledSlot A (" " ++ x) a := by
  obtain ⟨Xs, cs, slot, spells⟩ := part
  exact ⟨Xs, cs, slot, spells.after_space isWhite_blank⟩

/-- The start of a `for` loop may be an expression. -/
theorem SpelledSlot.start (part : Spelled a p x) : SpelledSlot .forInit x a := by
  have whole : Spells delimits [.phrase (level 0)] x [.tree a.braced] false := part.at (Nat.zero_le p)
  exact ⟨_, _, .present, whole.is produces_forStart⟩

/-- A `for` loop, from its three parts and its body. -/
theorem spelled_for (white : IsWhite indent) (start : SpelledSlot .forInit x a)
    (condition : SpelledSlot .expression y b) (advance : SpelledSlot .expression z c) {w : Text}
    (body : SpelledStatement d w) :
    SpelledStatement (.node l (.forStatement a b c d))
      ("for (" ++ x ++ ";" ++ y ++ ";" ++ z ++ ")" ++ place indent i d w) := by
  obtain ⟨Xs, cs, first, spellsFirst⟩ := start
  obtain ⟨Ys, ds, second, spellsSecond⟩ := condition
  obtain ⟨Zs, es, third, spellsThird⟩ := advance
  -- The head is read part by part, each of which may be missing.
  have semicolon := spells_sign .semicolon ";" rfl
  have begun := (spells_word .for_ "for " rfl).append (spells_sign .leftParen "(" rfl) meets_anything
  have head := begun.append spellsFirst meets_anything
  have parts := (((head.append semicolon (meets_head rfl)).append spellsSecond meets_anything).append
    semicolon (meets_head rfl)).append spellsThird meets_anything
  have last := (spells_sign .rightParen ")" rfl).append (spells_place (i := i) white body)
    meets_anything
  have joined := parts.append last (meets_head rfl)
  have whole := (joined.make (produces_for (l := l) first second third) rfl).is
    (produces_ofKind (by repeat constructor))
  rw [← List.append_assoc] at whole
  exact whole

/-- Braces leave the target of a loop what can be assigned to. -/
theorem isLoopTarget_braced (target : a.isAssignable = true) : isLoopTarget a.braced = true := by
  rw [isLoopTarget, isTarget_braced target, Bool.or_true]

/-- The word of a loop over a collection. -/
def domainWord : Domain → Text
  | .keys => " in "
  | .values => " of "

/-- How tightly the collection of a loop holds together. -/
def domainLevel : Domain → Precedence
  | .keys => .sequence
  | .values => .assignment

/-- A loop over a collection, from its target, its collection and its body. -/
theorem spelled_forEach (white : IsWhite indent) {domain : Domain} {w : Text}
    (target : Spells delimits [.phrase .forBinding] x [.tree a.braced] false)
    (known : isLoopTarget a.braced = true) (source : Spelled b p y) (tight : domainLevel domain ≤ p)
    (body : SpelledStatement d w) :
    SpelledStatement (.node l (.forEach domain a b d))
      ("for " ++ parenthesize (x ++ domainWord domain ++ y) ++ place indent i d w) := by
  have begun := (spells_word .for_ "for " rfl).append (spells_sign .leftParen "(" rfl) meets_anything
  have head := begun.append target meets_anything
  have last := (spells_sign .rightParen ")" rfl).append (spells_place (i := i) white body)
    meets_anything
  -- The two kinds of loop have productions of their own, which read the source at different levels.
  cases domain with
  | keys =>
    have inside : Spells delimits [.phrase (level 0)] y [.tree b.braced] false := source.at tight
    have word := (spells_word .in_ "in " rfl).after_space isWhite_blank
    have joined := ((head.append word (meets_head rfl)).append inside meets_anything).append last
      (meets_head rfl)
    have whole := (joined.make (produces_forIn (l := l) known) rfl).is
      (produces_ofKind (by repeat constructor))
    simp only [List.append_assoc] at whole
    simp only [parenthesize, List.append_assoc]
    exact whole
  | values =>
    have inside : Spells delimits [.phrase (level 1)] y [.tree b.braced] false := source.at tight
    have word := (spells_word .of "of " rfl).after_space isWhite_blank
    have joined := ((head.append word (meets_head rfl)).append inside meets_anything).append last
      (meets_head rfl)
    have whole := (joined.make (produces_forOf (l := l) known) rfl).is
      (produces_ofKind (by repeat constructor))
    simp only [List.append_assoc] at whole
    simp only [parenthesize, List.append_assoc]
    exact whole

/-- A `while` loop. -/
theorem spelled_while (white : IsWhite indent) (test : Spelled a p x) (body : SpelledStatement b y) :
    SpelledStatement (.node l (.whileStatement a b))
      ("while " ++ parenthesize x ++ place indent i b y) := by
  have joined := (spells_condition (spells_word .while_ "while " rfl) test).append
    (spells_place (i := i) white body) meets_anything
  exact (joined.make (produces_while (l := l)) rfl).is (produces_ofKind (by repeat constructor))

/-- A `do` loop, whose body may end so that a blank comes before the condition. -/
theorem spelled_doWhile (white : IsWhite indent) {shut : Bool} (body : SpelledStatement b y)
    (test : Spelled a p x) :
    SpelledStatement (.node l (.doWhileStatement b a))
      ("do" ++ place indent i b y ++ following indent i shut ++ "while " ++ parenthesize
        x ++ ";") := by
  have begun := (spells_reserved .do_ "do" rfl).append (spells_place (i := i) white body) meets_place
  have condition := (spells_condition (spells_word .while_ "while " rfl) test).after_space
    (isWhite_following (i := i) (b := shut) white)
  have joined := (begun.and_then condition meets_anything fun _ => nofun).append
    (spells_sign .semicolon ";" rfl) meets_anything
  have whole :=
    (joined.make (produces_doWhile (l := l)) rfl).is (produces_ofKind (by repeat constructor))
  rw [← List.append_assoc, ← List.append_assoc] at whole
  exact whole

end Loops

/-! ## Simple statements -/

section Simple

variable {p : Precedence} {n : Text}

/-- The empty statement. -/
theorem spelled_empty : SpelledStatement (.node l .emptyStatement) ";" := spells_emptyStatement

/-- A block, from the lines of its statements. -/
theorem spelled_block (white : IsWhite indent)
    (parts : List.Forall₂ IsLineOf xs (ts.map Tree.braced)) :
    SpelledStatement (.node l (.block (.tuple ts))) (braces indent i xs) := by
  have whole := (spells_braces (i := i) (l := l) white parts).is
    (produces_ofKind (by repeat constructor))
  rw [← Tree.braced_tuple] at whole
  exact whole

/-- A statement that is an expression, in parentheses if it starts like a declaration of a function. -/
theorem spelled_expressionStatement (part : Spelled a p x) :
    SpelledStatement (.node l (.expressionStatement a))
      ((if startsFunction x then parenthesize x else x) ++ ";") := by
  have initial : Spells delimits [.phrase .statementExpr]
      (if startsFunction x then parenthesize x else x) [.tree a.braced] false := by
    -- A statement must not begin with the word `function`, so that such an expression is enclosed.
    cases starts : startsFunction x with
    | true =>
      rw [if_pos rfl]
      have initial := part.enclosed.initial.resolve_left Bool.false_ne_true
      exact initial.is produces_initial
    | false =>
      rw [if_neg Bool.false_ne_true]
      have initial := part.initial.resolve_left (by rw [starts]; exact Bool.false_ne_true)
      unfold initialPhrase at initial
      split at initial
      · exact initial
      · exact initial.is produces_initial
  exact ((initial.append (spells_sign .semicolon ";" rfl) (meets_head rfl)).make
    (produces_expressionStatement (l := l)) rfl).is (produces_ofKind (by repeat constructor))

/-- A `return` with a value. -/
theorem spelled_return (part : Spelled a p x) :
    SpelledStatement (.node l (.returnStatement a)) ("return " ++ x ++ ";") := by
  have inner : Spells delimits [.phrase (level 0)] x [.tree a.braced] false := part.at (Nat.zero_le p)
  exact ((((spells_word .return_ "return " rfl).append inner meets_anything).append
    (spells_sign .semicolon ";" rfl) (meets_head rfl)).make
      (produces_return (l := l) .present) rfl).is
      (produces_ofKind (by repeat constructor))

/-- A `return` without a value. -/
theorem spelled_bareReturn : SpelledStatement (.node l (.returnStatement .null)) "return;" :=
  (((spells_reserved .return_ "return" rfl).append (spells_sign .semicolon ";" rfl)
    (meets_head rfl)).make (produces_return (l := l) .absent) rfl).is
      (produces_ofKind (by repeat constructor))

/-- A `break` with or without a label. -/
theorem spelled_break (label : SpelledName a x) :
    SpelledStatement (.node l (.jump .breaks a)) ("break" ++ x ++ ";") := by
  obtain ⟨self, meets, Xs, cs, slot, spells⟩ := label.slot
  have whole := ((((spells_reserved .break_ "break" rfl).append spells (meets_self meets)).append
    (spells_sign .semicolon ";" rfl) (meets_head rfl)).make (produces_break (l := l) slot) rfl).is
      (produces_ofKind (by repeat constructor))
  rw [← self] at whole
  exact whole

/-- A `continue` with or without a label. -/
theorem spelled_continue (label : SpelledName a x) :
    SpelledStatement (.node l (.jump .continues a)) ("continue" ++ x ++ ";") := by
  obtain ⟨self, meets, Xs, cs, slot, spells⟩ := label.slot
  have whole :=
    ((((spells_reserved .continue_ "continue" rfl).append spells (meets_self meets)).append
    (spells_sign .semicolon ";" rfl) (meets_head rfl)).make (produces_continue (l := l) slot) rfl).is
      (produces_ofKind (by repeat constructor))
  rw [← self] at whole
  exact whole

/-- A labelled statement. -/
theorem spelled_labeled (free : isFree n = true) (body : SpelledStatement b y) :
    SpelledStatement (.node l (.labeled (identifierAt k n) b)) (n ++ ": " ++ y) := by
  have colon := (spells_sign .colon ":" rfl).before_blank rfl
  exact ((((spells_name free).append colon (meets_head rfl)).append body meets_anything).make
    (produces_labeled (l := l) (k := k)) rfl).is (produces_ofKind (by repeat constructor))

end Simple

/-! ## Declarations -/

section Declarations

variable {p : Precedence} {n : Text}

/-- The declarators of a row with their texts. -/
abbrev SpelledDeclarators (xs : List Text) (ts : List Tree) : Prop :=
  List.Forall₂ (SpellsItem (.phrase .declarator) fun c t => c = .tree t) xs (ts.map Tree.braced)

/-- A declarator without an initial value. -/
theorem spelled_bare (free : isFree n = true) :
    Spells endsName [.phrase .declarator] n
      [.tree (.node l (.variableDeclarator (identifierAt k n) .null))] false :=
  (spells_name free).make produces_bare rfl

/-- A declarator with an initial value. -/
theorem spelled_initialized (free : isFree n = true) (value : Spelled a p x)
    (tight : Precedence.assignment ≤ p) :
    Spells delimits [.phrase .declarator] (n ++ " = " ++ x)
      [.tree (.node l (.variableDeclarator (identifierAt k n) a.braced))] false := by
  have inner : Spells delimits [.phrase (level 1)] x [.tree a.braced] false := value.at tight
  have sign : IsSign (.terminal .equal) "=" := .terminal (by decide)
  exact (((spells_name free).append sign.padded (meets_head rfl)).append inner meets_anything).make
    produces_initialized rfl

/-- Declarators after `var`. -/
theorem spells_declarators (parts : SpelledDeclarators xs ts) (some : ts ≠ []) :
    Spells delimits [.terminal .var, .phrase .declaratorList] ("var " ++ Text.join ", " xs)
      [.token "var", .trees (ts.map Tree.braced)] false := by
  cases ts with
  | nil => exact (some rfl).elim
  | cons t ts =>
    cases parts with
    | cons first others =>
      exact (spells_word .var "var " rfl).append (declarators_row.row (.cons first others))
        meets_anything

/-- A declaration of variables. -/
theorem spelled_variables (parts : SpelledDeclarators xs ts) (some : ts ≠ []) :
    SpelledStatement (.node l (.variableDeclaration (.tuple ts) (.text Tree.varKind)))
      ("var " ++ Text.join ", " xs ++ ";") := by
  have whole := (((spells_declarators parts some).append (spells_sign .semicolon ";" rfl)
    (meets_head rfl)).make (produces_variables (l := l)) rfl).is
      (produces_ofKind (by repeat constructor))
  rw [← Tree.braced_tuple] at whole
  exact whole

/-- The start of a `for` loop may be a declaration. -/
theorem spelled_forVariables (parts : SpelledDeclarators xs ts) (some : ts ≠ []) :
    SpelledSlot .forInit ("var " ++ Text.join ", " xs)
      (.node l (.variableDeclaration (.tuple ts) (.text Tree.varKind))) := by
  have whole := (spells_declarators parts some).make (produces_forVariables (l := l)) rfl
  rw [← Tree.braced_tuple] at whole
  exact ⟨_, _, .present, whole⟩

/-- A function declaration, from its name, its parameters and its body. -/
theorem spelled_functionDeclaration (free : isFree n = true) {us : List Tree}
    (params : SpelledParams xs us)
    (body : Spells anything [.phrase .block] y [.tree b.braced] false) :
    SpelledStatement (.node l (.function .declaration (identifierAt k n) (.tuple us) b))
      ("function " ++ n ++ parenthesize (Text.join ", " xs) ++ " " ++ y) := by
  obtain ⟨Xs, cs, row, inner⟩ := params_row.slot params
  have last := (spells_sign .rightParen ")" rfl).append (body.after_space isWhite_blank)
    meets_anything
  -- The head of the function is read from its word to its parentheses.
  have joined := ((((spells_word .function "function " rfl).append (spells_name free)
    meets_anything).append (spells_sign .leftParen "(" rfl) (meets_head rfl)).append inner
      meets_anything).append last (meets_head rfl)
  have whole := (joined.make (produces_declaration (l := l) (k := k) row) rfl).is
    (produces_ofKind (by repeat constructor))
  have braced : (Tree.node l (.function .declaration (identifierAt k n) (.tuple us) b)).braced =
      .node l (.function .declaration (identifierAt k n) (.tuple us) b.braced) := by
    rw [Tree.braced_node (s := .function .declaration ..) nofun, Shape.map, Tree.braced_tuple,
      braced_params params]
    rfl
  rw [← braced] at whole
  simp only [List.append_assoc] at whole
  simp only [SpelledStatement, parenthesize, List.append_assoc]
  exact whole

end Declarations

end TailLoop.Print
