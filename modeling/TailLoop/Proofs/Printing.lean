import TailLoop.Print
import TailLoop.Proofs.WellFormed

/-!
# Well-formed trees are printed

Printing fails only at a field that does not hold what its node needs, and a well-formed tree has no
such field: `Prints` says what is printed for a node of each sort, and `prints_of_wellFormed` that
this is so for every well-formed node. Jumps do not matter. A program of well-formed statements has
a text (`gives_print`).
-/

namespace TailLoop.Print

open Validity

/-- A successful outcome whose value has a property. -/
def Gives {α : Type} (e : Except PrintError α) (P : α → Prop) : Prop := ∃ a, e = .ok a ∧ P a

/-- What is written is a text. -/
def IsWritten (t : Tree) : Prop := ∃ s, t = .text s

/-- A text is written. -/
theorem isWritten_text (s : Text) : IsWritten (.text s) := ⟨s, rfl⟩

/-- An expression with a text. -/
def IsTextual (p : Printed) : Prop := ∃ s precedence, p = .ofText s precedence

/-- The text of a statement. -/
def IsLine (p : Printed) : Prop := ∃ s, p = .statement s

/-! ## Outcomes -/

section Outcomes

variable {α β : Type} {e : Except PrintError α} {P Q : α → Prop}

/-- A value gives what holds of it. -/
theorem gives_ok {a : α} (h : P a) : Gives (.ok a) P := ⟨a, rfl, h⟩

/-- A step that gives something, with steps after it for all of this. -/
theorem gives_bind {f : α → Except PrintError β} {R : β → Prop} (first : Gives e P)
    (rest : ∀ a, P a → Gives (f a) R) : Gives (e >>= f) R := by
  obtain ⟨a, rfl, ha⟩ := first
  exact rest a ha

/-- What is made of a value that is given. -/
theorem gives_map {f : α → β} {R : β → Prop} (first : Gives e P) (h : ∀ a, P a → R (f a)) :
    Gives (e.map f) R := by
  obtain ⟨a, rfl, ha⟩ := first
  exact ⟨f a, rfl, h a ha⟩

/-- The same for the map of the outcome, whatever the value is. -/
theorem gives_functorMap {f : α → β} {R : β → Prop} (first : Gives e fun _ => True)
    (h : ∀ a, R (f a)) : Gives (f <$> e) R :=
  gives_map first fun a _ => h a

/-- The values of a list are given in order. -/
theorem gives_mapM {f : β → Except PrintError α} {items : List β}
    (each : ∀ b ∈ items, Gives (f b) P) : Gives (items.mapM f) fun values => ∀ a ∈ values, P a := by
  induction items with
  | nil => exact gives_ok nofun
  | cons b rest ih =>
    rw [List.forall_mem_cons] at each
    rw [List.mapM_cons]
    exact gives_bind each.1 fun _ first => gives_bind (ih each.2)
      fun _ others => gives_ok (List.forall_mem_cons.mpr ⟨first, others⟩)

/-- What gives something gives something weaker. -/
theorem Gives.imp (h : Gives e P) (weaker : ∀ a, P a → Q a) : Gives e Q := by
  obtain ⟨a, same, ha⟩ := h
  exact ⟨a, same, weaker a ha⟩

end Outcomes

/-! ## Parts -/

/-- An expression is written as an operand, with parentheses if it binds less tightly. -/
theorem gives_operand {p : Printed} (h : IsTextual p) (required : Precedence) :
    Gives (p.operand required) IsWritten := by
  obtain ⟨s, precedence, rfl⟩ := h
  refine ⟨_, rfl, ?_⟩
  split
  · exact ⟨_, rfl⟩
  · exact ⟨s, rfl⟩

/-- A statement has a line. -/
theorem gives_line {p : Printed} (h : IsLine p) : Gives p.line fun _ => True := by
  obtain ⟨s, rfl⟩ := h
  exact gives_ok trivial

/-- What is written has a text. -/
theorem gives_textOf {t : Tree} (h : IsWritten t) : Gives (textOf t) fun _ => True := by
  obtain ⟨s, rfl⟩ := h
  exact gives_ok trivial

/-- Written texts make a list. -/
theorem gives_commaList {parts : List Tree} (h : ∀ t ∈ parts, IsWritten t) :
    Gives (commaList parts) fun _ => True :=
  gives_map (gives_mapM fun t ht => gives_textOf (h t ht)) fun _ _ => trivial

/-- The text of a name is written. -/
theorem gives_nameOf {t : Tree} (name : IsName t) : Gives (nameOf t) IsWritten := by
  obtain ⟨l, _⟩ := name
  exact gives_ok ⟨_, rfl⟩

/-- A name that may be absent is written after a space, or not at all. -/
theorem gives_spacedName {t : Tree} (name : t.isNull = false → IsName t) :
    Gives (spacedName t) fun _ => True := by
  unfold spacedName
  split
  · exact gives_ok trivial
  · rename_i present
    have isNull : t.isNull = false := by
      cases t with
      | null => exact (present rfl).elim
      | _ => rfl
    exact gives_map (gives_nameOf (name isNull)) fun _ _ => trivial

/-- The names of parameters are written. -/
theorem gives_parameterList {ps : List Tree} (names : ∀ p ∈ ps, IsName p) :
    Gives (parameterList (.tuple ps)) fun _ => True :=
  gives_bind (gives_ok rfl) fun _ same => gives_bind
    (gives_mapM fun p hp => gives_nameOf (names p (same ▸ hp))) fun _ h => gives_commaList h

/-- A text is written in quotation marks. -/
theorem literal_text (t : Text) : literal (.text t) = .ok (.ofText (Literal.quote t) .primary) := by
  have characters : (t.map fun c => Tree.text [c]).mapM character? = some t := by
    induction t with
    | nil => rfl
    | cons c rest ih =>
      rw [List.map_cons, List.mapM_cons, ih]
      rfl
  simp only [literal, Fault.whilePrinting, Tree.items, Except.mapError, bind, Except.bind, characters]
  rfl

/-- Plain values are written as literals. -/
theorem gives_literal {value : Tree} (plain : value.isPlain = true) :
    Gives (literal value) IsTextual := by
  cases value with
  | null | bool | int | num => exact gives_ok ⟨_, _, rfl⟩
  | text t => exact ⟨_, literal_text t, _, _, rfl⟩
  | _ => cases plain

/-- Operators of the tables have a precedence. -/
theorem gives_operatorPrecedence {op : Text}
    (known : op ∈ BinaryOperator.table.map (·.2.1) ++ LogicalOperator.table.map (·.2.1)) :
    Gives (operatorPrecedence (.text op)) fun _ => True := by
  have all : ∀ op ∈ BinaryOperator.table.map (·.2.1) ++ LogicalOperator.table.map (·.2.1),
      (infixPrecedence? op).isSome = true := by decide
  obtain ⟨precedence, found⟩ := Option.isSome_iff_exists.mp (all op known)
  refine ⟨precedence, ?_, trivial⟩
  simp only [operatorPrecedence, Tree.key, Fault.whilePrinting, Except.mapError, bind, Except.bind,
    found]
  rfl

/-- A unary operator is written before its operand, with a space where one is needed. -/
theorem gives_unaryText (op s : Text) : Gives (unaryText (.text op) (.text s)) fun _ => True := by
  unfold unaryText
  dsimp only
  split
  · exact gives_ok trivial
  · split
    · exact gives_ok trivial
    · exact gives_ok trivial

/-! ## Nodes -/

/-- A tree is printed as an expression, at any level. -/
def PrintsExpression (t : Tree) : Prop := ∀ indent level, Gives (visit indent level t) IsTextual

/-- A tree is printed as a statement, at any level. -/
def PrintsStatement (t : Tree) : Prop := ∀ indent level, Gives (visit indent level t) IsLine

/-- A declarator whose initial value, if it has one, is printed. -/
inductive PrintsDeclarator : Tree → Prop where
  | mk (l : Option Location) {id init : Tree} (name : IsName id)
      (value : init.isNull = false → PrintsExpression init) :
    PrintsDeclarator (.node l (.variableDeclarator id init))

/-- A declaration is printed in the head of a loop. -/
def PrintsDeclaration (t : Tree) : Prop :=
  ∀ indent level, Gives (declaration indent level t) fun _ => True

/-- What is printed for a tree of each sort. -/
structure Prints (t : Tree) : Prop where
  expression : t.isExpression = true → PrintsExpression t
  statement : t.isStatement = true → PrintsStatement t
  declarator : t.hasKind .variableDeclarator = true → PrintsDeclarator t
  declaration : t.hasKind .variableDeclaration = true → PrintsDeclaration t

section Nodes

variable {l : Option Location} {indent : Text} {level : Nat} {t : Tree} {ts : List Tree}

/-- An expression in the place of an operand is written as a text. -/
theorem PrintsExpression.operand (h : PrintsExpression t) (required : Precedence) :
    Gives (visit indent level t >>= Printed.operand required) IsWritten :=
  gives_bind (h indent level) fun _ hp => gives_operand hp required

/-- What comes after an operand has its text. -/
theorem PrintsExpression.written {β : Type} {f : Tree → Except PrintError β} {R : β → Prop}
    (h : PrintsExpression t) {required : Precedence} (rest : ∀ s, IsWritten s → Gives (f s) R) :
    Gives (visit indent level t >>= fun p => p.operand required >>= f) R :=
  gives_bind (h indent level) fun _ hp => gives_bind (gives_operand hp required) rest

/-- What comes after a statement has its line. -/
theorem PrintsStatement.line {β : Type} {f : Text → Except PrintError β} {R : β → Prop}
    (h : PrintsStatement t) (rest : ∀ s, Gives (f s) R) :
    Gives (visit indent level t >>= fun p => p.line >>= f) R :=
  gives_bind (h indent level) fun _ hp => gives_bind (gives_line hp) fun s _ => rest s

/-- Expressions are written as the operands of a list. -/
theorem gives_operands (parts : ∀ e ∈ ts, PrintsExpression e) :
    Gives (operands indent level (.tuple ts)) fun texts => ∀ t ∈ texts, IsWritten t := by
  rw [operands]
  induction ts with
  | nil => exact gives_ok nofun
  | cons e rest ih =>
    rw [List.forall_mem_cons] at parts
    rw [operandItems]
    refine parts.1.written fun _ first => ?_
    exact gives_bind (ih parts.2) fun _ others =>
      gives_ok (List.forall_mem_cons.mpr ⟨first, others⟩)

/-- Statements are written line by line. -/
theorem gives_lines (parts : ∀ s ∈ ts, PrintsStatement s) :
    Gives (lines indent level (.tuple ts)) fun _ => True := by
  rw [lines]
  induction ts with
  | nil => exact gives_ok trivial
  | cons s rest ih =>
    rw [List.forall_mem_cons] at parts
    rw [lineItems]
    exact parts.1.line fun _ => gives_bind (ih parts.2) fun _ _ => gives_ok trivial

/-- Declarators are written one by one. -/
theorem gives_declarators (parts : ∀ d ∈ ts, PrintsDeclarator d) :
    Gives (declarators indent level (.tuple ts)) fun texts => ∀ t ∈ texts, IsWritten t := by
  rw [declarators]
  -- By induction on the declarators, with an initial value or without one.
  induction ts with
  | nil => exact gives_ok nofun
  | cons d rest ih =>
    rw [List.forall_mem_cons] at parts
    obtain ⟨⟨l, name, value⟩, others⟩ := parts
    rw [declaratorItems]
    refine gives_bind (gives_nameOf name) fun _ written => ?_
    split
    · exact gives_bind (gives_ok written) fun _ first => gives_bind (ih others)
        fun _ others => gives_ok (List.forall_mem_cons.mpr ⟨first, others⟩)
    · rename_i present
      refine (value (by simpa using present)).written fun _ _ => ?_
      refine gives_bind (gives_ok (isWritten_text _)) fun _ first => ?_
      exact gives_bind (ih others) fun _ others =>
        gives_ok (List.forall_mem_cons.mpr ⟨first, others⟩)

/-- A block of statements is written. -/
theorem gives_block (parts : ∀ s ∈ ts, PrintsStatement s) :
    Gives (block indent level (.node l (.block (.tuple ts)))) fun _ => True := by
  rw [block]
  exact gives_bind (gives_lines parts) fun _ _ => gives_ok trivial

/-- A declaration is written in the head of a loop. -/
theorem gives_declaration (parts : ∀ d ∈ ts, PrintsDeclarator d) (kind : Tree) :
    Gives (declaration indent level (.node l (.variableDeclaration (.tuple ts) kind)))
      fun _ => True := by
  rw [declaration]
  exact gives_bind (gives_declarators parts) fun _ h =>
    gives_bind (gives_commaList h) fun _ _ => gives_ok trivial

/-- A jump is written, with its label if it has one. -/
theorem prints_jump {kind : JumpKind} (name : t.isNull = false → IsName t) :
    Prints (.node l (.jump kind t)) := by
  cases kind with
  | breaks | continues =>
    refine ⟨nofun, fun _ indent level => ?_, nofun, nofun⟩
    rw [visit]
    exact gives_bind (gives_spacedName name) fun _ _ => gives_ok ⟨_, rfl⟩

end Nodes

/-! ## The heads of loops -/

/-- What is written before the first semicolon of a `for` loop. -/
def loopStart (indent : Text) (level : Nat) (init : Tree) : Except PrintError Tree :=
  if init.hasKind .variableDeclaration then .text <$> declaration indent level init
  else if init.isNull then pure (.text [])
  else visit indent level init >>= Printed.operand .sequence

/-- What is written for another part of the head of a `for` loop. -/
def loopPart (indent : Text) (level : Nat) (part : Tree) : Except PrintError Tree :=
  if part.isNull then pure .null else visit indent level part >>= Printed.operand .sequence

/-- What is written for what a loop over a collection assigns to. -/
def loopTarget (indent : Text) (level : Nat) (left : Tree) : Except PrintError Tree :=
  if left.hasKind .variableDeclaration then .text <$> declaration indent level left
  else visit indent level left >>= Printed.operand .call

section Loops

variable {l : Option Location} {indent : Text} {level : Nat} {init test step left right body : Tree}

/-- A `for` is written by the three parts of its head, in the order of evaluation, and then its
body. -/
theorem visit_forStatement :
    visit indent level (.node l (.forStatement init test step body)) = (do
      let start ← loopStart indent level init
      let condition ← loopPart indent level test
      let advance ← loopPart indent level step
      let start ← textOf start
      let condition ← spacedPart condition
      let advance ← spacedPart advance
      let text ← (← visit indent (bodyLevel level body) body).line
      return .statement ("for (" ++ start ++ ";" ++ condition ++ ";" ++ advance ++ ")" ++
        place indent level body text)) := by
  rw [visit]
  unfold loopStart loopPart
  split_ifs <;> simp only [bind_assoc]

/-- A loop over a collection is written by its target, its collection and its body. -/
theorem visit_forEach {domain : Domain} :
    visit indent level (.node l (.forEach domain left right body)) = (do
      let target ← loopTarget indent level left
      let (word, required) : Text × Precedence := match domain with
        | .keys => (" in ", .sequence)
        | .values => (" of ", .assignment)
      let source ← (← visit indent level right).operand required
      let text ← (← visit indent (bodyLevel level body) body).line
      return .statement ("for " ++ parenthesize (target.inline ++ word ++ source.inline) ++
        place indent level body text)) := by
  cases domain <;> rw [visit] <;> unfold loopTarget <;> split_ifs <;> simp only [bind_assoc]

/-- The start of a `for` is a declaration, an expression or nothing. -/
theorem gives_loopStart
    (kind : init.isNull = false → init.hasKind .variableDeclaration = true ∨ init.isExpression = true)
    (h : init.isNull = false → Prints init) : Gives (loopStart indent level init) IsWritten := by
  unfold loopStart
  -- The start of the loop is there or not.
  have present : init.isNull = false ∨ init.isNull = true := by cases init.isNull <;> simp
  split
  · rename_i declared
    have some : init.isNull = false := by
      cases init with
      | node => rfl
      | _ => cases declared
    exact gives_functorMap ((h some).declaration declared indent level) isWritten_text
  · rename_i undeclared
    split
    · exact gives_ok (isWritten_text _)
    · rename_i some
      rw [Bool.not_eq_true] at some
      exact ((h some).expression ((kind some).resolve_left undeclared)).operand _

/-- What is written for a part that may be absent: nothing, or a text. -/
def IsPart (t : Tree) : Prop := t = .null ∨ IsWritten t

/-- The other parts of the head are expressions or nothing. -/
theorem gives_loopPart (kind : test.isNull = false → test.isExpression = true)
    (h : test.isNull = false → Prints test) : Gives (loopPart indent level test) IsPart := by
  unfold loopPart
  split
  · exact gives_ok (.inl rfl)
  · rename_i some
    rw [Bool.not_eq_true] at some
    exact (((h some).expression (kind some)).operand _).imp fun _ => .inr

/-- A part of the head is written after a space, or not at all. -/
theorem gives_spacedPart (h : IsPart test) : Gives (spacedPart test) fun _ => True := by
  unfold spacedPart
  split
  · rename_i truthy
    rcases h with rfl | written
    · cases truthy
    · exact gives_map (gives_textOf written) fun _ _ => trivial
  · exact gives_ok trivial

/-- A loop over a collection whose target is written. -/
theorem prints_forEach {domain : Domain}
    (target : ∀ indent level, Gives (loopTarget indent level left) fun _ => True)
    (rightKind : right.isExpression = true) (ihRight : Prints right)
    (kind : body.isStatement = true) (ih : Prints body) :
    Prints (.node l (.forEach domain left right body)) := by
  have prints : PrintsStatement (.node l (.forEach domain left right body)) := by
    intro indent level
    rw [visit_forEach]
    refine gives_bind (target indent level) fun _ _ => ?_
    cases domain with
    | keys | values =>
      refine (ihRight.expression rightKind).written fun _ _ => ?_
      exact (ih.statement kind).line fun _ => gives_ok ⟨_, rfl⟩
  cases domain with
  | keys | values => exact ⟨nofun, fun _ => prints, nofun, nofun⟩

/-- An expression is no declaration. -/
theorem undeclared_of_isExpression (kind : left.isExpression = true) :
    left.hasKind .variableDeclaration = false := by
  unfold Tree.isExpression Tree.hasKind at *
  cases found : left.kind? with
  | none => rfl
  | some k =>
    rw [found] at kind
    cases k <;> first | rfl | cases kind

end Loops

/-- Every well-formed node is printed as its sort asks for. -/
theorem prints_of_wellFormed {checked : Bool} {c : Targets} {t : Tree}
    (h : WellFormed checked c t) : Prints t := by
  -- One step for each part, in the order in which they are printed.
  induction h with
  | program => exact ⟨nofun, nofun, nofun, nofun⟩
  | block kinds _ ih =>
    refine ⟨nofun, fun _ indent level => ?_, nofun, nofun⟩
    rw [visit]
    exact gives_bind (gives_lines fun s hs => (ih s hs).statement (kinds s hs))
      fun _ _ => gives_ok ⟨_, rfl⟩
  | @function _ l form _ ps lb ss named name params kinds _ ih =>
    have body : ∀ indent level,
        Gives (block indent level (.node lb (.block (.tuple ss)))) fun _ => True :=
      fun _ _ => gives_block fun s hs => (ih s hs).statement (kinds s hs)
    cases form with
    | declaration =>
      refine ⟨nofun, fun _ indent level => ?_, nofun, nofun⟩
      rw [visit]
      refine gives_bind (gives_parameterList params) fun _ _ => ?_
      refine gives_bind (gives_nameOf (named rfl)) fun _ _ => ?_
      exact gives_bind (body indent level) fun _ _ => gives_ok ⟨_, rfl⟩
    | expression =>
      refine ⟨fun _ indent level => ?_, nofun, nofun, nofun⟩
      rw [visit]
      refine gives_bind (gives_spacedName name) fun _ _ => ?_
      refine gives_bind (gives_parameterList params) fun _ _ => ?_
      exact gives_bind (body indent level) fun _ _ => gives_ok ⟨_, _, rfl⟩
  | returnStatement kind _ ih =>
    refine ⟨nofun, fun _ indent level => ?_, nofun, nofun⟩
    rw [visit]
    split
    · exact gives_ok ⟨_, rfl⟩
    · rename_i some
      rw [Bool.not_eq_true] at some
      exact ((ih some).expression (kind some)).written fun _ _ => gives_ok ⟨_, rfl⟩
  | variableDeclaration _ kinds _ ih =>
    have each := fun d hd => (ih d hd).declarator (kinds d hd)
    refine ⟨nofun, fun _ indent level => ?_, nofun, fun _ indent level => ?_⟩
    · rw [visit]
      refine gives_bind (gives_declarators each) fun _ written => ?_
      exact gives_bind (gives_commaList written) fun _ _ => gives_ok ⟨_, rfl⟩
    · exact gives_declaration each _
  | variableDeclarator name kind _ ih =>
    exact ⟨nofun, nofun, fun _ => .mk _ name fun some => (ih some).expression (kind some), nofun⟩
  | ifStatement testKind _ kind _ elseKind _ ihTest ih ihElse =>
    refine ⟨nofun, fun _ indent level => ?_, nofun, nofun⟩
    rw [visit]
    refine (ihTest.expression testKind).written fun _ _ => ?_
    refine (ih.statement kind).line fun _ => ?_
    split
    · exact gives_ok ⟨_, rfl⟩
    · rename_i some
      rw [Bool.not_eq_true] at some
      exact ((ihElse some).statement (elseKind some)).line fun _ => gives_ok ⟨_, rfl⟩
  | forStatement initKind _ testKind _ stepKind _ kind _ ihInit ihTest ihStep ih =>
    refine ⟨nofun, fun _ indent level => ?_, nofun, nofun⟩
    rw [visit_forStatement]
    refine gives_bind (gives_loopStart initKind ihInit) fun _ start => ?_
    refine gives_bind (gives_loopPart testKind ihTest) fun _ condition => ?_
    refine gives_bind (gives_loopPart stepKind ihStep) fun _ advance => ?_
    refine gives_bind (gives_textOf start) fun _ _ => ?_
    refine gives_bind (gives_spacedPart condition) fun _ _ => ?_
    refine gives_bind (gives_spacedPart advance) fun _ _ => ?_
    refine (ih.statement kind).line fun _ => ?_
    exact gives_ok ⟨_, rfl⟩
  | @forEachDeclared _ _ _ ld le id _ _ name rightKind _ kind _ ihRight ih =>
    refine prints_forEach (fun indent level => ?_) rightKind ihRight kind ih
    have declarator : PrintsDeclarator (.node le (.variableDeclarator id .null)) :=
      .mk le name fun absent => by cases absent
    exact gives_functorMap (gives_declaration (List.forall_mem_singleton.mpr declarator) _)
      fun _ => trivial
  | forEach target _ rightKind _ kind _ ihLeft ihRight ih =>
    refine prints_forEach (fun indent level => ?_) rightKind ihRight kind ih
    have kind := isExpression_of_isAssignable target
    unfold loopTarget
    rw [if_neg (by rw [undeclared_of_isExpression kind]; exact Bool.false_ne_true)]
    exact ((ihLeft.expression kind).operand _).imp fun _ _ => trivial
  | whileStatement testKind _ kind _ ihTest ih =>
    refine ⟨nofun, fun _ indent level => ?_, nofun, nofun⟩
    rw [visit]
    refine (ihTest.expression testKind).written fun _ _ => ?_
    refine (ih.statement kind).line fun _ => ?_
    exact gives_ok ⟨_, rfl⟩
  | doWhileStatement testKind _ kind _ ihTest ih =>
    refine ⟨nofun, fun _ indent level => ?_, nofun, nofun⟩
    rw [visit]
    refine (ih.statement kind).line fun _ => ?_
    refine (ihTest.expression testKind).written fun _ _ => ?_
    exact gives_ok ⟨_, rfl⟩
  | expressionStatement kind _ ih =>
    refine ⟨nofun, fun _ indent level => ?_, nofun, nofun⟩
    rw [visit]
    refine (ih.expression kind).written fun _ written => ?_
    exact gives_bind (gives_textOf written) fun _ _ => gives_ok ⟨_, rfl⟩
  | emptyStatement =>
    refine ⟨nofun, fun _ indent level => ?_, nofun, nofun⟩
    rw [visit]
    exact gives_ok ⟨_, rfl⟩
  | bareJump => exact prints_jump fun absent => by cases absent
  | jump spelled => exact prints_jump fun _ => .mk _ spelled
  | labeled spelled _ kind _ ih =>
    refine ⟨nofun, fun _ indent level => ?_, nofun, nofun⟩
    rw [visit]
    refine gives_bind (gives_nameOf (.mk _ spelled)) fun _ _ => ?_
    exact gives_bind (ih.statement kind indent level) fun _ _ => gives_ok ⟨_, rfl⟩
  | identifier =>
    refine ⟨fun _ indent level => ?_, nofun, nofun, nofun⟩
    rw [visit]
    exact gives_ok ⟨_, _, rfl⟩
  | literal plain =>
    refine ⟨fun _ indent level => ?_, nofun, nofun, nofun⟩
    rw [visit]
    exact gives_literal plain
  | array kinds _ ih | sequence _ kinds _ ih =>
    refine ⟨fun _ indent level => ?_, nofun, nofun, nofun⟩
    rw [visit]
    refine gives_bind (gives_operands fun e he => (ih e he).expression (kinds e he))
      fun _ written => ?_
    exact gives_bind (gives_commaList written) fun _ _ => gives_ok ⟨_, _, rfl⟩
  | call kind _ kinds _ ih ihs =>
    refine ⟨fun _ indent level => ?_, nofun, nofun, nofun⟩
    rw [visit]
    refine (ih.expression kind).written fun _ _ => ?_
    refine gives_bind (gives_operands fun e he => (ihs e he).expression (kinds e he))
      fun _ written => ?_
    exact gives_bind (gives_commaList written) fun _ _ => gives_ok ⟨_, _, rfl⟩
  | member kind _ name ih =>
    refine ⟨fun _ indent level => ?_, nofun, nofun, nofun⟩
    rw [visit]
    refine (ih.expression kind).written fun _ _ => ?_
    exact gives_bind (gives_nameOf name) fun _ _ => gives_ok ⟨_, _, rfl⟩
  | computedMember kind _ keyKind _ ih ihKey =>
    refine ⟨fun _ indent level => ?_, nofun, nofun, nofun⟩
    rw [visit]
    refine (ih.expression kind).written fun _ _ => ?_
    refine (ihKey.expression keyKind).written fun _ _ => ?_
    exact gives_ok ⟨_, _, rfl⟩
  | conditional testKind _ kind _ elseKind _ ihTest ih ihElse =>
    refine ⟨fun _ indent level => ?_, nofun, nofun, nofun⟩
    rw [visit]
    refine (ihTest.expression testKind).written fun _ _ => ?_
    refine (ih.expression kind).written fun _ _ => ?_
    refine (ihElse.expression elseKind).written fun _ _ => ?_
    exact gives_ok ⟨_, _, rfl⟩
  | assignment _ target _ kind _ ihLeft ih =>
    refine ⟨fun _ indent level => ?_, nofun, nofun, nofun⟩
    rw [visit]
    refine (ihLeft.expression (isExpression_of_isAssignable target)).written fun _ _ => ?_
    refine (ih.expression kind).written fun _ _ => ?_
    exact gives_ok ⟨_, _, rfl⟩
  | binary known leftKind _ kind _ ihLeft ih =>
    refine ⟨fun _ indent level => ?_, nofun, nofun, nofun⟩
    rw [visit]
    refine gives_bind (gives_operatorPrecedence (List.mem_append_left _ known)) fun _ _ => ?_
    refine (ihLeft.expression leftKind).written fun _ _ => ?_
    refine (ih.expression kind).written fun _ _ => ?_
    exact gives_ok ⟨_, _, rfl⟩
  | logical known leftKind _ kind _ ihLeft ih =>
    refine ⟨fun _ indent level => ?_, nofun, nofun, nofun⟩
    rw [visit]
    refine gives_bind (gives_operatorPrecedence (List.mem_append_right _ known)) fun _ _ => ?_
    refine (ihLeft.expression leftKind).written fun _ _ => ?_
    refine (ih.expression kind).written fun _ _ => ?_
    exact gives_ok ⟨_, _, rfl⟩
  | unary _ kind _ ih =>
    refine ⟨fun _ indent level => ?_, nofun, nofun, nofun⟩
    rw [visit]
    refine (ih.expression kind).written fun _ written => ?_
    obtain ⟨s, rfl⟩ := written
    exact gives_bind (gives_unaryText _ s) fun _ _ => gives_ok ⟨_, _, rfl⟩
  | @update _ _ _ _ isPrefix _ target _ ih =>
    refine ⟨fun _ indent level => ?_, nofun, nofun, nofun⟩
    rw [visit]
    have kind := isExpression_of_isAssignable target
    cases isPrefix with
    | true | false =>
      refine (ih.expression kind).written fun _ _ => ?_
      exact gives_ok ⟨_, _, rfl⟩

/-- Every program of well-formed statements has a text. -/
theorem gives_print {checked : Bool} {c : Targets} {l : Option Location} {body : Tree}
    (h : WellFormed checked c (.node l (.program body))) (indent : Text) :
    Gives ((Tree.node l (.program body)).print indent) fun _ => True := by
  cases h with
  | @program _ _ ss kinds parts =>
    have lines : Gives (ss.mapM (visit indent 0)) fun printed => ∀ p ∈ printed, IsLine p :=
      gives_mapM fun s hs => (prints_of_wellFormed (parts s hs)).statement (kinds s hs) indent 0
    refine gives_map (P := fun _ => True) ?_ fun _ _ => trivial
    refine gives_bind (gives_ok rfl) fun _ same => ?_
    refine gives_bind (same ▸ lines) fun _ each => ?_
    exact gives_bind (gives_mapM fun p hp => gives_line (each p hp)) fun _ _ => gives_ok trivial

/-- Every well-formed statement has a text. -/
theorem gives_statement {checked : Bool} {c : Targets} {t : Tree} (h : WellFormed checked c t)
    (kind : t.isStatement = true) (indent : Text) : Gives (t.print indent) fun _ => True := by
  refine gives_map (P := fun _ => True) ?_ fun _ _ => trivial
  unfold Tree.written
  split
  · cases kind
  · rw [if_pos kind]
    refine gives_bind ((prints_of_wellFormed h).statement kind indent 0) fun _ line => ?_
    exact gives_bind (gives_line line) fun _ _ => gives_ok trivial

end TailLoop.Print
