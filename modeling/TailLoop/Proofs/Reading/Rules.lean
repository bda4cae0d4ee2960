import Mathlib.Tactic.IntervalCases
import TailLoop.Proofs.Reading.Derivations
import TailLoop.Proofs.Sameness

/-!
# What the productions make

Each production of the grammar makes a content from the contents of its symbols (`Produces`). Contents
are told apart only up to locations.
-/

namespace TailLoop

namespace Source

open Grammar

variable {cs ds : List Content} {c : Content} {ps : Parts} {i : Nat}

/-! ## Parts that agree with contents -/

/-- A part agrees with the content at its place. -/
theorem Agree.getElem (h : Agree cs ps) (there : cs[i]? = some c) :
    ∃ c' l, ps[i]? = some ⟨c', l⟩ ∧ Agrees c c' := by
  induction h generalizing i with
  | nil => cases there
  | @cons d part _ _ first _ ih =>
    cases i with
    | zero =>
      cases there
      exact ⟨part.content, part.location, rfl, first⟩
    | succ i => exact ih there

/-- A part that is a tree. -/
theorem Agree.tree {t : Tree} (h : Agree cs ps) (there : cs[i]? = some (.tree t)) :
    t.ReadAs (ps.tree i) := by
  obtain ⟨_, l, found, agrees⟩ := h.getElem there
  cases agrees with
  | tree same =>
    rw [Parts.tree, found]
    exact same

/-- A part that is a token gives its text. -/
theorem Agree.text {x : Text} (h : Agree cs ps) (there : cs[i]? = some (.token x)) :
    ps.text i = x := by
  obtain ⟨_, l, found, ⟨⟩⟩ := h.getElem there
  rw [Parts.text, found]

/-- A part that is a token gives its text as an operator. -/
theorem Agree.operator {x : Text} (h : Agree cs ps) (there : cs[i]? = some (.token x)) :
    (Tree.text x).ReadAs (ps.operator i) := by
  rw [Parts.operator, h.text there]
  exact Tree.readAs_text x

/-- A part that is a row gives trees that are the same one by one. -/
theorem Agree.trees {ts : List Tree} (h : Agree cs ps) (there : cs[i]? = some (.trees ts)) :
    List.Forall₂ Tree.ReadAs ts (ps.trees i) := by
  obtain ⟨_, l, found, agrees⟩ := h.getElem there
  cases agrees with
  | trees same =>
    rw [Parts.trees, found]
    exact same

/-- A part that is a row, as one tree. -/
theorem Agree.row {ts : List Tree} (h : Agree cs ps) (there : cs[i]? = some (.trees ts)) :
    (Tree.tuple ts).ReadAs (ps.row i) :=
  Tree.readAs_tuple (h.trees there)

/-- The identifier of a name. -/
def identifierAt (l : Option Location) (x : Text) : Tree := .node l (.identifier (.text x))

/-- A part that is the token of a name gives the identifier. -/
theorem Agree.name {x : Text} (h : Agree cs ps) (there : cs[i]? = some (.token x))
    (l : Option Location) : (identifierAt l x).ReadAs (ps.name i) :=
  Tree.readAs_node rfl nofun (.cons ⟨rfl, h.operator there⟩ .nil)

/-! ## Rules -/

/-- A rule that makes a node makes it from parts that agree. -/
theorem makes_make {name : Text} {shape : Parts → Shape Tree} {l : Option Location} {s : Shape Tree}
    (same : ∀ ps, Agree ds ps → ∀ l', (Tree.node l s).ReadAs (.node l' (shape ps))) :
    Makes (Rule.make name shape) ds (.tree (.node l s)) := by
  intro file ps named agree
  refine ⟨.tree (.node (some (extent file ps)) (shape ps)), ?_, .tree (same ps agree _)⟩
  exact if_neg named

/-- A rule that gathers trees makes a row of them. -/
theorem makes_gather {trees : Parts → List Tree} {ts : List Tree}
    (same : ∀ ps, Agree ds ps → List.Forall₂ Tree.ReadAs ts (trees ps)) :
    Makes (Rule.gather trees) ds (.trees ts) :=
  fun _ ps _ agree => ⟨.trees (trees ps), rfl, .trees (same ps agree)⟩

/-- A rule that keeps a part makes its content. -/
theorem makes_keep (there : ds[i]? = some c) : Makes (.keep i) ds c := by
  intro file ps _ agree
  obtain ⟨c', l, found, same⟩ := agree.getElem there
  refine ⟨c', ?_, same⟩
  rw [content, found]
  rfl

/-- What can be assigned to does not depend on locations. -/
theorem isTarget_of_same {t u : Tree} (same : t.same u = true) (target : Rule.isTarget t = true) :
    Rule.isTarget u = true := by
  cases t with
  | node l s =>
    obtain ⟨l', s', rfl, kind, -⟩ := Tree.node_of_same same
    cases s with
    | identifier | member =>
      cases s' with
      | identifier | member => rfl
      | function form => cases form <;> cases kind
      | forEach domain => cases domain <;> cases kind
      | jump target => cases target <;> cases kind
      | _ => cases kind
    | _ => cases target
  | _ => cases target

/-- A rule that checks its target makes a node where the target can be assigned to. -/
theorem makes_checked {name : Text} {target : Nat} {role : Parts → Text} {shape : Parts → Shape Tree}
    {l : Option Location} {s : Shape Tree} {t : Tree} (there : ds[target]? = some (.tree t))
    (assignable : Rule.isTarget t = true)
    (same : ∀ ps, Agree ds ps → ∀ l', (Tree.node l s).ReadAs (.node l' (shape ps))) :
    Makes (Rule.makeChecked name target role shape) ds (.tree (.node l s)) := by
  intro file ps named agree
  refine ⟨.tree (.node (some (extent file ps)) (shape ps)), ?_, .tree (same ps agree _)⟩
  have checked : Rule.isTarget (ps.tree target) = true :=
    isTarget_of_same (agree.tree there).same assignable
  simp only [content, Rule.makeChecked, checked, if_true]
  exact if_neg named

/-- A production for a phrase makes a content from those of its symbols. -/
def Produces (A : Phrase) (Xs : List Symbol) (ds : List Content) (c : Content) : Prop :=
  ∃ rule, ⟨A, Xs, rule⟩ ∈ productions ∧ Makes rule ds c

/-- A phrase that is another one keeps its content. -/
theorem produces_isA {A B : Phrase} (known : isA A B ∈ productions) :
    Produces A [.phrase B] [c] c :=
  ⟨_, known, makes_keep rfl⟩

section Groups

variable {p : Production}

/-- The productions of programs, functions and declarations are productions. -/
theorem mem_structure (h : p ∈ structureProductions) : p ∈ productions := by
  simp only [productions, List.mem_append, h, true_or]

/-- The productions of statements are productions. -/
theorem mem_statement (h : p ∈ statementProductions) : p ∈ productions := by
  simp only [productions, List.mem_append, h, true_or, or_true]

/-- The productions of loops and conditions are productions. -/
theorem mem_control (h : p ∈ controlProductions) : p ∈ productions := by
  simp only [productions, List.mem_append, h, true_or, or_true]

/-- The productions of simple statements are productions. -/
theorem mem_simple (h : p ∈ simpleProductions) : p ∈ productions := by
  simp only [productions, List.mem_append, h, true_or, or_true]

/-- The productions of binary operations are productions. -/
theorem mem_binary (h : p ∈ binaryProductions) : p ∈ productions := by
  simp only [productions, List.mem_append, h, true_or, or_true]

/-- The productions of expressions are productions. -/
theorem mem_expression (h : p ∈ expressionProductions) : p ∈ productions := by
  simp only [productions, List.mem_append, h, true_or, or_true]

/-- The productions of primary expressions are productions. -/
theorem mem_primary (h : p ∈ primaryProductions) : p ∈ productions := by
  simp only [productions, List.mem_append, h, true_or, or_true]

/-- The productions of operators are productions. -/
theorem mem_sign (h : p ∈ signProductions) : p ∈ productions := by
  simp only [productions, List.mem_append, h, or_true]

end Groups

/-- A part that a phrase has or lacks: a phrase, whose tree stands for it, or nothing. -/
inductive Slot (A : Phrase) : List Symbol → List Content → Tree → Prop where
  | absent : Slot A [] [] .null
  | present {t} : Slot A [.phrase A] [.tree t] t

/-- A row that a phrase has or lacks. -/
inductive RowSlot (A : Phrase) : List Symbol → List Content → List Tree → Prop where
  | absent : RowSlot A [] [] []
  | present {ts} : RowSlot A [.phrase A] [.trees ts] ts

/-- A name that a phrase has or lacks. -/
inductive NameSlot : List Symbol → List Content → Tree → Prop where
  | absent : NameSlot [] [] .null
  | present {l x} : NameSlot [.terminal .name] [.token x] (identifierAt l x)

/-! ## Programs, functions and declarations -/

variable {l k : Option Location} {n w x y z : Text} {t u v b : Tree} {ts : List Tree}
  {Xs : List Symbol}

section Structures

open Terminal

/-- A program, from its statements. -/
theorem produces_program :
    Produces .program [Phrase.statements] [.trees ts] (.tree (.node l (.program (.tuple ts)))) := by
  refine ⟨_, mem_structure (by repeat constructor), makes_make fun _ h _ => ?_⟩
  exact Tree.readAs_node rfl nofun (.cons ⟨rfl, h.row rfl⟩ .nil)

/-- The first statement of a row. -/
theorem produces_statement : Produces .statements [Phrase.statement] [.tree t] (.trees [t]) := by
  refine ⟨_, mem_structure (by repeat constructor), makes_gather fun _ h => ?_⟩
  exact .cons (h.tree rfl) .nil

/-- One more statement. -/
theorem produces_statements : Produces .statements [Phrase.statements, Phrase.statement]
    [.trees ts, .tree t] (.trees (ts ++ [t])) := by
  refine ⟨_, mem_structure (by repeat constructor), makes_gather fun _ h => ?_⟩
  exact List.rel_append (h.trees rfl) (.cons (h.tree rfl) .nil)

/-- A function declaration, from its name, its parameters and its block. -/
theorem produces_declaration (params : RowSlot .params Xs cs ts) :
    Produces .functionDeclaration
      ([Grammar.Symbol.terminal function, .terminal .name, .terminal leftParen] ++ Xs ++
        [Grammar.Symbol.terminal rightParen, .phrase .block])
      ([Content.token x, .token n, .token y] ++ cs ++ [Content.token z, .tree b])
      (.tree (.node l (.function .declaration (identifierAt k n) (.tuple ts) b))) := by
  cases params with
  | absent =>
    simp only [List.cons_append, List.nil_append]
    refine ⟨_, mem_structure (by repeat constructor), makes_make fun _ h _ => ?_⟩
    exact Tree.readAs_node rfl nofun (.cons ⟨rfl, h.name rfl _⟩
      (.cons ⟨rfl, Tree.readAs_tuple .nil⟩ (.cons ⟨rfl, h.tree rfl⟩ .nil)))
  | present =>
    simp only [List.cons_append, List.nil_append]
    refine ⟨_, mem_structure (by repeat constructor), makes_make fun _ h _ => ?_⟩
    exact Tree.readAs_node rfl nofun (.cons ⟨rfl, h.name rfl _⟩
      (.cons ⟨rfl, h.row rfl⟩ (.cons ⟨rfl, h.tree rfl⟩ .nil)))

/-- Several parameters. -/
theorem produces_params : Produces .params [name, Phrase.moreNames] [.token x, .trees ts]
    (.trees (identifierAt l x :: ts)) := by
  refine ⟨_, mem_structure (by repeat constructor), makes_gather fun _ h => ?_⟩
  exact .cons (h.name rfl _) (h.trees rfl)

/-- One parameter. -/
theorem produces_param : Produces .params [name] [.token x] (.trees [identifierAt l x]) := by
  refine ⟨_, mem_structure (by repeat constructor), makes_gather fun _ h => ?_⟩
  exact .cons (h.name rfl _) .nil

/-- The second name of a row, after a comma. -/
theorem produces_moreName : Produces .moreNames [comma, name] [.token y, .token x]
    (.trees [identifierAt l x]) := by
  refine ⟨_, mem_structure (by repeat constructor), makes_gather fun _ h => ?_⟩
  exact .cons (h.name rfl _) .nil

/-- One more name, after a comma. -/
theorem produces_moreNames : Produces .moreNames [Phrase.moreNames, comma, name]
    [.trees ts, .token y, .token x] (.trees (ts ++ [identifierAt l x])) := by
  refine ⟨_, mem_structure (by repeat constructor), makes_gather fun _ h => ?_⟩
  exact List.rel_append (h.trees rfl) (.cons (h.name rfl _) .nil)

/-- A block, from its statements. -/
theorem produces_block (body : RowSlot .statements Xs cs ts) :
    Produces .block
      ([Grammar.Symbol.terminal leftBrace] ++ Xs ++ [Grammar.Symbol.terminal rightBrace])
      ([Content.token x] ++ cs ++ [Content.token y]) (.tree (.node l (.block (.tuple ts)))) := by
  cases body with
  | absent =>
    simp only [List.cons_append, List.nil_append]
    refine ⟨_, mem_structure (by repeat constructor), makes_make fun _ h _ => ?_⟩
    exact Tree.readAs_node rfl nofun (.cons ⟨rfl, Tree.readAs_tuple .nil⟩ .nil)
  | present =>
    simp only [List.cons_append, List.nil_append]
    refine ⟨_, mem_structure (by repeat constructor), makes_make fun _ h _ => ?_⟩
    exact Tree.readAs_node rfl nofun (.cons ⟨rfl, h.row rfl⟩ .nil)

/-- A declaration, from its declarators. -/
theorem produces_variables : Produces .variableStatement [var, Phrase.declaratorList, semicolon]
    [.token x, .trees ts, .token y] (.tree (.node l (declared (.tuple ts)))) := by
  refine ⟨_, mem_structure (by repeat constructor), makes_make fun _ h _ => ?_⟩
  exact Tree.readAs_node rfl nofun (.cons ⟨rfl, h.row rfl⟩
    (.cons ⟨rfl, Tree.readAs_text _⟩ .nil))

/-- Several declarators. -/
theorem produces_declarators : Produces .declaratorList [Phrase.declarator, Phrase.moreDeclarators]
    [.tree t, .trees ts] (.trees (t :: ts)) := by
  refine ⟨_, mem_structure (by repeat constructor), makes_gather fun _ h => ?_⟩
  exact .cons (h.tree rfl) (h.trees rfl)

/-- One declarator. -/
theorem produces_declarator : Produces .declaratorList [Phrase.declarator] [.tree t]
    (.trees [t]) := by
  refine ⟨_, mem_structure (by repeat constructor), makes_gather fun _ h => ?_⟩
  exact .cons (h.tree rfl) .nil

/-- The second declarator, after a comma. -/
theorem produces_moreDeclarator : Produces .moreDeclarators [comma, Phrase.declarator]
    [.token y, .tree t] (.trees [t]) := by
  refine ⟨_, mem_structure (by repeat constructor), makes_gather fun _ h => ?_⟩
  exact .cons (h.tree rfl) .nil

/-- One more declarator, after a comma. -/
theorem produces_moreDeclarators :
    Produces .moreDeclarators [Phrase.moreDeclarators, comma, Phrase.declarator]
      [.trees ts, .token y, .tree t] (.trees (ts ++ [t])) := by
  refine ⟨_, mem_structure (by repeat constructor), makes_gather fun _ h => ?_⟩
  exact List.rel_append (h.trees rfl) (.cons (h.tree rfl) .nil)

/-- A declarator with an initial value. -/
theorem produces_initialized : Produces .declarator [name, equal, Phrase.assignmentExpr]
    [.token x, .token y, .tree t] (.tree (.node l (.variableDeclarator (identifierAt k x) t))) := by
  refine ⟨_, mem_structure (by repeat constructor), makes_make fun _ h _ => ?_⟩
  exact Tree.readAs_node rfl nofun (.cons ⟨rfl, h.name rfl _⟩ (.cons ⟨rfl, h.tree rfl⟩ .nil))

/-- A declarator without an initial value. -/
theorem produces_bare : Produces .declarator [name] [.token x]
    (.tree (.node l (.variableDeclarator (identifierAt k x) .null))) := by
  refine ⟨_, mem_structure (by repeat constructor), makes_make fun _ h _ => ?_⟩
  exact Tree.readAs_node rfl nofun (.cons ⟨rfl, h.name rfl _⟩
    (.cons ⟨rfl, Tree.readAs_null⟩ .nil))

end Structures

/-! ## Conditions and loops -/

section Control

open Terminal

/-- A condition with both branches. -/
theorem produces_ifElse :
    Produces .ifStatement
      [if_, leftParen, Phrase.expression, rightParen, Phrase.statement, else_, Phrase.statement]
      [.token x, .token y, .tree t, .token z, .tree u, .token w, .tree v]
      (.tree (.node l (.ifStatement t u v))) := by
  refine ⟨_, mem_control (by repeat constructor), makes_make fun _ h _ => ?_⟩
  exact Tree.readAs_node rfl nofun (.cons ⟨rfl, h.tree rfl⟩ (.cons ⟨rfl, h.tree rfl⟩
    (.cons ⟨rfl, h.tree rfl⟩ .nil)))

/-- A condition with one branch. -/
theorem produces_if :
    Produces .ifStatement [if_, leftParen, Phrase.expression, rightParen, Phrase.statement]
      [.token x, .token y, .tree t, .token z, .tree u]
      (.tree (.node l (.ifStatement t u .null))) := by
  refine ⟨_, mem_control (by repeat constructor), makes_make fun _ h _ => ?_⟩
  exact Tree.readAs_node rfl nofun (.cons ⟨rfl, h.tree rfl⟩ (.cons ⟨rfl, h.tree rfl⟩
    (.cons ⟨rfl, Tree.readAs_null⟩ .nil)))

/-- A `for` loop, each of whose three parts may be missing. -/
theorem produces_for {Ys Zs : List Symbol} {ds es : List Content} {x' : Text}
    (start : Slot .forInit Xs cs t) (condition : Slot .expression Ys ds u)
    (advance : Slot .expression Zs es v) :
    Produces .forStatement
      ([Grammar.Symbol.terminal for_, .terminal leftParen] ++ Xs ++
        [Grammar.Symbol.terminal semicolon] ++ Ys ++ [Grammar.Symbol.terminal semicolon] ++ Zs ++
        [Grammar.Symbol.terminal rightParen, .phrase .statement])
      ([Content.token x, .token y] ++ cs ++ [Content.token z] ++ ds ++ [Content.token w] ++ es ++
        [Content.token x', .tree b])
      (.tree (.node l (.forStatement t u v b))) := by
  cases start <;> cases condition <;> cases advance <;>
  · simp only [List.cons_append, List.nil_append]
    refine ⟨_, mem_control (by repeat constructor), makes_make fun _ h _ => ?_⟩
    refine Tree.readAs_node rfl nofun (.cons ⟨rfl, ?_⟩ (.cons ⟨rfl, ?_⟩ (.cons ⟨rfl, ?_⟩
      (.cons ⟨rfl, h.tree rfl⟩ .nil))))
    all_goals first | exact h.tree rfl | exact Tree.readAs_null

/-- A loop that starts with a declaration. -/
theorem produces_forVariables : Produces .forInit [var, Phrase.declaratorList]
    [.token x, .trees ts] (.tree (.node l (declared (.tuple ts)))) := by
  refine ⟨_, mem_control (by repeat constructor), makes_make fun _ h _ => ?_⟩
  exact Tree.readAs_node rfl nofun (.cons ⟨rfl, h.row rfl⟩
    (.cons ⟨rfl, Tree.readAs_text _⟩ .nil))

/-- A loop that starts with an expression. -/
theorem produces_forStart : Produces .forInit [Phrase.expression] [.tree t] (.tree t) :=
  produces_isA (mem_control (by repeat constructor))

/-- The declaration of a loop over a collection. -/
def loopVariable (l k j : Option Location) (x : Text) : Tree :=
  .node l (declared (.tuple [.node k (.variableDeclarator (identifierAt j x) .null)]))

/-- The variable that a loop over a collection declares. -/
theorem produces_forVariable {j : Option Location} :
    Produces .forBinding [var, name] [.token x, .token y] (.tree (loopVariable l k j y)) := by
  refine ⟨_, mem_control (by repeat constructor), makes_make fun _ h _ => ?_⟩
  refine Tree.readAs_node rfl nofun (.cons ⟨rfl, Tree.readAs_tuple (.cons ?_ .nil)⟩
    (.cons ⟨rfl, Tree.readAs_text _⟩ .nil))
  exact Tree.readAs_node rfl nofun (.cons ⟨rfl, h.name rfl _⟩
    (.cons ⟨rfl, Tree.readAs_null⟩ .nil))

/-- The target that a loop over a collection assigns to. -/
theorem produces_forTarget : Produces .forBinding [Phrase.lhsExpr] [.tree t] (.tree t) :=
  produces_isA (mem_control (by repeat constructor))

/-- A loop over a collection declares a variable or assigns to a target. -/
def isLoopTarget (t : Tree) : Bool := t.hasKind .variableDeclaration || Rule.isTarget t

/-- What a loop can assign to does not depend on locations. -/
theorem isLoopTarget_of_same (same : t.same u = true) (target : isLoopTarget t = true) :
    isLoopTarget u = true := by
  rw [isLoopTarget, Bool.or_eq_true] at target ⊢
  refine target.imp (fun declared => ?_) (isTarget_of_same same)
  cases t with
  | node l s =>
    obtain ⟨k, s', rfl, kind, -⟩ := Tree.node_of_same same
    rw [Tree.hasKind, Tree.kind?] at declared ⊢
    rwa [← kind]
  | _ => cases declared

/-- A loop over a collection, made where its target can be assigned to. -/
theorem makes_forEach {name : Text} {domain : Domain} (target : isLoopTarget t = true) :
    Makes (Rule.makeForEach name domain)
      [.token x, .token y, .tree t, .token z, .tree u, .token w, .tree b]
      (.tree (.node l (.forEach domain t u b))) := by
  intro file ps named h
  have left : t.ReadAs (ps.tree 2) := h.tree rfl
  have checked := isLoopTarget_of_same left.same target
  rw [isLoopTarget] at checked
  refine ⟨.tree (.node (some (extent file ps)) (.forEach domain (ps.tree 2) (ps.tree 4) (ps.tree 6))),
    ?_, .tree ?_⟩
  · simp only [content, Rule.makeForEach, checked, if_true]
    exact if_neg named
  · refine Tree.readAs_node ?_ ?_ (.cons ⟨rfl, h.tree rfl⟩ (.cons ⟨rfl, h.tree rfl⟩
      (.cons ⟨rfl, h.tree rfl⟩ .nil)))
    · cases domain <;> rfl
    · cases domain <;> exact nofun

/-- A loop over the keys of a value. -/
theorem produces_forIn (target : isLoopTarget t = true) :
    Produces .forInStatement
      [for_, leftParen, Phrase.forBinding, in_, Phrase.expression, rightParen, Phrase.statement]
      [.token x, .token y, .tree t, .token z, .tree u, .token w, .tree b]
      (.tree (.node l (.forEach .keys t u b))) :=
  ⟨_, mem_control (by repeat constructor), makes_forEach target⟩

/-- A loop over the items of a value. -/
theorem produces_forOf (target : isLoopTarget t = true) :
    Produces .forOfStatement
      [for_, leftParen, Phrase.forBinding, of, Phrase.assignmentExpr, rightParen, Phrase.statement]
      [.token x, .token y, .tree t, .token z, .tree u, .token w, .tree b]
      (.tree (.node l (.forEach .values t u b))) :=
  ⟨_, mem_control (by repeat constructor), makes_forEach target⟩

/-- A `while` loop. -/
theorem produces_while :
    Produces .whileStatement [while_, leftParen, Phrase.expression, rightParen, Phrase.statement]
      [.token x, .token y, .tree t, .token z, .tree b] (.tree (.node l (.whileStatement t b))) := by
  refine ⟨_, mem_control (by repeat constructor), makes_make fun _ h _ => ?_⟩
  exact Tree.readAs_node rfl nofun (.cons ⟨rfl, h.tree rfl⟩ (.cons ⟨rfl, h.tree rfl⟩ .nil))

/-- A `do` loop. -/
theorem produces_doWhile {x' : Text} :
    Produces .doWhileStatement
      [do_, Phrase.statement, while_, leftParen, Phrase.expression, rightParen, semicolon]
      [.token x, .tree b, .token y, .token z, .tree t, .token w, .token x']
      (.tree (.node l (.doWhileStatement b t))) := by
  refine ⟨_, mem_control (by repeat constructor), makes_make fun _ h _ => ?_⟩
  exact Tree.readAs_node rfl nofun (.cons ⟨rfl, h.tree rfl⟩ (.cons ⟨rfl, h.tree rfl⟩ .nil))

end Control

/-! ## Other statements -/

section Simple

open Terminal

/-- A phrase that is a statement. -/
theorem produces_ofKind {A : Phrase} (known : isA .statement A ∈ statementProductions) :
    Produces .statement [.phrase A] [c] c :=
  produces_isA (mem_statement known)

/-- The empty statement. -/
theorem produces_empty :
    Produces .emptyStatement [semicolon] [.token x] (.tree (.node l .emptyStatement)) := by
  refine ⟨_, mem_simple (by repeat constructor), makes_make fun _ h _ => ?_⟩
  exact Tree.readAs_node rfl nofun .nil

/-- A `return` with or without a value. -/
theorem produces_return (value : Slot .expression Xs cs t) :
    Produces .returnStatement
      ([Grammar.Symbol.terminal return_] ++ Xs ++ [Grammar.Symbol.terminal semicolon])
      ([Content.token x] ++ cs ++ [Content.token y]) (.tree (.node l (.returnStatement t))) := by
  cases value <;>
  · simp only [List.cons_append, List.nil_append]
    refine ⟨_, mem_simple (by repeat constructor), makes_make fun _ h _ => ?_⟩
    refine Tree.readAs_node rfl nofun (.cons ⟨rfl, ?_⟩ .nil)
    first | exact h.tree rfl | exact Tree.readAs_null

/-- A `continue` with or without a label. -/
theorem produces_continue (label : NameSlot Xs cs t) :
    Produces .continueStatement
      ([Grammar.Symbol.terminal continue_] ++ Xs ++ [Grammar.Symbol.terminal semicolon])
      ([Content.token x] ++ cs ++ [Content.token y]) (.tree (.node l (.jump .continues t))) := by
  cases label <;>
  · simp only [List.cons_append, List.nil_append]
    refine ⟨_, mem_simple (by repeat constructor), makes_make fun _ h _ => ?_⟩
    refine Tree.readAs_node rfl nofun (.cons ⟨rfl, ?_⟩ .nil)
    first | exact h.name rfl _ | exact Tree.readAs_null

/-- A `break` with or without a label. -/
theorem produces_break (label : NameSlot Xs cs t) :
    Produces .breakStatement
      ([Grammar.Symbol.terminal break_] ++ Xs ++ [Grammar.Symbol.terminal semicolon])
      ([Content.token x] ++ cs ++ [Content.token y]) (.tree (.node l (.jump .breaks t))) := by
  cases label <;>
  · simp only [List.cons_append, List.nil_append]
    refine ⟨_, mem_simple (by repeat constructor), makes_make fun _ h _ => ?_⟩
    refine Tree.readAs_node rfl nofun (.cons ⟨rfl, ?_⟩ .nil)
    first | exact h.name rfl _ | exact Tree.readAs_null

/-- A labelled statement. -/
theorem produces_labeled : Produces .labeledStatement [name, colon, Phrase.statement]
    [.token n, .token x, .tree b] (.tree (.node l (.labeled (identifierAt k n) b))) := by
  refine ⟨_, mem_simple (by repeat constructor), makes_make fun _ h _ => ?_⟩
  exact Tree.readAs_node rfl nofun (.cons ⟨rfl, h.name rfl _⟩ (.cons ⟨rfl, h.tree rfl⟩ .nil))

/-- A statement that is an expression. -/
theorem produces_expressionStatement :
    Produces .expressionStatement [Phrase.statementExpr, semicolon] [.tree t, .token x]
      (.tree (.node l (.expressionStatement t))) := by
  refine ⟨_, mem_simple (by repeat constructor), makes_make fun _ h _ => ?_⟩
  exact Tree.readAs_node rfl nofun (.cons ⟨rfl, h.tree rfl⟩ .nil)

/-- A sequence at the start of a statement. -/
theorem produces_initialSequence :
    Produces .statementExpr [Phrase.statementAssignment, Phrase.moreExprs] [.tree t, .trees ts]
      (.tree (.node l (.sequence (.tuple (t :: ts))))) := by
  refine ⟨_, mem_simple (by repeat constructor), makes_make fun _ h _ => ?_⟩
  exact Tree.readAs_node rfl nofun (.cons ⟨rfl, Tree.readAs_tuple
    (.cons (h.tree rfl) (h.trees rfl))⟩ .nil)

/-- An assignment at the start of a statement. -/
theorem produces_initialAssignment (target : Rule.isTarget t = true) :
    Produces .statementAssignment [Phrase.unaryExpr, Phrase.assignOp, Phrase.assignmentExpr]
      [.tree t, .token x, .tree u] (.tree (.node l (.assignment (.text x) t u))) := by
  refine ⟨_, mem_simple (by repeat constructor), makes_checked rfl target fun _ h _ => ?_⟩
  exact Tree.readAs_node rfl nofun (.cons ⟨rfl, h.operator rfl⟩
    (.cons ⟨rfl, h.tree rfl⟩ (.cons ⟨rfl, h.tree rfl⟩ .nil)))

/-- The start of a statement that is no sequence. -/
theorem produces_initial : Produces .statementExpr [Phrase.statementAssignment] [c] c :=
  produces_isA (mem_simple (by repeat constructor))

/-- The start of a statement that is no assignment. -/
theorem produces_initialConditional : Produces .statementAssignment [Phrase.conditionalExpr] [c] c :=
  produces_isA (mem_simple (by repeat constructor))

/-- The second expression of a row, after a comma. -/
theorem produces_moreExpr : Produces .moreExprs [comma, Phrase.assignmentExpr] [.token y, .tree t]
    (.trees [t]) := by
  refine ⟨_, mem_simple (by repeat constructor), makes_gather fun _ h => ?_⟩
  exact .cons (h.tree rfl) .nil

/-- One more expression, after a comma. -/
theorem produces_moreExprs : Produces .moreExprs [Phrase.moreExprs, comma, Phrase.assignmentExpr]
    [.trees ts, .token y, .tree t] (.trees (ts ++ [t])) := by
  refine ⟨_, mem_simple (by repeat constructor), makes_gather fun _ h => ?_⟩
  exact List.rel_append (h.trees rfl) (.cons (h.tree rfl) .nil)

end Simple

/-! ## Expressions -/

section Expressions

open Terminal

/-- The phrase of the expressions that hold together at least as tightly as a precedence. -/
def level : Precedence → Phrase
  | 0 => .expression
  | 1 => .assignmentExpr
  | 2 => .conditionalExpr
  | 3 => .logicalOrExpr
  | 4 => .logicalAndExpr
  | 5 => .bitwiseOrExpr
  | 6 => .bitwiseXorExpr
  | 7 => .bitwiseAndExpr
  | 8 => .equalityExpr
  | 9 => .relationalExpr
  | 10 => .shiftExpr
  | 11 => .additiveExpr
  | 12 => .multiplicativeExpr
  | 13 => .unaryExpr
  | 14 => .postfixExpr
  | 15 => .lhsExpr
  | _ => .primary

/-- An expression that holds together tightly is one that holds together less tightly. -/
theorem produces_level {p : Precedence} (bound : p < 16) :
    Produces (level p) [.phrase (level (p + 1))] [c] c := by
  interval_cases p
  iterate 3 exact produces_isA (mem_expression (by repeat constructor))
  iterate 10 exact produces_isA (mem_binary (by repeat constructor))
  iterate 3 exact produces_isA (mem_expression (by repeat constructor))

/-- A sequence. -/
theorem produces_sequence :
    Produces .expression [Phrase.assignmentExpr, Phrase.moreExprs] [.tree t, .trees ts]
      (.tree (.node l (.sequence (.tuple (t :: ts))))) := by
  refine ⟨_, mem_expression (by repeat constructor), makes_make fun _ h _ => ?_⟩
  exact Tree.readAs_node rfl nofun (.cons ⟨rfl, Tree.readAs_tuple
    (.cons (h.tree rfl) (h.trees rfl))⟩ .nil)

/-- A function as an expression. -/
theorem produces_functionExpression : Produces .assignmentExpr [Phrase.functionExpression] [c] c :=
  produces_isA (mem_expression (by repeat constructor))

/-- An assignment. -/
theorem produces_assignment (target : Rule.isTarget t = true) :
    Produces .assignmentExpr [Phrase.unaryExpr, Phrase.assignOp, Phrase.assignmentExpr]
      [.tree t, .token x, .tree u] (.tree (.node l (.assignment (.text x) t u))) := by
  refine ⟨_, mem_expression (by repeat constructor), makes_checked rfl target fun _ h _ => ?_⟩
  exact Tree.readAs_node rfl nofun (.cons ⟨rfl, h.operator rfl⟩
    (.cons ⟨rfl, h.tree rfl⟩ (.cons ⟨rfl, h.tree rfl⟩ .nil)))

/-- A function with or without a name and parameters. -/
theorem produces_function {Ys : List Symbol} (id : NameSlot Xs cs t)
    (params : RowSlot .params Ys ds ts) :
    Produces .functionExpression
      ([Grammar.Symbol.terminal function] ++ Xs ++ [Grammar.Symbol.terminal leftParen] ++ Ys ++
        [Grammar.Symbol.terminal rightParen, .phrase .block])
      ([Content.token x] ++ cs ++ [Content.token y] ++ ds ++ [Content.token z, .tree b])
      (.tree (.node l (.function .expression t (.tuple ts) b))) := by
  cases id <;> cases params <;>
  · simp only [List.cons_append, List.nil_append]
    refine ⟨_, mem_expression (by repeat constructor), makes_make fun _ h _ => ?_⟩
    refine Tree.readAs_node rfl nofun (.cons ⟨rfl, ?_⟩ (.cons ⟨rfl, ?_⟩
      (.cons ⟨rfl, h.tree rfl⟩ .nil)))
    · first | exact h.name rfl _ | exact Tree.readAs_null
    · first | exact h.row rfl | exact Tree.readAs_tuple .nil

/-- A conditional. -/
theorem produces_conditional :
    Produces .conditionalExpr
      [Phrase.logicalOrExpr, question, Phrase.assignmentExpr, colon, Phrase.assignmentExpr]
      [.tree t, .token x, .tree u, .token y, .tree v] (.tree (.node l (.conditional t u v))) := by
  refine ⟨_, mem_expression (by repeat constructor), makes_make fun _ h _ => ?_⟩
  exact Tree.readAs_node rfl nofun (.cons ⟨rfl, h.tree rfl⟩
    (.cons ⟨rfl, h.tree rfl⟩ (.cons ⟨rfl, h.tree rfl⟩ .nil)))

/-- A logical operation with the sign of its rule. -/
theorem makes_logical {rule sign : Text} :
    Makes (fixedLogical rule sign) [.tree t, .token x, .tree u]
      (.tree (.node l (.logical (.text sign) t u))) :=
  makes_make fun _ h _ => Tree.readAs_node rfl nofun (.cons ⟨rfl, Tree.readAs_text _⟩
    (.cons ⟨rfl, h.tree rfl⟩ (.cons ⟨rfl, h.tree rfl⟩ .nil)))

/-- A binary operation with the sign of its rule. -/
theorem makes_binary {rule sign : Text} :
    Makes (fixedBinary rule sign) [.tree t, .token x, .tree u]
      (.tree (.node l (.binary (.text sign) t u))) :=
  makes_make fun _ h _ => Tree.readAs_node rfl nofun (.cons ⟨rfl, Tree.readAs_text _⟩
    (.cons ⟨rfl, h.tree rfl⟩ (.cons ⟨rfl, h.tree rfl⟩ .nil)))

/-- A binary operation with the sign that was read. -/
theorem makes_anyBinary :
    Makes anyBinary [.tree t, .token x, .tree u] (.tree (.node l (.binary (.text x) t u))) :=
  makes_make fun _ h _ => Tree.readAs_node rfl nofun (.cons ⟨rfl, h.operator rfl⟩
    (.cons ⟨rfl, h.tree rfl⟩ (.cons ⟨rfl, h.tree rfl⟩ .nil)))

/-- A unary operation. -/
theorem produces_unary : Produces .unaryExpr [Phrase.unaryOp, Phrase.unaryExpr] [.token x, .tree t]
    (.tree (.node l (.unary (.text x) t (.bool true)))) := by
  refine ⟨_, mem_expression (by repeat constructor), makes_make fun _ h _ => ?_⟩
  exact Tree.readAs_node rfl nofun (.cons ⟨rfl, h.operator rfl⟩
    (.cons ⟨rfl, h.tree rfl⟩ (.cons ⟨rfl, Tree.readAs_bool true⟩ .nil)))

/-- An update before its target. -/
theorem produces_updateBefore (target : Rule.isTarget t = true) :
    Produces .unaryExpr [Phrase.updateOp, Phrase.unaryExpr] [.token x, .tree t]
      (.tree (.node l (.update (.text x) t (.bool true)))) := by
  refine ⟨_, mem_expression (by repeat constructor), makes_checked rfl target fun _ h _ => ?_⟩
  exact Tree.readAs_node rfl nofun (.cons ⟨rfl, h.operator rfl⟩
    (.cons ⟨rfl, h.tree rfl⟩ (.cons ⟨rfl, Tree.readAs_bool true⟩ .nil)))

/-- An update after its target. -/
theorem produces_updateAfter (target : Rule.isTarget t = true) :
    Produces .postfixExpr [Phrase.lhsExpr, Phrase.updateOp] [.tree t, .token x]
      (.tree (.node l (.update (.text x) t (.bool false)))) := by
  refine ⟨_, mem_expression (by repeat constructor), makes_checked rfl target fun _ h _ => ?_⟩
  exact Tree.readAs_node rfl nofun (.cons ⟨rfl, h.operator rfl⟩
    (.cons ⟨rfl, h.tree rfl⟩ (.cons ⟨rfl, Tree.readAs_bool false⟩ .nil)))

/-- A member by its name. -/
theorem produces_member : Produces .lhsExpr [Phrase.lhsExpr, dot, name] [.tree t, .token x, .token n]
    (.tree (.node l (.member t (identifierAt k n) (.bool false)))) := by
  refine ⟨_, mem_expression (by repeat constructor), makes_make fun _ h _ => ?_⟩
  exact Tree.readAs_node rfl nofun (.cons ⟨rfl, h.tree rfl⟩
    (.cons ⟨rfl, h.name rfl _⟩ (.cons ⟨rfl, Tree.readAs_bool false⟩ .nil)))

/-- A member by a key that is computed. -/
theorem produces_computed :
    Produces .lhsExpr [Phrase.lhsExpr, leftBracket, Phrase.expression, rightBracket]
      [.tree t, .token x, .tree u, .token y] (.tree (.node l (.member t u (.bool true)))) := by
  refine ⟨_, mem_expression (by repeat constructor), makes_make fun _ h _ => ?_⟩
  exact Tree.readAs_node rfl nofun (.cons ⟨rfl, h.tree rfl⟩
    (.cons ⟨rfl, h.tree rfl⟩ (.cons ⟨rfl, Tree.readAs_bool true⟩ .nil)))

/-- A call with or without arguments. -/
theorem produces_call (arguments : RowSlot .arguments Xs cs ts) :
    Produces .lhsExpr
      ([Grammar.Symbol.phrase .lhsExpr, .terminal leftParen] ++ Xs ++
        [Grammar.Symbol.terminal rightParen])
      ([Content.tree t, .token x] ++ cs ++ [Content.token y])
      (.tree (.node l (.call t (.tuple ts)))) := by
  cases arguments <;>
  · simp only [List.cons_append, List.nil_append]
    refine ⟨_, mem_expression (by repeat constructor), makes_make fun _ h _ => ?_⟩
    refine Tree.readAs_node rfl nofun (.cons ⟨rfl, h.tree rfl⟩ (.cons ⟨rfl, ?_⟩ .nil))
    first | exact h.row rfl | exact Tree.readAs_tuple .nil

/-- Several arguments. -/
theorem produces_arguments : Produces .arguments [Phrase.assignmentExpr, Phrase.moreExprs]
    [.tree t, .trees ts] (.trees (t :: ts)) := by
  refine ⟨_, mem_expression (by repeat constructor), makes_gather fun _ h => ?_⟩
  exact .cons (h.tree rfl) (h.trees rfl)

/-- One argument. -/
theorem produces_argument : Produces .arguments [Phrase.assignmentExpr] [.tree t] (.trees [t]) := by
  refine ⟨_, mem_expression (by repeat constructor), makes_gather fun _ h => ?_⟩
  exact .cons (h.tree rfl) .nil

/-! ## The simplest expressions -/

/-- A name. -/
theorem produces_name : Produces .primary [name] [.token x] (.tree (identifierAt l x)) := by
  refine ⟨_, mem_primary (by repeat constructor), fun _ ps _ h => ?_⟩
  exact ⟨.tree (ps.name 0), rfl, .tree (h.name rfl l)⟩

/-- A number, read up to the sameness of numbers. -/
theorem produces_number {d : Double} (value : Literal.number x = .ok d)
    (same : t.same (.num d) = true)
    (exact : (Tree.node l (.literal t)).isExact = true → t = .num d) :
    Produces .primary [number] [.token x] (.tree (.node l (.literal t))) := by
  refine ⟨_, mem_primary (by repeat constructor), fun _ ps _ h => ?_⟩
  refine ⟨.tree (ps.nodeAt 0 (.literal (.num d))), ?_, .tree ?_⟩
  · have text : ps.text 0 = x := h.text rfl
    simp only [content, numberContent, text, value]
    rfl
  · exact Tree.readAs_literal same exact

/-- A string, whose quotes and escapes are undone. -/
theorem produces_string : Produces .primary [string] [.token x]
    (.tree (.node l (.literal (.text (Literal.unquote x))))) := by
  refine ⟨_, mem_primary (by repeat constructor), fun _ ps _ h => ?_⟩
  have text : ps.text 0 = x := h.text rfl
  refine ⟨_, rfl, .tree (Tree.readAs_node rfl nofun (.cons ⟨rfl, ?_⟩ .nil))⟩
  rw [text]
  exact Tree.readAs_text _

/-- The literal `true`. -/
theorem produces_true :
    Produces .primary [true_] [.token x] (.tree (.node l (.literal (.bool true)))) := by
  refine ⟨_, mem_primary (by repeat constructor), makes_make fun _ h _ => ?_⟩
  exact Tree.readAs_node rfl nofun (.cons ⟨rfl, Tree.readAs_bool true⟩ .nil)

/-- The literal `false`. -/
theorem produces_false :
    Produces .primary [false_] [.token x] (.tree (.node l (.literal (.bool false)))) := by
  refine ⟨_, mem_primary (by repeat constructor), makes_make fun _ h _ => ?_⟩
  exact Tree.readAs_node rfl nofun (.cons ⟨rfl, Tree.readAs_bool false⟩ .nil)

/-- The literal `null`. -/
theorem produces_null :
    Produces .primary [null] [.token x] (.tree (.node l (.literal .null))) := by
  refine ⟨_, mem_primary (by repeat constructor), makes_make fun _ h _ => ?_⟩
  exact Tree.readAs_node rfl nofun (.cons ⟨rfl, Tree.readAs_null⟩ .nil)

/-- An array with or without elements. -/
theorem produces_array (elements : RowSlot .arguments Xs cs ts) :
    Produces .primary
      ([Grammar.Symbol.terminal leftBracket] ++ Xs ++ [Grammar.Symbol.terminal rightBracket])
      ([Content.token x] ++ cs ++ [Content.token y]) (.tree (.node l (.array (.tuple ts)))) := by
  cases elements <;>
  · simp only [List.cons_append, List.nil_append]
    refine ⟨_, mem_primary (by repeat constructor), makes_make fun _ h _ => ?_⟩
    refine Tree.readAs_node rfl nofun (.cons ⟨rfl, ?_⟩ .nil)
    first | exact h.row rfl | exact Tree.readAs_tuple .nil

/-- Parentheses, which leave no trace. -/
theorem produces_parentheses : Produces .primary [leftParen, Phrase.expression, rightParen]
    [.token x, .tree t, .token y] (.tree t) :=
  ⟨_, mem_primary (by repeat constructor), makes_keep rfl⟩

end Expressions

end Source

end TailLoop
