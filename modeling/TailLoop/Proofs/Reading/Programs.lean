import TailLoop.Proofs.Reading.Stack
import TailLoop.Proofs.WellFormed

/-!
# Programs that are read are well-formed

Every text that is read as a program gives a well-formed tree, jumps aside (`parse_wellFormed`): all
fields of its nodes hold what their kinds ask for, whatever the text was. The grammar says so
production by production. `PhraseFits` tells what the content of each phrase is, and `ProductionSound`
that the rule of a production gives such a content; a production of each form has its own lemma, and
the tree it makes is well-formed because its parts are.
-/

namespace TailLoop.Source

open Grammar Validity

/-! ## What symbols stand for -/

/-- An expression that is well-formed wherever it stands, jumps aside. -/
structure IsExpression (t : Tree) : Prop where
  kind : t.isExpression = true
  part : ∀ c, WellFormed false c t

/-- A statement that is well-formed wherever it stands, jumps aside. -/
structure IsStatement (t : Tree) : Prop where
  kind : t.isStatement = true
  part : ∀ c, WellFormed false c t

/-- A program of such statements. -/
inductive IsProgram : Tree → Prop where
  | mk (l : Option Location) {ss : List Tree} (statements : ∀ s ∈ ss, IsStatement s) :
    IsProgram (.node l (.program (.tuple ss)))

/-- A block of such statements. -/
inductive IsBlock : Tree → Prop where
  | mk (l : Option Location) {ss : List Tree} (statements : ∀ s ∈ ss, IsStatement s) :
    IsBlock (.node l (.block (.tuple ss)))

/-- A declarator that is well-formed wherever it stands. -/
structure IsDeclarator (t : Tree) : Prop where
  kind : t.hasKind .variableDeclarator = true
  part : ∀ c, WellFormed false c t

/-- A tree that may be absent. -/
def Optional (P : Tree → Prop) (t : Tree) : Prop := t.isNull = false → P t

/-- What a `for` loop begins with: a declaration or an expression. -/
structure IsForInit (t : Tree) : Prop where
  kind : t.hasKind .variableDeclaration = true ∨ t.isExpression = true
  part : ∀ c, WellFormed false c t

/-- What a loop over a collection assigns to: the variable that it declares, or an expression. -/
inductive IsBinding : Tree → Prop where
  | declared (ld le : Option Location) {id : Tree} (name : IsName id) :
    IsBinding (.node ld (.variableDeclaration (.tuple [.node le (.variableDeclarator id .null)])
      (.text Tree.varKind)))
  | expression {t : Tree} (h : IsExpression t) : IsBinding t

/-- A content that is one tree with a property. -/
def One (P : Tree → Prop) : Content → Prop
  | .tree t => P t
  | _ => False

/-- A content that is a row of at least one tree, all of them with a property. -/
def Row (P : Tree → Prop) : Content → Prop
  | .trees ts => ts ≠ [] ∧ ∀ t ∈ ts, P t
  | _ => False

/-- A content that is one of the given signs. -/
def Sign (table : List Text) : Content → Prop
  | .token s => s ∈ table
  | _ => False

/-- Whether a text can be a token of a terminal. -/
def spells : Terminal → Text → Bool
  | .name, s => isNameLine s
  | .number, _ => true
  | .string, _ => true
  | t, s => s == t.spelling

/-- What the content of a phrase is. -/
def PhraseFits : Phrase → Content → Prop
  | .root | .program => One IsProgram
  | .statement | .functionDeclaration | .variableStatement | .emptyStatement | .ifStatement
  | .forStatement | .forInStatement | .forOfStatement | .whileStatement | .doWhileStatement
  | .returnStatement | .continueStatement | .breakStatement | .labeledStatement
  | .expressionStatement => One IsStatement
  | .statements => Row IsStatement
  | .block => One IsBlock
  | .params | .moreNames => Row IsName
  | .declarator => One IsDeclarator
  | .declaratorList | .moreDeclarators => Row IsDeclarator
  | .forInit => One IsForInit
  | .forBinding => One IsBinding
  | .arguments | .moreExprs => Row IsExpression
  | .assignOp => Sign assignmentSpellings
  | .equalityOp | .relationalOp | .shiftOp | .additiveOp | .multiplicativeOp =>
    Sign (BinaryOperator.table.map (·.2.1))
  | .unaryOp => Sign (UnaryOperator.table.map (·.2))
  | .updateOp => Sign (UpdateOperator.table.map (·.2))
  | .statementExpr | .statementAssignment | .expression | .assignmentExpr | .functionExpression
  | .conditionalExpr | .logicalOrExpr | .logicalAndExpr | .bitwiseOrExpr | .bitwiseXorExpr
  | .bitwiseAndExpr | .equalityExpr | .relationalExpr | .shiftExpr | .additiveExpr
  | .multiplicativeExpr | .unaryExpr | .postfixExpr | .lhsExpr | .primary => One IsExpression

/-- What the content of a symbol is. -/
def Fits : Symbol → Content → Prop
  | .terminal t, .token s => spells t s = true
  | .terminal _, _ => False
  | .phrase p, c => PhraseFits p c

/-! ## Tokens -/

/-- What is cut off as a name is one. -/
theorem isName_take {t : Text} {n : Nat} (h : nameLength? t = some n) :
    Text.isName (t.take n) = true := by
  cases t with
  | nil => cases h
  | cons c rest =>
    rw [nameLength?] at h
    split at h
    · rename_i start
      cases h
      rw [Nat.add_comm, List.take_succ_cons, Text.isName, start, Bool.true_and,
        List.prefix_iff_eq_take.mp (List.takeWhile_prefix Text.isNamePart) |>.symm]
      exact List.all_takeWhile
    · cases h

/-- Terminals other than names, numbers and strings have one spelling. -/
theorem spelling_of_spells {t : Terminal} {s : Text} (fixed : t ∉ [.name, .number, .string])
    (h : spells t s = true) : s = t.spelling := by
  unfold spells at h
  split at h
  · simp at fixed
  · simp at fixed
  · simp at fixed
  · exact eq_of_beq h

/-- The fixed spellings spell their terminals. -/
theorem spells_fixed : ∀ e ∈ Terminal.fixed, spells e.1 e.2.2 = true := by decide +kernel

/-- A keyword spells its terminal. -/
theorem spells_keyword {allowed : List Terminal} {name : Text} {t : Terminal}
    (h : keyword? allowed name = some t) : spells t name = true := by
  obtain ⟨⟨t', label, spelling⟩, found, rfl⟩ := Option.map_eq_some_iff.mp h
  have same := List.find?_some found
  rw [Bool.and_eq_true, beq_iff_eq] at same
  rw [← same.1]
  refine spells_fixed _ ?_
  have mem := List.mem_of_find?_eq_some found
  simp only [Terminal.fixed, List.mem_append]
  exact .inl (.inl (.inl mem))

/-- The longest fixed text that fits spells its terminal. -/
theorem spells_longest {t : Text} {terminal : Terminal} {n : Nat} {table : List (Terminal × Text)}
    (known : ∀ e ∈ table, spells e.1 e.2 = true)
    (h : longestFixed? t table = some (terminal, n)) : spells terminal (t.take n) = true := by
  induction table with
  | nil => cases h
  | cons e rest ih =>
    obtain ⟨terminal', spelling⟩ := e
    rw [longestFixed?] at h
    split at h
    · rename_i starts
      cases h
      rw [Bool.and_eq_true] at starts
      rw [← List.prefix_iff_eq_take.mp (List.isPrefixOf_iff_prefix.mp starts.1)]
      exact known _ List.mem_cons_self
    · exact ih (fun e he => known e (List.mem_cons_of_mem _ he)) h

/-- A token is spelled as its terminal is. -/
theorem spells_match {allowed : List Terminal} {t : Text} {terminal : Terminal} {n : Nat}
    (h : match? allowed t = some (terminal, n)) : spells terminal (t.take n) = true := by
  unfold match? at h
  dsimp only at h
  -- The token is a name or a keyword, a number, a string or a fixed text.
  split at h
  · rename_i n' _ _ named
    cases h
    have name : nameLength? t = some n := by
      split at named
      · exact named
      · cases named
    -- A name that is a keyword is spelled like one.
    cases keyword : keyword? allowed (t.take n) with
    | some k => exact spells_keyword keyword
    | none =>
      change isNameLine (t.take n) = true
      rw [isNameLine, isName_take name, Bool.true_or]
  · cases h
    rfl
  · cases h
    rfl
  -- A fixed text is spelled as it is listed.
  · refine spells_longest ?_ h
    intro e he
    obtain ⟨⟨t', label, spelling⟩, mem, made⟩ := List.mem_filterMap.mp he
    obtain ⟨-, same⟩ := Option.ite_none_right_eq_some.mp made
    cases same
    exact spells_fixed _ mem

/-! ## Parts -/

/-- Parts that were read as the given symbols. -/
def Fitting (symbols : List Symbol) (ps : Parts) : Prop :=
  List.Forall₂ (fun X part => Fits X part.content) symbols ps

namespace Fitting

variable {symbols : List Symbol} {ps : Parts} {P : Tree → Prop}

/-- A part of a reading fits the symbol at its place. -/
theorem part (h : Fitting symbols ps) (i : Nat) {X : Symbol} (here : symbols[i]? = some X) :
    ∃ part, ps[i]? = some part ∧ Fits X part.content := by
  induction h generalizing i with
  | nil => cases here
  | cons fits _ ih =>
    cases i with
    | zero =>
      cases here
      exact ⟨_, rfl, fits⟩
    | succ i => exact ih i here

/-- The tree at a position is one of its phrase. -/
theorem tree (h : Fitting symbols ps) (i : Nat) {p : Phrase}
    (here : symbols[i]? = some (.phrase p)) (sense : PhraseFits p = One P) : P (ps.tree i) := by
  obtain ⟨⟨c, l⟩, found, fits⟩ := h.part i here
  change PhraseFits p c at fits
  rw [sense] at fits
  cases c with
  | tree t =>
    rw [Parts.tree, found]
    exact fits
  | _ => cases fits

/-- The trees at a position are those of its phrase. -/
theorem trees (h : Fitting symbols ps) (i : Nat) {p : Phrase}
    (here : symbols[i]? = some (.phrase p)) (sense : PhraseFits p = Row P) :
    ps.trees i ≠ [] ∧ ∀ t ∈ ps.trees i, P t := by
  obtain ⟨⟨c, l⟩, found, fits⟩ := h.part i here
  change PhraseFits p c at fits
  rw [sense] at fits
  cases c with
  | trees ts =>
    rw [Parts.trees, found]
    exact fits
  | _ => cases fits

/-- A name token is an identifier. -/
theorem name (h : Fitting symbols ps) (i : Nat)
    (here : symbols[i]? = some (.terminal .name)) : IsName (ps.name i) := by
  obtain ⟨⟨c, l⟩, found, fits⟩ := h.part i here
  cases c with
  | token s =>
    rw [Parts.name, Parts.nodeAt, Parts.text, found]
    exact .mk _ fits
  | _ => cases fits

/-- A part that is an operator is one of its table. -/
theorem sign (h : Fitting symbols ps) (i : Nat) {p : Phrase} {table : List Text}
    (here : symbols[i]? = some (.phrase p)) (sense : PhraseFits p = Sign table) :
    ps.text i ∈ table := by
  obtain ⟨⟨c, l⟩, found, fits⟩ := h.part i here
  change PhraseFits p c at fits
  rw [sense] at fits
  cases c with
  | token s =>
    rw [Parts.text, found]
    exact fits
  | _ => cases fits

end Fitting

/-! ## Trees from their parts -/

/-- What is absent need not be anything. -/
theorem optional_absent {P : Tree → Prop} : Optional P absent := by
  intro h
  cases h

/-- What is there may be there. -/
theorem IsExpression.optional {t : Tree} (h : IsExpression t) : Optional IsExpression t :=
  fun _ => h

/-- A block is a statement. -/
theorem isBlock_statement {t : Tree} (h : IsBlock t) : IsStatement t := by
  obtain ⟨l, statements⟩ := h
  exact ⟨rfl, fun c => .block (fun s hs => (statements s hs).kind)
    fun s hs => (statements s hs).part c⟩

/-- A function with a name, parameters and a block for its body. -/
theorem wellFormed_function {l : Option Location} {form : FunctionForm} {id body : Tree}
    {ps : List Tree} (named : form = .declaration → IsName id) (name : Optional IsName id)
    (params : ∀ p ∈ ps, IsName p) (block : IsBlock body) (c : Targets) :
    WellFormed false c (.node l (.function form id (.tuple ps) body)) := by
  obtain ⟨lb, statements⟩ := block
  exact .function named name params (fun s hs => (statements s hs).kind)
    fun s hs => (statements s hs).part {}

/-- A function declaration is a statement. -/
theorem isStatement_function {l : Option Location} {id body : Tree} {ps : List Tree}
    (name : IsName id) (params : ∀ p ∈ ps, IsName p) (block : IsBlock body) :
    IsStatement (.node l (.function .declaration id (.tuple ps) body)) :=
  ⟨rfl, wellFormed_function (fun _ => name) (fun _ => name) params block⟩

/-- A function is an expression. -/
theorem isExpression_function {l : Option Location} {id body : Tree} {ps : List Tree}
    (name : Optional IsName id) (params : ∀ p ∈ ps, IsName p) (block : IsBlock body) :
    IsExpression (.node l (.function .expression id (.tuple ps) body)) :=
  ⟨rfl, wellFormed_function (fun h => by cases h) name params block⟩

/-- A declarator of a name, with a value or none. -/
theorem isDeclarator {l : Option Location} {id init : Tree} (name : IsName id)
    (value : Optional IsExpression init) :
    IsDeclarator (.node l (.variableDeclarator id init)) :=
  ⟨rfl, fun c => .variableDeclarator name (fun h => (value h).kind) fun h => (value h).part c⟩

/-- A declaration of declarators is well-formed. -/
theorem wellFormed_declared {l : Option Location} {ds : List Tree}
    (h : ds ≠ [] ∧ ∀ d ∈ ds, IsDeclarator d) (c : Targets) :
    WellFormed false c (.node l (declared (.tuple ds))) :=
  .variableDeclaration h.1 (fun d hd => (h.2 d hd).kind) fun d hd => (h.2 d hd).part c

/-- A condition is a statement. -/
theorem isStatement_if {l : Option Location} {test consequent alternate : Tree}
    (ht : IsExpression test) (hc : IsStatement consequent) (ha : Optional IsStatement alternate) :
    IsStatement (.node l (.ifStatement test consequent alternate)) :=
  ⟨rfl, fun c => .ifStatement ht.kind (ht.part c) hc.kind (hc.part c) (fun h => (ha h).kind)
    fun h => (ha h).part c⟩

/-- A `for` loop is a statement. -/
theorem isStatement_for {l : Option Location} {init test step body : Tree}
    (hi : Optional IsForInit init) (ht : Optional IsExpression test)
    (hs : Optional IsExpression step) (hb : IsStatement body) :
    IsStatement (.node l (.forStatement init test step body)) :=
  ⟨rfl, fun c => .forStatement (fun h => (hi h).kind) (fun h => (hi h).part c)
    (fun h => (ht h).kind) (fun h => (ht h).part c) (fun h => (hs h).kind)
    (fun h => (hs h).part c) hb.kind (hb.part _)⟩

/-- The grammar's targets can be assigned to. -/
theorem isAssignable_of_isTarget {t : Tree} (h : Rule.isTarget t = true) :
    t.isAssignable = true := by
  unfold Rule.isTarget at h
  split at h
  · rfl
  · rfl
  · cases h

/-- A loop over a collection is a statement. -/
theorem isStatement_forEach {l : Option Location} {domain : Domain} {left right body : Tree}
    (hl : IsBinding left)
    (target : (left.hasKind .variableDeclaration || Rule.isTarget left) = true)
    (hr : IsExpression right) (hb : IsStatement body) :
    IsStatement (.node l (.forEach domain left right body)) := by
  refine ⟨by cases domain <;> rfl, fun c => ?_⟩
  -- The target is declared by the loop, or it can be assigned to.
  cases hl with
  | declared ld le name => exact .forEachDeclared name hr.kind (hr.part c) hb.kind (hb.part _)
  | expression hl =>
    have assigned : Rule.isTarget left = true := by
      rcases Bool.or_eq_true_iff.mp target with declared | assigned
      · have kind := hl.kind
        rw [Tree.hasKind, beq_iff_eq] at declared
        rw [Tree.isExpression, declared] at kind
        cases kind
      · exact assigned
    exact .forEach (isAssignable_of_isTarget assigned) (hl.part c) hr.kind (hr.part c) hb.kind
      (hb.part _)

/-- A `return` is a statement. -/
theorem isStatement_return {l : Option Location} {argument : Tree}
    (value : Optional IsExpression argument) :
    IsStatement (.node l (.returnStatement argument)) :=
  ⟨rfl, fun c => .returnStatement (fun h => (value h).kind) fun h => (value h).part c⟩

/-- A bare jump is a statement. -/
theorem isStatement_bareJump {l : Option Location} (kind : JumpKind) :
    IsStatement (.node l (.jump kind absent)) :=
  ⟨by cases kind <;> rfl, fun c => .bareJump fun h => by cases h⟩

/-- A jump to a label is a statement. -/
theorem isStatement_jump {l : Option Location} (kind : JumpKind) {label : Tree}
    (name : IsName label) : IsStatement (.node l (.jump kind label)) := by
  obtain ⟨ln, spelled⟩ := name
  exact ⟨by cases kind <;> rfl, fun c => .jump spelled fun h => by cases h⟩

/-- A labelled statement is a statement. -/
theorem isStatement_labeled {l : Option Location} {label body : Tree} (name : IsName label)
    (hb : IsStatement body) : IsStatement (.node l (.labeled label body)) := by
  obtain ⟨ln, spelled⟩ := name
  exact ⟨rfl, fun c => .labeled spelled (fun h => by cases h) hb.kind (hb.part _)⟩

/-- A sequence is an expression. -/
theorem isExpression_sequence {l : Option Location} {e : Tree} {es : List Tree}
    (he : IsExpression e) (hes : ∀ u ∈ es, IsExpression u) :
    IsExpression (.node l (.sequence (.tuple (e :: es)))) := by
  have each : ∀ u ∈ e :: es, IsExpression u := List.forall_mem_cons.mpr ⟨he, hes⟩
  exact ⟨rfl, fun c => .sequence (List.cons_ne_nil _ _) (fun u hu => (each u hu).kind)
    fun u hu => (each u hu).part c⟩

/-- An assignment is an expression. -/
theorem isExpression_assignment {l : Option Location} {op : Text} {left right : Tree}
    (known : op ∈ assignmentSpellings) (target : left.isAssignable = true)
    (hl : IsExpression left) (hr : IsExpression right) :
    IsExpression (.node l (.assignment (.text op) left right)) :=
  ⟨rfl, fun c => .assignment known target (hl.part c) hr.kind (hr.part c)⟩

/-- An update is an expression. -/
theorem isExpression_update {l : Option Location} {op : Text} {argument : Tree} {first : Bool}
    (known : op ∈ UpdateOperator.table.map (·.2)) (target : argument.isAssignable = true)
    (ha : IsExpression argument) :
    IsExpression (.node l (.update (.text op) argument (.bool first))) :=
  ⟨rfl, fun c => .update known target (ha.part c)⟩

/-- A binary operation is an expression. -/
theorem isExpression_binary {l : Option Location} {op : Text} {left right : Tree}
    (known : op ∈ BinaryOperator.table.map (·.2.1)) (hl : IsExpression left)
    (hr : IsExpression right) : IsExpression (.node l (.binary (.text op) left right)) :=
  ⟨rfl, fun c => .binary known hl.kind (hl.part c) hr.kind (hr.part c)⟩

/-- A logical operation is an expression. -/
theorem isExpression_logical {l : Option Location} {op : Text} {left right : Tree}
    (known : op ∈ LogicalOperator.table.map (·.2.1)) (hl : IsExpression left)
    (hr : IsExpression right) : IsExpression (.node l (.logical (.text op) left right)) :=
  ⟨rfl, fun c => .logical known hl.kind (hl.part c) hr.kind (hr.part c)⟩

/-- A unary operation is an expression. -/
theorem isExpression_unary {l : Option Location} {op : Text} {argument : Tree}
    (known : op ∈ UnaryOperator.table.map (·.2)) (ha : IsExpression argument) :
    IsExpression (.node l (.unary (.text op) argument (.bool true))) :=
  ⟨rfl, fun c => .unary known ha.kind (ha.part c)⟩

/-- A conditional is an expression. -/
theorem isExpression_conditional {l : Option Location} {test consequent alternate : Tree}
    (ht : IsExpression test) (hc : IsExpression consequent) (ha : IsExpression alternate) :
    IsExpression (.node l (.conditional test consequent alternate)) :=
  ⟨rfl, fun c => .conditional ht.kind (ht.part c) hc.kind (hc.part c) ha.kind (ha.part c)⟩

/-- A call is an expression. -/
theorem isExpression_call {l : Option Location} {callee : Tree} {args : List Tree}
    (hc : IsExpression callee) (ha : ∀ e ∈ args, IsExpression e) :
    IsExpression (.node l (.call callee (.tuple args))) :=
  ⟨rfl, fun c => .call hc.kind (hc.part c) (fun e he => (ha e he).kind)
    fun e he => (ha e he).part c⟩

/-- An array is an expression. -/
theorem isExpression_array {l : Option Location} {es : List Tree}
    (h : ∀ e ∈ es, IsExpression e) : IsExpression (.node l (.array (.tuple es))) :=
  ⟨rfl, fun c => .array (fun e he => (h e he).kind) fun e he => (h e he).part c⟩

/-- A literal is an expression. -/
theorem isExpression_literal {l : Option Location} {value : Tree} (plain : value.isPlain = true) :
    IsExpression (.node l (.literal value)) :=
  ⟨rfl, fun _ => .literal plain⟩

/-- A name is an expression. -/
theorem isExpression_name {t : Tree} (h : IsName t) : IsExpression t := by
  obtain ⟨l, spelled⟩ := h
  exact ⟨rfl, fun _ => .identifier spelled⟩

/-! ## Productions -/

/-- A production whose rule makes what its phrase stands for. -/
def ProductionSound (p : Production) : Prop :=
  ∀ file parts result, Fitting p.symbols parts → content file p.rule parts = .ok result →
    PhraseFits p.phrase result

variable {p q : Phrase} {symbols : List Symbol} {P Q : Tree → Prop}

/-- A phrase that is one of its parts. -/
theorem sound_keep {i : Nat} {X : Symbol} (here : symbols[i]? = some X)
    (sense : ∀ c, Fits X c → PhraseFits p c) : ProductionSound (derive p symbols (.keep i)) := by
  intro file parts result fitting made
  obtain ⟨part, found, fits⟩ := fitting.part i here
  change Except.ok ((parts[i]?.map (·.content)).getD _) = _ at made
  rw [found] at made
  cases made
  exact sense _ fits

/-- A phrase that is another one of the same sense. -/
theorem sound_isA (sense : PhraseFits q = PhraseFits p) : ProductionSound (isA p q) :=
  sound_keep rfl fun _ fits => sense ▸ fits

/-- A phrase that is a tree made from its parts. -/
theorem sound_make {name : Text} {shape : Parts → Shape Tree} (sense : PhraseFits p = One P)
    (made : ∀ l ps, Fitting symbols ps → P (.node l (shape ps))) :
    ProductionSound (derive p symbols (.make name shape)) := by
  intro file parts result fitting done
  change (if file = [] then _ else _) = _ at done
  split at done
  · cases done
  · cases done
    rw [derive, sense]
    exact made _ parts fitting

/-- A phrase that is a row made from its parts. -/
theorem sound_gather {trees : Parts → List Tree} (sense : PhraseFits p = Row P)
    (made : ∀ ps, Fitting symbols ps → trees ps ≠ [] ∧ ∀ t ∈ trees ps, P t) :
    ProductionSound (derive p symbols (.gather trees)) := by
  intro file parts result fitting done
  cases done
  rw [derive, sense]
  exact made parts fitting

/-- A phrase that is an expression which assigns to one of its parts. -/
theorem sound_checked {name : Text} {target : Nat} {role : Parts → Text}
    {shape : Parts → Shape Tree} (sense : PhraseFits p = One P)
    (made : ∀ l ps, Fitting symbols ps → (ps.tree target).isAssignable = true →
      P (.node l (shape ps))) :
    ProductionSound (derive p symbols (.makeChecked name target role shape)) := by
  intro file parts result fitting done
  rw [derive, Rule.makeChecked, content] at done
  split at done
  -- The rule fails unless its target can be assigned to.
  · cases done
  · rename_i result' built
    split at built
    · rename_i assigned
      cases built
      split at done
      · cases done
      · cases done
        rw [derive, sense]
        exact made _ parts fitting (isAssignable_of_isTarget assigned)
    · cases built

/-- A loop over a collection. -/
theorem sound_forEach {name : Text} {domain : Domain} (sense : PhraseFits p = One IsStatement)
    (parts : ∀ ps, Fitting symbols ps →
      IsBinding (ps.tree 2) ∧ IsExpression (ps.tree 4) ∧ IsStatement (ps.tree 6)) :
    ProductionSound (derive p symbols (.makeForEach name domain)) := by
  intro file ps result fitting done
  rw [derive, Rule.makeForEach, content] at done
  split at done
  -- The rule fails unless its target is declared or can be assigned to.
  · cases done
  · rename_i result' built
    dsimp only at built
    split at built
    · rename_i target
      cases built
      split at done
      · cases done
      · cases done
        obtain ⟨left, right, body⟩ := parts ps fitting
        rw [derive, sense]
        exact isStatement_forEach left target right body
    · cases built

/-- A row of something and more of it. -/
theorem row_cons {t : Tree} {ts : List Tree} (ht : P t) (hts : ∀ u ∈ ts, P u) :
    t :: ts ≠ [] ∧ ∀ u ∈ t :: ts, P u :=
  ⟨List.cons_ne_nil _ _, List.forall_mem_cons.mpr ⟨ht, hts⟩⟩

/-- A row of one. -/
theorem row_single {t : Tree} (ht : P t) : [t] ≠ [] ∧ ∀ u ∈ [t], P u :=
  row_cons ht fun _ h => by cases h

/-- A row and one more. -/
theorem row_append {t : Tree} {ts : List Tree} (hts : ∀ u ∈ ts, P u) (ht : P t) :
    ts ++ [t] ≠ [] ∧ ∀ u ∈ ts ++ [t], P u := by
  refine ⟨by simp, fun u hu => ?_⟩
  rcases List.mem_append.mp hu with hu | hu
  · exact hts u hu
  · rw [List.mem_singleton.mp hu]
    exact ht

/-- The empty row. -/
theorem row_empty : ∀ t ∈ ([] : List Tree), P t := fun _ h => by cases h

/-- Programs, functions and declarations are read as what they are. -/
theorem sound_structure : ∀ p ∈ structureProductions, ProductionSound p := by
  simp only [structureProductions, List.forall_mem_cons, List.not_mem_nil, false_implies,
    implies_true, and_true]
  -- In the order of the grammar, each production by the lemma for its rule.
  refine ⟨sound_keep rfl fun _ => id, ?_, ?_, ?_, ?_, ?_, ?_, ?_, ?_, ?_, ?_, ?_, ?_, ?_, ?_, ?_,
    ?_, ?_, ?_, ?_⟩
  · exact sound_make rfl fun l ps h => IsProgram.mk l (h.trees 0 rfl rfl).2
  · exact sound_make rfl fun l ps h => IsProgram.mk l row_empty
  · exact sound_gather rfl fun ps h => row_single (h.tree 0 rfl rfl)
  · exact sound_gather rfl fun ps h => row_append (h.trees 0 rfl rfl).2 (h.tree 1 rfl rfl)
  · exact sound_make rfl fun l ps h =>
      isStatement_function (h.name 1 rfl) (h.trees 3 rfl rfl).2 (h.tree 5 rfl rfl)
  · exact sound_make rfl fun l ps h =>
      isStatement_function (h.name 1 rfl) row_empty (h.tree 4 rfl rfl)
  · exact sound_gather rfl fun ps h => row_cons (h.name 0 rfl) (h.trees 1 rfl rfl).2
  · exact sound_gather rfl fun ps h => row_single (h.name 0 rfl)
  · exact sound_gather rfl fun ps h => row_single (h.name 1 rfl)
  · exact sound_gather rfl fun ps h => row_append (h.trees 0 rfl rfl).2 (h.name 2 rfl)
  · exact sound_make rfl fun l ps h => IsBlock.mk l (h.trees 1 rfl rfl).2
  · exact sound_make rfl fun l ps h => IsBlock.mk l row_empty
  · exact sound_make rfl fun l ps h => ⟨rfl, wellFormed_declared (h.trees 1 rfl rfl)⟩
  · exact sound_gather rfl fun ps h => row_cons (h.tree 0 rfl rfl) (h.trees 1 rfl rfl).2
  · exact sound_gather rfl fun ps h => row_single (h.tree 0 rfl rfl)
  · exact sound_gather rfl fun ps h => row_single (h.tree 1 rfl rfl)
  · exact sound_gather rfl fun ps h => row_append (h.trees 0 rfl rfl).2 (h.tree 2 rfl rfl)
  · exact sound_make rfl fun l ps h =>
      isDeclarator (h.name 0 rfl) (IsExpression.optional (h.tree 2 rfl rfl))
  · exact sound_make rfl fun l ps h => isDeclarator (h.name 0 rfl) optional_absent

/-- Statements are read as statements. -/
theorem sound_statements : ∀ p ∈ statementProductions, ProductionSound p := by
  simp only [statementProductions, List.forall_mem_cons, List.not_mem_nil, false_implies,
    implies_true, and_true]
  refine ⟨sound_isA rfl, sound_isA rfl, ?_, sound_isA rfl, sound_isA rfl, sound_isA rfl,
    sound_isA rfl, sound_isA rfl, sound_isA rfl, sound_isA rfl, sound_isA rfl, sound_isA rfl,
    sound_isA rfl, sound_isA rfl, sound_isA rfl⟩
  refine sound_keep rfl fun c fits => ?_
  cases c with
  | tree t => exact isBlock_statement fits
  | _ => cases fits

/-- Conditions and loops are read as statements. -/
theorem sound_control : ∀ p ∈ controlProductions, ProductionSound p := by
  simp only [controlProductions, List.forall_mem_cons, List.not_mem_nil, false_implies,
    implies_true, and_true]
  -- In the order of the grammar, each production by the lemma for its rule.
  refine ⟨?_, ?_, ?_, ?_, ?_, ?_, ?_, ?_, ?_, ?_, ?_, ?_, ?_, ?_, ?_, ?_, ?_, ?_⟩
  · exact sound_make rfl fun l ps h =>
      isStatement_if (h.tree 2 rfl rfl) (h.tree 4 rfl rfl) fun _ => h.tree 6 rfl rfl
  · exact sound_make rfl fun l ps h =>
      isStatement_if (h.tree 2 rfl rfl) (h.tree 4 rfl rfl) optional_absent
  · exact sound_make rfl fun l ps h =>
      isStatement_for (fun _ => h.tree 2 rfl rfl) (fun _ => h.tree 4 rfl rfl)
        (fun _ => h.tree 6 rfl rfl) (h.tree 8 rfl rfl)
  · exact sound_make rfl fun l ps h =>
      isStatement_for (fun _ => h.tree 2 rfl rfl) (fun _ => h.tree 4 rfl rfl) optional_absent
        (h.tree 7 rfl rfl)
  · exact sound_make rfl fun l ps h =>
      isStatement_for (fun _ => h.tree 2 rfl rfl) optional_absent (fun _ => h.tree 5 rfl rfl)
        (h.tree 7 rfl rfl)
  · exact sound_make rfl fun l ps h =>
      isStatement_for (fun _ => h.tree 2 rfl rfl) optional_absent optional_absent
        (h.tree 6 rfl rfl)
  · exact sound_make rfl fun l ps h =>
      isStatement_for optional_absent (fun _ => h.tree 3 rfl rfl) (fun _ => h.tree 5 rfl rfl)
        (h.tree 7 rfl rfl)
  · exact sound_make rfl fun l ps h =>
      isStatement_for optional_absent (fun _ => h.tree 3 rfl rfl) optional_absent
        (h.tree 6 rfl rfl)
  · exact sound_make rfl fun l ps h =>
      isStatement_for optional_absent optional_absent (fun _ => h.tree 4 rfl rfl)
        (h.tree 6 rfl rfl)
  · exact sound_make rfl fun l ps h =>
      isStatement_for optional_absent optional_absent optional_absent (h.tree 5 rfl rfl)
  · exact sound_make rfl fun l ps h => ⟨.inl rfl, wellFormed_declared (h.trees 1 rfl rfl)⟩
  · refine sound_keep rfl fun c fits => ?_
    cases c with
    | tree t => exact ⟨.inr fits.kind, fits.part⟩
    | _ => cases fits
  · exact sound_forEach rfl fun ps h => ⟨h.tree 2 rfl rfl, h.tree 4 rfl rfl, h.tree 6 rfl rfl⟩
  · exact sound_forEach rfl fun ps h => ⟨h.tree 2 rfl rfl, h.tree 4 rfl rfl, h.tree 6 rfl rfl⟩
  · exact sound_make rfl fun l ps h => IsBinding.declared l _ (h.name 1 rfl)
  · refine sound_keep rfl fun c fits => ?_
    cases c with
    | tree t => exact IsBinding.expression fits
    | _ => cases fits
  · refine sound_make rfl fun l ps h => ?_
    have test : IsExpression (ps.tree 2) := h.tree 2 rfl rfl
    have body : IsStatement (ps.tree 4) := h.tree 4 rfl rfl
    exact ⟨rfl, fun c => .whileStatement test.kind (test.part c) body.kind (body.part _)⟩
  · refine sound_make rfl fun l ps h => ?_
    have body : IsStatement (ps.tree 1) := h.tree 1 rfl rfl
    have test : IsExpression (ps.tree 4) := h.tree 4 rfl rfl
    exact ⟨rfl, fun c => .doWhileStatement test.kind (test.part c) body.kind (body.part _)⟩

/-- Simple statements are read as statements. -/
theorem sound_simple : ∀ p ∈ simpleProductions, ProductionSound p := by
  simp only [simpleProductions, List.forall_mem_cons, List.not_mem_nil, false_implies,
    implies_true, and_true]
  -- In the order of the grammar, each production by the lemma for its rule.
  refine ⟨?_, ?_, ?_, ?_, ?_, ?_, ?_, ?_, ?_, sound_isA rfl, ?_, sound_isA rfl, ?_, ?_, ?_⟩
  · exact sound_make rfl fun l ps h => ⟨rfl, fun c => .emptyStatement⟩
  · exact sound_make rfl fun l ps h => isStatement_return fun _ => h.tree 1 rfl rfl
  · exact sound_make rfl fun l ps h => isStatement_return optional_absent
  · exact sound_make rfl fun l ps h => isStatement_jump _ (h.name 1 rfl)
  · exact sound_make rfl fun l ps h => isStatement_bareJump _
  · exact sound_make rfl fun l ps h => isStatement_jump _ (h.name 1 rfl)
  · exact sound_make rfl fun l ps h => isStatement_bareJump _
  · exact sound_make rfl fun l ps h => isStatement_labeled (h.name 0 rfl) (h.tree 2 rfl rfl)
  · refine sound_make rfl fun l ps h => ?_
    have e : IsExpression (ps.tree 0) := h.tree 0 rfl rfl
    exact ⟨rfl, fun c => .expressionStatement e.kind (e.part c)⟩
  · exact sound_make rfl fun l ps h =>
      isExpression_sequence (h.tree 0 rfl rfl) (h.trees 1 rfl rfl).2
  · exact sound_checked rfl fun l ps h target =>
      isExpression_assignment (h.sign 1 rfl rfl) target (h.tree 0 rfl rfl) (h.tree 2 rfl rfl)
  · exact sound_gather rfl fun ps h => row_single (h.tree 1 rfl rfl)
  · exact sound_gather rfl fun ps h => row_append (h.trees 0 rfl rfl).2 (h.tree 2 rfl rfl)

/-- Both productions of a level of binary operators. -/
theorem sound_operands {sign : Symbol} {name : Text} {shape : Parts → Shape Tree}
    (hp : PhraseFits p = One IsExpression) (hq : PhraseFits q = One IsExpression)
    (made : ∀ l ps, Fitting [.phrase p, sign, .phrase q] ps → IsExpression (ps.tree 0) →
      IsExpression (ps.tree 2) → IsExpression (.node l (shape ps))) :
    ∀ r ∈ operands p q sign (.make name shape), ProductionSound r := by
  simp only [operands, List.forall_mem_cons, List.not_mem_nil, false_implies, implies_true,
    and_true]
  exact ⟨sound_isA (hq.trans hp.symm),
    sound_make hp fun l ps h => made l ps h (h.tree 0 rfl hp) (h.tree 2 rfl hq)⟩

/-- Binary operations are read as expressions. -/
theorem sound_binary : ∀ p ∈ binaryProductions, ProductionSound p := by
  simp only [binaryProductions, List.forall_mem_append, and_assoc]
  refine ⟨?_, ?_, ?_, ?_, ?_, ?_, ?_, ?_, ?_, ?_⟩
  · exact sound_operands rfl rfl fun l ps h => isExpression_logical (by decide)
  · exact sound_operands rfl rfl fun l ps h => isExpression_logical (by decide)
  · exact sound_operands rfl rfl fun l ps h => isExpression_binary (by decide)
  · exact sound_operands rfl rfl fun l ps h => isExpression_binary (by decide)
  · exact sound_operands rfl rfl fun l ps h => isExpression_binary (by decide)
  · exact sound_operands rfl rfl fun l ps h => isExpression_binary (h.sign 1 rfl rfl)
  · exact sound_operands rfl rfl fun l ps h => isExpression_binary (h.sign 1 rfl rfl)
  · exact sound_operands rfl rfl fun l ps h => isExpression_binary (h.sign 1 rfl rfl)
  · exact sound_operands rfl rfl fun l ps h => isExpression_binary (h.sign 1 rfl rfl)
  · exact sound_operands rfl rfl fun l ps h => isExpression_binary (h.sign 1 rfl rfl)

/-- Expressions are read as expressions. -/
theorem sound_expressions : ∀ p ∈ expressionProductions, ProductionSound p := by
  simp only [expressionProductions, List.forall_mem_cons, List.not_mem_nil, false_implies,
    implies_true, and_true]
  -- In the order of the grammar, each production by the lemma for its rule.
  refine ⟨sound_isA rfl, ?_, sound_isA rfl, sound_isA rfl, ?_, ?_, ?_, ?_, ?_, sound_isA rfl, ?_,
    sound_isA rfl, ?_, ?_, sound_isA rfl, ?_, sound_isA rfl, ?_, ?_, ?_, ?_, ?_, ?_⟩
  · exact sound_make rfl fun l ps h =>
      isExpression_sequence (h.tree 0 rfl rfl) (h.trees 1 rfl rfl).2
  · exact sound_checked rfl fun l ps h target =>
      isExpression_assignment (h.sign 1 rfl rfl) target (h.tree 0 rfl rfl) (h.tree 2 rfl rfl)
  · exact sound_make rfl fun l ps h =>
      isExpression_function (fun _ => h.name 1 rfl) (h.trees 3 rfl rfl).2 (h.tree 5 rfl rfl)
  · exact sound_make rfl fun l ps h =>
      isExpression_function (fun _ => h.name 1 rfl) row_empty (h.tree 4 rfl rfl)
  · exact sound_make rfl fun l ps h =>
      isExpression_function optional_absent (h.trees 2 rfl rfl).2 (h.tree 4 rfl rfl)
  · exact sound_make rfl fun l ps h =>
      isExpression_function optional_absent row_empty (h.tree 3 rfl rfl)
  · exact sound_make rfl fun l ps h =>
      isExpression_conditional (h.tree 0 rfl rfl) (h.tree 2 rfl rfl) (h.tree 4 rfl rfl)
  · exact sound_make rfl fun l ps h =>
      isExpression_unary (h.sign 0 rfl rfl) (h.tree 1 rfl rfl)
  · exact sound_checked rfl fun l ps h target =>
      isExpression_update (h.sign 0 rfl rfl) target (h.tree 1 rfl rfl)
  · exact sound_checked rfl fun l ps h target =>
      isExpression_update (h.sign 1 rfl rfl) target (h.tree 0 rfl rfl)
  · refine sound_make rfl fun l ps h => ?_
    have object : IsExpression (ps.tree 0) := h.tree 0 rfl rfl
    exact ⟨rfl, fun c => .member object.kind (object.part c) (h.name 2 rfl)⟩
  · refine sound_make rfl fun l ps h => ?_
    have object : IsExpression (ps.tree 0) := h.tree 0 rfl rfl
    have key : IsExpression (ps.tree 2) := h.tree 2 rfl rfl
    exact ⟨rfl, fun c => .computedMember object.kind (object.part c) key.kind (key.part c)⟩
  · exact sound_make rfl fun l ps h =>
      isExpression_call (h.tree 0 rfl rfl) (h.trees 2 rfl rfl).2
  · exact sound_make rfl fun l ps h => isExpression_call (h.tree 0 rfl rfl) row_empty
  · exact sound_gather rfl fun ps h => row_cons (h.tree 0 rfl rfl) (h.trees 1 rfl rfl).2
  · exact sound_gather rfl fun ps h => row_single (h.tree 0 rfl rfl)

/-- Primary expressions are read as expressions. -/
theorem sound_primary : ∀ p ∈ primaryProductions, ProductionSound p := by
  simp only [primaryProductions, List.forall_mem_cons, List.not_mem_nil, false_implies,
    implies_true, and_true]
  -- In the order of the grammar, each production by the lemma for its rule.
  refine ⟨?_, ?_, ?_, ?_, ?_, ?_, ?_, ?_, sound_keep rfl fun _ => id⟩
  · intro file parts result fitting done
    cases done
    exact isExpression_name (fitting.name 0 rfl)
  · intro file parts result fitting done
    change (numberContent parts).mapError ofRefusal = _ at done
    unfold numberContent at done
    split at done
    · cases done
      exact isExpression_literal rfl
    · cases done
  · intro file parts result fitting done
    cases done
    exact isExpression_literal rfl
  · exact sound_make rfl fun l ps h => isExpression_literal rfl
  · exact sound_make rfl fun l ps h => isExpression_literal rfl
  · exact sound_make rfl fun l ps h => isExpression_literal rfl
  · exact sound_make rfl fun l ps h => isExpression_array (h.trees 1 rfl rfl).2
  · exact sound_make rfl fun l ps h => isExpression_array row_empty

/-- A phrase that is one of several signs of a table. -/
theorem sound_oneOf {signs : List Terminal} {table : List Text} (sense : PhraseFits p = Sign table)
    (known : ∀ s ∈ signs, s ∉ [.name, .number, .string] ∧ s.spelling ∈ table) :
    ∀ r ∈ oneOf p signs, ProductionSound r := by
  intro r hr
  obtain ⟨s, hs, rfl⟩ := List.mem_map.mp hr
  refine sound_keep (X := .terminal s) rfl fun c fits => ?_
  rw [sense]
  cases c with
  | token text =>
    obtain ⟨fixed, mem⟩ := known s hs
    rw [Sign, spelling_of_spells fixed fits]
    exact mem
  | _ => cases fits

/-- Operators are read as operators. -/
theorem sound_signs : ∀ p ∈ signProductions, ProductionSound p := by
  simp only [signProductions, List.forall_mem_append, and_assoc]
  refine ⟨?_, ?_, ?_, ?_, ?_, ?_, ?_, ?_⟩ <;> exact sound_oneOf rfl (by decide)

/-- Every production makes what fits its phrase. -/
theorem sound_productions : ∀ p ∈ productions, ProductionSound p := by
  simp only [productions, List.forall_mem_append, and_assoc]
  exact ⟨sound_structure, sound_statements, sound_control, sound_simple, sound_binary,
    sound_expressions, sound_primary, sound_signs⟩

/-! ## Programs -/

/-- The reader keeps that contents fit their symbols. -/
theorem keptByReading_fits (source : Text) : KeptByReading source Fits where
  token _ _ _ _ _ matched := spells_match matched
  phrase p hp file parts result fitting made := sound_productions p hp file parts result fitting made

/-- A text that is read as a program gives a row of well-formed statements, jumps aside. -/
theorem isProgram_of_parse {file source : Text} {t : Tree} (h : parse file source = .ok t) :
    IsProgram t := by
  obtain ⟨c, fits, same⟩ := (keptByReading_fits source).of_parse h
  cases c with
  | tree u =>
    rw [same u rfl]
    exact fits
  | _ => cases fits

/-- A text that is read as a program gives a well-formed tree, jumps aside. -/
theorem parse_wellFormed {file source : Text} {t : Tree} (h : parse file source = .ok t)
    (c : Targets) : WellFormed false c t := by
  obtain ⟨l, statements⟩ := isProgram_of_parse h
  exact .program (fun s hs => (statements s hs).kind) fun s hs => (statements s hs).part c

end TailLoop.Source
