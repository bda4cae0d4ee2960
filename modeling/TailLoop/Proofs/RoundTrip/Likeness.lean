import TailLoop.Proofs.Printing
import TailLoop.Proofs.Sameness

/-!
# Trees that are printed alike

Two trees are printed alike if printing makes the same of them in every place (`PrintsAs`): the same
is written for them at every level, and what is asked about them to place them on lines has the same
answers. Nodes of one kind are printed alike if their fields are, which is one lemma for each form.

A change of trees that keeps texts, goes through rows and makes nodes that are printed like those
with changed fields (`Reshapes`) therefore leaves what is printed for well-formed trees as it was
(`Reshapes.printsAs`).
-/

namespace TailLoop

namespace Print

open Validity

/-- Printing makes the same of two trees, wherever they stand. -/
structure PrintsAs (t u : Tree) : Prop where
  kind : t.kind? = u.kind?
  isNull : t.isNull = u.isNull
  visit : ∀ indent level, visit indent level t = visit indent level u
  nameOf : t.hasKind .identifier = true → nameOf t = nameOf u
  isNumber : isNumber t = isNumber u
  endsOpen : endsOpen t = endsOpen u
  declaration : ∀ indent level, declaration indent level t = declaration indent level u
  declarator : ∀ {indent level ts us},
    declaratorItems indent level ts = declaratorItems indent level us →
      declaratorItems indent level (t :: ts) = declaratorItems indent level (u :: us)
  block : t.hasKind .blockStatement = true → ∀ indent level,
    block indent level t = block indent level u

/-- Printing makes the same of two rows. -/
structure RowsAs (t u : Tree) : Prop where
  operands : ∀ indent level, operands indent level t = operands indent level u
  lines : ∀ indent level, lines indent level t = lines indent level u
  declarators : ∀ indent level, declarators indent level t = declarators indent level u

section Likeness

variable {t t' u u' v v' w w' r r' : Tree} {ts us : List Tree} {l l' : Option Location}
  {s s' : Shape Tree} {indent : Text} {level : Nat}

/-- Declarators that come first are written as before, whatever comes after them. -/
theorem declaratorItems_tail
    (same : declaratorItems indent level ts = declaratorItems indent level us) :
    declaratorItems indent level (t :: ts) = declaratorItems indent level (t :: us) := by
  cases t with
  | node l s =>
    cases s with
    | variableDeclarator => simp only [declaratorItems, same]
    | _ => rfl
  | _ => rfl

namespace PrintsAs

/-- A tree is printed like itself. -/
theorem refl (t : Tree) : PrintsAs t t where
  kind := rfl
  isNull := rfl
  visit _ _ := rfl
  nameOf _ := rfl
  isNumber := rfl
  endsOpen := rfl
  declaration _ _ := rfl
  declarator same := declaratorItems_tail same
  block _ _ _ := rfl

/-- Trees that are printed alike are of the same kinds. -/
theorem hasKind (h : PrintsAs t u) (k : Kind) : t.hasKind k = u.hasKind k := by
  rw [Tree.hasKind, Tree.hasKind, h.kind]

/-- Trees that are printed like the same one are printed alike. -/
theorem trans (h : PrintsAs t u) (h' : PrintsAs u v) : PrintsAs t v where
  kind := h.kind.trans h'.kind
  isNull := h.isNull.trans h'.isNull
  visit indent level := (h.visit indent level).trans (h'.visit indent level)
  nameOf name := (h.nameOf name).trans (h'.nameOf (h.hasKind _ ▸ name))
  isNumber := h.isNumber.trans h'.isNumber
  endsOpen := h.endsOpen.trans h'.endsOpen
  declaration indent level := (h.declaration indent level).trans (h'.declaration indent level)
  declarator same := (h.declarator same).trans (h'.declarator rfl)
  block kind indent level :=
    (h.block kind indent level).trans (h'.block (h.hasKind _ ▸ kind) indent level)

end PrintsAs

/-- A node that is no literal is no number. -/
theorem isNumber_of_kind (other : s.kind ≠ .literal) : isNumber (.node l s) = false := by
  cases s with
  | literal => exact absurd rfl other
  | _ => rfl

/-- Only a declaration is printed as one. -/
theorem declaration_of_kind (other : s.kind ≠ .variableDeclaration) :
    declaration indent level (.node l s) = .error (.notPrintable s.kind.className) := by
  cases s with
  | variableDeclaration => exact absurd rfl other
  | _ => rfl

/-- Only a declarator is printed as one. -/
theorem declaratorItems_of_kind (other : s.kind ≠ .variableDeclarator) :
    declaratorItems indent level (.node l s :: ts) = .error (.malformed .noField) := by
  cases s with
  | variableDeclarator => exact absurd rfl other
  | _ => rfl

/-- The kinds that printing looks into for more than what is written for them. -/
def isInspected : Kind → Bool
  | .identifier | .literal | .variableDeclaration | .variableDeclarator | .blockStatement => true
  | _ => false

/-- Nodes of one kind that is not looked into are printed alike if the same is written for them. -/
theorem PrintsAs.of_visit (kind : s.kind = s'.kind) (other : isInspected s.kind = false)
    (ends : Print.endsOpen (.node l s) = Print.endsOpen (.node l' s'))
    (written : ∀ indent level,
      Print.visit indent level (.node l s) = Print.visit indent level (.node l' s')) :
    PrintsAs (.node l s) (.node l' s') := by
  have others {k : Kind} (inspected : isInspected k = true) : s.kind ≠ k := by
    rintro rfl
    rw [inspected] at other
    cases other
  have others' {k : Kind} (inspected : isInspected k = true) : s'.kind ≠ k :=
    kind ▸ others inspected
  have absent {k : Kind} (inspected : isInspected k = true) :
      (Tree.node l s).hasKind k ≠ true := fun h =>
    others inspected (Option.some.inj (beq_iff_eq.mp h))
  exact {
    kind := congrArg some kind
    isNull := rfl
    visit := written
    nameOf := fun h => absurd h (absent rfl)
    isNumber := by rw [isNumber_of_kind (others rfl), isNumber_of_kind (others' rfl)]
    endsOpen := ends
    declaration := fun _ _ => by
      rw [declaration_of_kind (others rfl), declaration_of_kind (others' rfl), kind]
    declarator := fun _ => by
      rw [declaratorItems_of_kind (others rfl), declaratorItems_of_kind (others' rfl)]
    block := fun h => absurd h (absent rfl) }

/-! ## Rows -/

/-- The expressions of rows are written alike, one by one. -/
theorem operandItems_congr (h : List.Forall₂ PrintsAs ts us) :
    operandItems indent level ts = operandItems indent level us := by
  induction h with
  | nil => rfl
  | cons first _ ih => simp only [operandItems, first.visit, ih]

/-- The statements of rows are written alike, one by one. -/
theorem lineItems_congr (h : List.Forall₂ PrintsAs ts us) :
    lineItems indent level ts = lineItems indent level us := by
  induction h with
  | nil => rfl
  | cons first _ ih => simp only [lineItems, first.visit, ih]

/-- The declarators of rows are written alike, one by one. -/
theorem declaratorItems_congr (h : List.Forall₂ PrintsAs ts us) :
    declaratorItems indent level ts = declaratorItems indent level us := by
  induction h with
  | nil => rfl
  | cons first _ ih => exact first.declarator ih

/-- Rows of trees that are printed alike. -/
theorem rowsAs_tuple (h : List.Forall₂ PrintsAs ts us) : RowsAs (.tuple ts) (.tuple us) where
  operands _ _ := by rw [operands, operands, operandItems_congr h]
  lines _ _ := by rw [lines, lines, lineItems_congr h]
  declarators _ _ := by rw [declarators, declarators, declaratorItems_congr h]

/-! ## Expressions -/

namespace PrintsAs

/-- Where a node comes from is not printed. -/
theorem located : PrintsAs (.node l s) (.node l' s) where
  kind := rfl
  isNull := rfl
  visit indent level := by
    cases s with
    | function form => cases form <;> rfl
    | forEach domain => cases domain <;> rfl
    | jump kind => cases kind <;> rfl
    | _ => rfl
  nameOf name := by
    cases s with
    | identifier => rfl
    | function form => cases form <;> cases name
    | forEach domain => cases domain <;> cases name
    | jump kind => cases kind <;> cases name
    | _ => cases name
  isNumber := by
    cases s with
    | literal value => cases value <;> rfl
    | _ => rfl
  endsOpen := by
    cases s with
    | ifStatement test consequent alternate => cases alternate <;> rfl
    | _ => rfl
  declaration indent level := by cases s <;> rfl
  declarator same := by cases s <;> simp only [declaratorItems, same]
  block _ indent level := by cases s <;> rfl

/-- Arrays. -/
theorem array (elements : RowsAs r r') :
    PrintsAs (.node l (.array r)) (.node l' (.array r')) :=
  .of_visit rfl rfl rfl fun _ _ => by simp only [Print.visit, elements.operands]

/-- Calls. -/
theorem call (callee : PrintsAs t t') (arguments : RowsAs r r') :
    PrintsAs (.node l (.call t r)) (.node l' (.call t' r')) :=
  .of_visit rfl rfl rfl fun _ _ => by
    simp only [Print.visit, callee.visit, arguments.operands]

/-- Members with a name. -/
theorem member (object : PrintsAs t t') (property : Print.nameOf u = Print.nameOf u') :
    PrintsAs (.node l (.member t u (.bool false))) (.node l' (.member t' u' (.bool false))) :=
  .of_visit rfl rfl rfl fun _ _ => by
    simp only [Print.visit, object.visit, object.isNumber, Tree.truthy, Bool.false_eq_true,
      if_false, property]

/-- Members with a computed key. -/
theorem computedMember (object : PrintsAs t t') (property : PrintsAs u u') :
    PrintsAs (.node l (.member t u (.bool true))) (.node l' (.member t' u' (.bool true))) :=
  .of_visit rfl rfl rfl fun _ _ => by
    simp only [Print.visit, object.visit, object.isNumber, Tree.truthy, if_true, property.visit]

/-- Conditionals. -/
theorem conditional (test : PrintsAs t t') (consequent : PrintsAs u u')
    (alternate : PrintsAs v v') :
    PrintsAs (.node l (.conditional t u v)) (.node l' (.conditional t' u' v')) :=
  .of_visit rfl rfl rfl fun _ _ => by
    simp only [Print.visit, test.visit, consequent.visit, alternate.visit]

/-- Assignments. -/
theorem assignment (operator : r = r') (left : PrintsAs t t') (right : PrintsAs u u') :
    PrintsAs (.node l (.assignment r t u)) (.node l' (.assignment r' t' u')) :=
  .of_visit rfl rfl rfl fun _ _ => by
    simp only [Print.visit, operator, left.visit, right.visit]

/-- Sequences. -/
theorem sequence (expressions : RowsAs r r') :
    PrintsAs (.node l (.sequence r)) (.node l' (.sequence r')) :=
  .of_visit rfl rfl rfl fun _ _ => by simp only [Print.visit, expressions.operands]

/-- Binary operations. -/
theorem binary (operator : r = r') (left : PrintsAs t t') (right : PrintsAs u u') :
    PrintsAs (.node l (.binary r t u)) (.node l' (.binary r' t' u')) :=
  .of_visit rfl rfl rfl fun _ _ => by
    simp only [Print.visit, operator, left.visit, right.visit]

/-- Logical operations. -/
theorem logical (operator : r = r') (left : PrintsAs t t') (right : PrintsAs u u') :
    PrintsAs (.node l (.logical r t u)) (.node l' (.logical r' t' u')) :=
  .of_visit rfl rfl rfl fun _ _ => by
    simp only [Print.visit, operator, left.visit, right.visit]

/-- Unary operations. -/
theorem unary (operator : r = r') (argument : PrintsAs t t') :
    PrintsAs (.node l (.unary r t u)) (.node l' (.unary r' t' u')) :=
  .of_visit rfl rfl rfl fun _ _ => by simp only [Print.visit, operator, argument.visit]

/-- Updates. -/
theorem update (operator : r = r') (argument : PrintsAs t t') (isPrefix : u = u') :
    PrintsAs (.node l (.update r t u)) (.node l' (.update r' t' u')) :=
  .of_visit rfl rfl rfl fun _ _ => by
    simp only [Print.visit, operator, argument.visit, isPrefix]

/-! ## Statements -/

/-- Names that are absent or printed alike are written alike after a blank. -/
theorem spacedName (h : PrintsAs t t')
    (name : t.isNull = false → Print.nameOf t = Print.nameOf t') :
    Print.spacedName t = Print.spacedName t' := by
  have same := h.isNull
  cases t with
  | null =>
    cases t' with
    | null => rfl
    | _ => cases same
  | _ =>
    cases t' with
    | null => cases same
    | _ => simp only [Print.spacedName, name rfl]

/-- Functions. -/
theorem function {form : FunctionForm} (name : Print.spacedName t = Print.spacedName t')
    (named : form = .declaration → Print.nameOf t = Print.nameOf t')
    (params : parameterList r = parameterList r')
    (body : ∀ indent level, Print.block indent level u = Print.block indent level u') :
    PrintsAs (.node l (.function form t r u)) (.node l' (.function form t' r' u')) := by
  cases form with
  | expression =>
    exact .of_visit rfl rfl rfl fun _ _ => by simp only [Print.visit, name, params, body]
  | declaration =>
    exact .of_visit rfl rfl rfl fun _ _ => by simp only [Print.visit, named, params, body]

/-- Blocks. -/
theorem blockStatement (body : RowsAs r r') :
    PrintsAs (.node l (.block r)) (.node l' (.block r')) where
  kind := rfl
  isNull := rfl
  visit _ _ := by simp only [Print.visit, body.lines]
  nameOf name := by cases name
  isNumber := rfl
  endsOpen := rfl
  declaration _ _ := rfl
  declarator _ := rfl
  block _ _ _ := by simp only [Print.block, body.lines]

/-- Declarations. -/
theorem variableDeclaration (declarations : RowsAs r r') (kind : t = t') :
    PrintsAs (.node l (.variableDeclaration r t)) (.node l' (.variableDeclaration r' t')) where
  kind := rfl
  isNull := rfl
  visit _ _ := by simp only [Print.visit, declarations.declarators, kind]
  nameOf name := by cases name
  isNumber := rfl
  endsOpen := rfl
  declaration _ _ := by simp only [Print.declaration, declarations.declarators, kind]
  declarator _ := rfl
  block block := by cases block

/-- Declarators. -/
theorem variableDeclarator (id : Print.nameOf t = Print.nameOf t') (init : PrintsAs u u') :
    PrintsAs (.node l (.variableDeclarator t u)) (.node l' (.variableDeclarator t' u')) where
  kind := rfl
  isNull := rfl
  visit _ _ := rfl
  nameOf name := by cases name
  isNumber := rfl
  endsOpen := rfl
  declaration _ _ := rfl
  declarator same := by simp only [declaratorItems, id, init.isNull, init.visit, same]
  block block := by cases block

/-- Returns. -/
theorem returnStatement (argument : PrintsAs t t') :
    PrintsAs (.node l (.returnStatement t)) (.node l' (.returnStatement t')) :=
  .of_visit rfl rfl rfl fun _ _ => by
    simp only [Print.visit, argument.isNull, argument.visit]

/-- Expressions as statements. -/
theorem expressionStatement (expression : PrintsAs t t') :
    PrintsAs (.node l (.expressionStatement t)) (.node l' (.expressionStatement t')) :=
  .of_visit rfl rfl rfl fun _ _ => by simp only [Print.visit, expression.visit]

/-- The bodies of compound statements are printed at the same level. -/
theorem bodyLevel (h : PrintsAs t t') : Print.bodyLevel level t = Print.bodyLevel level t' := by
  unfold Print.bodyLevel isBlock
  rw [h.hasKind]

/-- The bodies of compound statements are placed alike. -/
theorem place (h : PrintsAs t t') (x : Text) :
    Print.place indent level t x = Print.place indent level t' x := by
  unfold Print.place isBlock
  rw [h.hasKind]

/-- Conditions. -/
theorem ifStatement (test : PrintsAs t t') (consequent : PrintsAs u u')
    (alternate : PrintsAs v v') :
    PrintsAs (.node l (.ifStatement t u v)) (.node l' (.ifStatement t' u' v')) := by
  refine .of_visit rfl rfl ?_ fun _ _ => ?_
  · have same := alternate.isNull
    cases v with
    | null =>
      cases v' with
      | null => rfl
      | _ => cases same
    | _ =>
      cases v' with
      | null => cases same
      | _ => exact alternate.endsOpen
  · simp only [Print.visit, test.visit, consequent.visit, consequent.bodyLevel, consequent.place,
      consequent.endsOpen, isBlock, consequent.hasKind, alternate.isNull, alternate.hasKind,
      alternate.visit, alternate.bodyLevel, alternate.place]

/-- Loops with a head of three parts. -/
theorem forStatement (init : PrintsAs t t') (test : PrintsAs u u') (step : PrintsAs v v')
    (body : PrintsAs w w') :
    PrintsAs (.node l (.forStatement t u v w)) (.node l' (.forStatement t' u' v' w')) :=
  .of_visit rfl rfl body.endsOpen fun _ _ => by
    simp only [visit_forStatement, loopStart, loopPart, init.hasKind, init.declaration, init.isNull,
      init.visit, test.isNull, test.visit, step.isNull, step.visit, body.visit, body.bodyLevel,
      body.place]

/-- Loops over a collection. -/
theorem forEach {domain : Domain} (left : PrintsAs t t') (right : PrintsAs u u')
    (body : PrintsAs w w') :
    PrintsAs (.node l (.forEach domain t u w)) (.node l' (.forEach domain t' u' w')) := by
  cases domain <;>
  exact .of_visit rfl rfl body.endsOpen fun _ _ => by
    simp only [visit_forEach, loopTarget, left.hasKind, left.declaration, left.visit, right.visit,
      body.visit, body.bodyLevel, body.place]

/-- Loops with a test before the body. -/
theorem whileStatement (test : PrintsAs t t') (body : PrintsAs w w') :
    PrintsAs (.node l (.whileStatement t w)) (.node l' (.whileStatement t' w')) :=
  .of_visit rfl rfl body.endsOpen fun _ _ => by
    simp only [Print.visit, test.visit, body.visit, body.bodyLevel, body.place]

/-- Loops with a test after the body. -/
theorem doWhileStatement (body : PrintsAs w w') (test : PrintsAs t t') :
    PrintsAs (.node l (.doWhileStatement w t)) (.node l' (.doWhileStatement w' t')) :=
  .of_visit rfl rfl rfl fun _ _ => by
    simp only [Print.visit, test.visit, body.visit, body.bodyLevel, body.place, isBlock,
      body.hasKind]

/-- Jumps. -/
theorem jump {kind : JumpKind} (label : Print.spacedName t = Print.spacedName t') :
    PrintsAs (.node l (.jump kind t)) (.node l' (.jump kind t')) := by
  cases kind <;> exact .of_visit rfl rfl rfl fun _ _ => by simp only [Print.visit, label]

/-- Labeled statements. -/
theorem labeled (label : Print.nameOf t = Print.nameOf t') (body : PrintsAs w w') :
    PrintsAs (.node l (.labeled t w)) (.node l' (.labeled t' w')) :=
  .of_visit rfl rfl body.endsOpen fun _ _ => by simp only [Print.visit, label, body.visit]

end PrintsAs

end Likeness

/-! ## Changes that are not printed -/

/-- A change of trees that keeps plain values, goes through rows, and makes of a node something that
is printed like the node with changed fields. Of the fields, the first branch of a condition is
known to be printed like itself after the change. -/
structure Reshapes (f : Tree → Tree) : Prop where
  plain : ∀ {t : Tree}, t.isPlain = true → f t = t
  row : ∀ ts, f (.tuple ts) = .tuple (ts.map f)
  node : ∀ (l : Option Location) (s : Shape Tree),
    (∀ test yes no, s = .ifStatement test yes no → PrintsAs yes (f yes)) →
      PrintsAs (.node l (s.map f)) (f (.node l s))

namespace Reshapes

variable {f : Tree → Tree} {t : Tree} {ts : List Tree} {l : Option Location} {s : Shape Tree}

/-- A node whose fields are printed like themselves after the change, unless it is a condition. -/
theorem step (h : Reshapes f) (fields : PrintsAs (.node l s) (.node l (s.map f)))
    (other : (s.kind == .ifStatement) = false) : PrintsAs (.node l s) (f (.node l s)) := by
  refine fields.trans (h.node l s ?_)
  rintro _ _ _ rfl
  cases other

/-- A condition whose fields are. -/
theorem condition (h : Reshapes f) {test yes no : Tree} (first : PrintsAs test (f test))
    (second : PrintsAs yes (f yes)) (third : PrintsAs no (f no)) :
    PrintsAs (.node l (.ifStatement test yes no)) (f (.node l (.ifStatement test yes no))) := by
  refine (PrintsAs.ifStatement first second third).trans
    (h.node l (.ifStatement test yes no) fun _ _ _ same => ?_)
  cases same
  exact second

/-- Names are printed as before. -/
theorem name (h : Reshapes f) (name : IsName t) : PrintsAs t (f t) := by
  obtain ⟨l, _⟩ := name
  refine h.step ?_ rfl
  rw [Shape.map, h.plain rfl]
  exact .refl _

/-- The text of a name is written as before. -/
theorem nameOf (h : Reshapes f) (name : IsName t) : nameOf t = nameOf (f t) := by
  have same := h.name name
  obtain ⟨l, _⟩ := name
  exact same.nameOf rfl

/-- What is absent is printed as before. -/
theorem absent (h : Reshapes f) : PrintsAs .null (f .null) := by
  rw [h.plain rfl]
  exact .refl _

/-- What may be absent is printed as before. -/
theorem optional (h : Reshapes f) (present : t.isNull = false → PrintsAs t (f t)) :
    PrintsAs t (f t) := by
  cases t with
  | null => exact h.absent
  | _ => exact present rfl

/-- A name that may be absent is written as before. -/
theorem spacedName (h : Reshapes f) (name : t.isNull = false → IsName t) :
    spacedName t = spacedName (f t) :=
  (h.optional fun present => h.name (name present)).spacedName fun present =>
    h.nameOf (name present)

/-- Rows are printed as before. -/
theorem rows (h : Reshapes f) (parts : ∀ t ∈ ts, PrintsAs t (f t)) :
    RowsAs (.tuple ts) (f (.tuple ts)) := by
  rw [h.row]
  exact rowsAs_tuple (List.forall₂_map_right_iff.mpr (List.forall₂_same.mpr parts))

/-- Parameters are printed as before. -/
theorem parameters (h : Reshapes f) (names : ∀ p ∈ ts, IsName p) :
    parameterList (.tuple ts) = parameterList (f (.tuple ts)) := by
  have each : (ts.map f).mapM Print.nameOf = ts.mapM Print.nameOf := by
    induction ts with
    | nil => rfl
    | cons p ps ih =>
      rw [List.forall_mem_cons] at names
      rw [List.map_cons, List.mapM_cons, List.mapM_cons, ih names.2, h.nameOf names.1]
  rw [h.row, parameterList, parameterList]
  change (ts.mapM Print.nameOf >>= commaList) = ((ts.map f).mapM Print.nameOf >>= commaList)
  rw [each]

/-- Declared names are printed as before. -/
theorem declarator (h : Reshapes f) {id init : Tree} (name : IsName id)
    (value : PrintsAs init (f init)) :
    PrintsAs (.node l (.variableDeclarator id init)) (f (.node l (.variableDeclarator id init))) :=
  h.step (.variableDeclarator (h.nameOf name) value) rfl

/-- Declarations are printed as before. -/
theorem declaration (h : Reshapes f) (parts : ∀ d ∈ ts, PrintsAs d (f d)) {kind : Text} :
    PrintsAs (.node l (.variableDeclaration (.tuple ts) (.text kind)))
      (f (.node l (.variableDeclaration (.tuple ts) (.text kind)))) :=
  h.step (.variableDeclaration (h.rows parts) (h.plain rfl).symm) rfl

/-- Functions are printed as before. -/
theorem function (h : Reshapes f) {form : FunctionForm} {id : Tree} {ps : List Tree}
    {lb : Option Location} (named : form = .declaration → IsName id)
    (name : id.isNull = false → IsName id) (params : ∀ p ∈ ps, IsName p)
    (parts : ∀ s ∈ ts, PrintsAs s (f s)) :
    PrintsAs (.node l (.function form id (.tuple ps) (.node lb (.block (.tuple ts)))))
      (f (.node l (.function form id (.tuple ps) (.node lb (.block (.tuple ts)))))) := by
  have body : PrintsAs (.node lb (.block (.tuple ts))) (f (.node lb (.block (.tuple ts)))) :=
    h.step (.blockStatement (h.rows parts)) rfl
  exact h.step (.function (h.spacedName name) (fun declared => h.nameOf (named declared))
    (h.parameters params) (body.block rfl)) (by cases form <;> rfl)

/-- The change is not printed, in any well-formed tree. -/
theorem printsAs (h : Reshapes f) {checked : Bool} {c : Targets} (wf : WellFormed checked c t) :
    PrintsAs t (f t) := by
  -- By induction on the judgement: the fields are printed as before.
  induction wf with
  | program => exact h.step (.of_visit rfl rfl rfl fun _ _ => rfl) rfl
  | function named name params _ _ ih => exact h.function named name params ih
  | block _ _ ih => exact h.step (.blockStatement (h.rows ih)) rfl
  | returnStatement _ _ ih => exact h.step (.returnStatement (h.optional ih)) rfl
  | variableDeclaration _ _ _ ih => exact h.declaration ih
  | variableDeclarator name _ _ ih => exact h.declarator name (h.optional ih)
  | ifStatement _ _ _ _ _ _ ih ih₂ ih₃ => exact h.condition ih ih₂ (h.optional ih₃)
  | forStatement _ _ _ _ _ _ _ _ ih ih₂ ih₃ ih₄ =>
    exact h.step (.forStatement (h.optional ih) (h.optional ih₂) (h.optional ih₃) ih₄) rfl
  | @forEachDeclared c l domain _ _ _ _ _ name _ _ _ _ ih ih₂ =>
    refine h.step (.forEach (h.declaration ?_) ih ih₂) (by cases domain <;> rfl)
    exact List.forall_mem_singleton.mpr (h.declarator name h.absent)
  | @forEach c l domain _ _ _ _ _ _ _ _ _ ih ih₂ ih₃ =>
    exact h.step (.forEach ih ih₂ ih₃) (by cases domain <;> rfl)
  | whileStatement _ _ _ _ ih ih₂ => exact h.step (.whileStatement ih ih₂) rfl
  | doWhileStatement _ _ _ _ ih ih₂ => exact h.step (.doWhileStatement ih₂ ih) rfl
  | expressionStatement _ _ ih => exact h.step (.expressionStatement ih) rfl
  | emptyStatement => exact h.step .located rfl
  | @bareJump c l kind =>
    exact h.step (.jump (h.absent.spacedName fun present => by cases present))
      (by cases kind <;> rfl)
  | @jump c l kind ln name spelled =>
    exact h.step (.jump (h.spacedName fun _ => .mk _ spelled)) (by cases kind <;> rfl)
  | labeled spelled _ _ _ ih => exact h.step (.labeled (h.nameOf (.mk _ spelled)) ih) rfl
  | identifier spelled => exact h.name (.mk _ spelled)
  | literal plain =>
    refine h.step ?_ rfl
    rw [Shape.map, h.plain plain]
    exact .refl _
  | array _ _ ih => exact h.step (.array (h.rows ih)) rfl
  | call _ _ _ _ ih ih₂ => exact h.step (.call ih (h.rows ih₂)) rfl
  | member _ _ name ih =>
    refine h.step ?_ rfl
    rw [Shape.map, h.plain (t := .bool false) rfl]
    exact .member ih (h.nameOf name)
  | computedMember _ _ _ _ ih ih₂ =>
    refine h.step ?_ rfl
    rw [Shape.map, h.plain (t := .bool true) rfl]
    exact .computedMember ih ih₂
  | conditional _ _ _ _ _ _ ih ih₂ ih₃ => exact h.step (.conditional ih ih₂ ih₃) rfl
  | assignment _ _ _ _ _ ih ih₂ => exact h.step (.assignment (h.plain rfl).symm ih ih₂) rfl
  | sequence _ _ _ ih => exact h.step (.sequence (h.rows ih)) rfl
  | binary _ _ _ _ _ ih ih₂ => exact h.step (.binary (h.plain rfl).symm ih ih₂) rfl
  | logical _ _ _ _ _ ih ih₂ => exact h.step (.logical (h.plain rfl).symm ih ih₂) rfl
  | unary _ _ _ ih => exact h.step (.unary (h.plain rfl).symm ih) rfl
  | update _ _ _ ih =>
    exact h.step (.update (h.plain rfl).symm ih (h.plain rfl).symm) rfl

end Reshapes

/-- Programs of statements that are printed alike have one text. -/
theorem print_congr {l l' : Option Location} {ts us : List Tree} {indent : Text}
    (h : List.Forall₂ PrintsAs ts us) :
    (Tree.node l (.program (.tuple ts))).print indent =
      (Tree.node l' (.program (.tuple us))).print indent := by
  have each : ts.mapM (visit indent 0) = us.mapM (visit indent 0) := by
    induction h with
    | nil => rfl
    | cons first _ ih => rw [List.mapM_cons, List.mapM_cons, first.visit, ih]
  change ((ts.mapM (visit indent 0) >>= fun printed => printed.mapM Printed.line >>= _).map _) =
    ((us.mapM (visit indent 0) >>= fun printed => printed.mapM Printed.line >>= _).map _)
  rw [each]

end Print

end TailLoop
