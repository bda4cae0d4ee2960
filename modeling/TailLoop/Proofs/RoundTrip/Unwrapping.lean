import TailLoop.Proofs.Flattening
import TailLoop.Proofs.Nodes
import TailLoop.Proofs.Reading.Programs
import TailLoop.Proofs.RoundTrip.Likeness
import TailLoop.Proofs.RoundTrip.Programs

/-!
# Printed programs print to themselves

A sequence of a single assignment is written like the assignment, so that where a statement or a
loop starts with one, the text is read as the assignment alone. `Tree.unwrapped` makes a tree what
its text is read as in these places. It leaves well-formed trees well-formed
(`WellFormed.unwrapped`) and is not printed (`reshapes_unwrapped`), and neither are locations
(`reshapes_bare`) and the braces around consequents that would take an `else` (`reshapes_settled`).

The text of a program of well-formed statements that is legible when it is unwrapped is therefore
read as a program with the same text (`print_settles`).
-/

namespace TailLoop

/-- A form mapped twice. -/
theorem Shape.map_map {α β γ : Type} (f : α → β) (g : β → γ) (shape : Shape α) :
    (shape.map f).map g = shape.map fun a => g (f a) := by
  cases shape with
  | generic kind children => simp [Shape.map]
  | _ => rfl

namespace Tree

variable {t : Tree} {ts : List Tree} {l : Option Location} {s : Shape Tree}

/-- The assignment that a sequence consists of, and any other tree as it is. -/
def single : Tree → Tree
  | .node _ (.sequence (.tuple [.node l (.assignment operator left right)])) =>
    .node l (.assignment operator left right)
  | t => t

/-- The form of a node whose statement or start of a loop is no sequence of one assignment. -/
def unwrappedShape : Shape Tree → Shape Tree
  | .expressionStatement expression => .expressionStatement expression.single
  | .forStatement init test step body => .forStatement init.single test step body
  | shape => shape

/-- The rules that take sequences of one assignment apart. -/
def unwrapRules : Rules Tree where
  atom := id
  tuple := .tuple
  list _ := .list
  dict _ := .dict
  node t shape := .node t.location? (unwrappedShape shape)

/-- A tree whose statements and loops start with no sequence of one assignment. -/
def unwrapped (t : Tree) : Tree := fold unwrapRules t

/-- A row is unwrapped item by item. -/
theorem unwrapped_tuple : (tuple ts).unwrapped = tuple (ts.map unwrapped) := by
  unfold unwrapped
  rw [fold, foldItems_eq_map]
  rfl

/-- A plain value holds nothing to unwrap. -/
theorem unwrapped_of_isPlain (plain : t.isPlain = true) : t.unwrapped = t := by
  cases t with
  | null | bool | int | num | text => rfl
  | _ => cases plain

/-- A node is unwrapped in its fields, and then itself. -/
theorem unwrapped_node : (node l s).unwrapped = node l (unwrappedShape (s.map unwrapped)) :=
  fold_node _ _ _

/-- The kinds of nodes that start with what may be unwrapped. -/
def isWrapper : Kind → Bool
  | .expressionStatement | .forStatement => true
  | _ => false

/-- A node of another kind is unwrapped in its fields only. -/
theorem unwrapped_other (other : isWrapper s.kind = false) :
    (node l s).unwrapped = node l (s.map unwrapped) := by
  rw [unwrapped_node]
  cases s with
  | expressionStatement => cases other
  | forStatement => cases other
  | _ => rfl

/-- A tree is the assignment of a sequence, or it is left as it is. -/
theorem single_cases (t : Tree) : t.single = t ∨ ∃ l l' operator left right,
    t = node l (.sequence (.tuple [node l' (.assignment operator left right)])) ∧
      t.single = node l' (.assignment operator left right) := by
  unfold single
  split
  · exact .inr ⟨_, _, _, _, _, rfl, rfl⟩
  · exact .inl rfl

/-- A declaration is no sequence. -/
theorem single_of_declaration (h : t.hasKind .variableDeclaration = true) : t.single = t := by
  rcases single_cases t with same | ⟨_, _, _, _, _, rfl, -⟩
  · exact same
  · cases h

/-- The assignment of a sequence is there if the sequence is. -/
theorem isNull_single (t : Tree) : t.single.isNull = t.isNull := by
  rcases single_cases t with same | ⟨_, _, _, _, _, rfl, same⟩
  · rw [same]
  · rw [same]
    rfl

/-- Unwrapping leaves the kind as it is. -/
theorem kind?_unwrapped (t : Tree) : t.unwrapped.kind? = t.kind? := by
  cases t with
  | node l s =>
    rw [unwrapped_node, kind?, kind?]
    have same : (unwrappedShape (s.map unwrapped)).kind = (s.map unwrapped).kind := by
      cases s <;> rfl
    rw [same, Shape.kind_map]
  | tuple => rw [unwrapped_tuple]; rfl
  | _ => rfl

/-- What is absent stays so, and nothing else becomes absent. -/
theorem isNull_unwrapped (t : Tree) : t.unwrapped.isNull = t.isNull := by
  cases t with
  | tuple => rw [unwrapped_tuple]; rfl
  | _ => rfl

end Tree

open Tree Validity

namespace Validity

variable {checked : Bool} {c : Targets} {t : Tree} {ts : List Tree}

/-- Unwrapping keeps expressions. -/
theorem isExpression_unwrapped : t.unwrapped.isExpression = t.isExpression := by
  rw [isExpression, isExpression, kind?_unwrapped]

/-- Unwrapping keeps statements. -/
theorem isStatement_unwrapped : t.unwrapped.isStatement = t.isStatement := by
  rw [isStatement, isStatement, kind?_unwrapped]

/-- Unwrapping keeps kinds. -/
theorem hasKind_unwrapped {k : Kind} : t.unwrapped.hasKind k = t.hasKind k := by
  rw [hasKind, hasKind, kind?_unwrapped]

/-- Unwrapping keeps what can be assigned to. -/
theorem isAssignable_unwrapped : t.unwrapped.isAssignable = t.isAssignable := by
  rw [isAssignable, isAssignable, hasKind_unwrapped, hasKind_unwrapped]

/-- Unwrapping keeps loops. -/
theorem isLoop_unwrapped : isLoop t.unwrapped = isLoop t := by
  rw [isLoop, isLoop, kind?_unwrapped]

/-- There is nothing to unwrap in a name. -/
theorem IsName.unwrapped (name : IsName t) : t.unwrapped = t := by
  obtain ⟨l, _⟩ := name
  rw [unwrapped_other rfl]
  rfl

/-- The assignment of a sequence is an expression. -/
theorem isExpression_single (h : t.isExpression = true) : t.single.isExpression = true := by
  rcases single_cases t with same | ⟨_, _, _, _, _, rfl, same⟩
  · rwa [same]
  · rw [same]
    rfl

/-- The assignment of a well-formed sequence is well-formed. -/
theorem WellFormed.single (h : WellFormed checked c t) : WellFormed checked c t.single := by
  rcases single_cases t with same | ⟨_, _, _, _, _, rfl, same⟩
  · rwa [same]
  · rw [same]
    cases h with
    | sequence some kinds parts => exact parts _ List.mem_cons_self

/-- What holds of the items of a row after unwrapping. -/
theorem forall_unwrapped {P : Tree → Prop} (h : ∀ t ∈ ts, P t.unwrapped) :
    ∀ t ∈ ts.map unwrapped, P t := List.forall_mem_map.mpr h

/-- There is nothing to unwrap in a name that may be absent. -/
theorem unwrapped_optional (name : t.isNull = false → IsName t) : t.unwrapped = t := by
  cases t with
  | null => rfl
  | _ => exact (name rfl).unwrapped

/-- There is nothing to unwrap in names. -/
theorem map_unwrapped (names : ∀ t ∈ ts, IsName t) : ts.map unwrapped = ts := by
  conv_rhs => rw [← List.map_id ts]
  exact List.map_congr_left fun t ht => (names t ht).unwrapped

/-- There is nothing to unwrap in the declaration of a loop over a collection. -/
theorem unwrapped_declared {ld le : Option Location} {id : Tree} {kind : Text} (name : IsName id) :
    (node ld (.variableDeclaration (.tuple [node le (.variableDeclarator id .null)])
      (.text kind))).unwrapped =
      node ld (.variableDeclaration (.tuple [node le (.variableDeclarator id .null)])
        (.text kind)) := by
  have declarator : (node le (.variableDeclarator id .null)).unwrapped =
      node le (.variableDeclarator id .null) := by
    rw [unwrapped_other rfl, Shape.map, name.unwrapped]
    rfl
  rw [unwrapped_other rfl, Shape.map, unwrapped_tuple, List.map_singleton,
    declarator]
  rfl

/-- A well-formed tree is well-formed when it is unwrapped. -/
theorem WellFormed.unwrapped (h : WellFormed checked c t) : WellFormed checked c t.unwrapped := by
  -- By induction on the judgement: the fields are unwrapped, and have the same kinds.
  have expression {t : Tree} (h : t.isExpression = true) : t.unwrapped.isExpression = true :=
    isExpression_unwrapped.trans h
  have statement {t : Tree} (h : t.isStatement = true) : t.unwrapped.isStatement = true :=
    isStatement_unwrapped.trans h
  have present {t : Tree} (h : t.unwrapped.isNull = false) : t.isNull = false :=
    isNull_unwrapped t ▸ h
  induction h with
  | program kinds _ ih =>
    rw [unwrapped_other rfl, Shape.map, unwrapped_tuple]
    exact .program (forall_unwrapped fun s hs => statement (kinds s hs)) (forall_unwrapped ih)
  | @function c l form id ps lb ss named name params kinds _ ih =>
    rw [unwrapped_other (by cases form <;> rfl), Shape.map,
      unwrapped_optional name, unwrapped_tuple, map_unwrapped params,
      unwrapped_other rfl, Shape.map, unwrapped_tuple]
    exact .function named name params (forall_unwrapped fun s hs => statement (kinds s hs))
      (forall_unwrapped ih)
  | block kinds _ ih =>
    rw [unwrapped_other rfl, Shape.map, unwrapped_tuple]
    exact .block (forall_unwrapped fun s hs => statement (kinds s hs)) (forall_unwrapped ih)
  | returnStatement kind _ ih =>
    rw [unwrapped_other rfl, Shape.map]
    exact .returnStatement (fun there => expression (kind (present there)))
      fun there => ih (present there)
  | variableDeclaration some kinds _ ih =>
    rw [unwrapped_other rfl, Shape.map, unwrapped_tuple,
      unwrapped_of_isPlain (t := .text _) rfl]
    exact .variableDeclaration (fun none => some (List.map_eq_nil_iff.mp none))
      (forall_unwrapped fun d hd => hasKind_unwrapped.trans (kinds d hd)) (forall_unwrapped ih)
  | variableDeclarator name kind _ ih =>
    rw [unwrapped_other rfl, Shape.map, name.unwrapped]
    exact .variableDeclarator name (fun there => expression (kind (present there)))
      fun there => ih (present there)
  | ifStatement testKind _ kind _ elseKind _ ih ih₂ ih₃ =>
    rw [unwrapped_other rfl, Shape.map]
    exact .ifStatement (expression testKind) ih (statement kind) ih₂
      (fun there => statement (elseKind (present there))) fun there => ih₃ (present there)
  | @forStatement c l init test step body initKind _ testKind _ stepKind _ kind _ ih ih₂ ih₃ ih₄ =>
    have isNull : init.unwrapped.single.isNull = init.isNull :=
      (isNull_single _).trans (isNull_unwrapped _)
    rw [unwrapped_node, Shape.map, unwrappedShape]
    refine .forStatement (fun there => ?_) (fun there => (ih (isNull ▸ there)).single)
      (fun there => expression (testKind (present there))) (fun there => ih₂ (present there))
      (fun there => expression (stepKind (present there))) (fun there => ih₃ (present there))
      (statement kind) ih₄
    rcases initKind (isNull ▸ there) with declaration | kind
    · have kept := hasKind_unwrapped.trans declaration
      rw [single_of_declaration kept]
      exact .inl kept
    · exact .inr (isExpression_single (expression kind))
  | @forEachDeclared c l domain ld le id right body name rightKind _ kind _ ih ih₂ =>
    rw [unwrapped_other (by cases domain <;> rfl), Shape.map,
      unwrapped_declared name]
    exact .forEachDeclared name (expression rightKind) ih (statement kind) ih₂
  | @forEach c l domain left right body target _ rightKind _ kind _ ih ih₂ ih₃ =>
    rw [unwrapped_other (by cases domain <;> rfl), Shape.map]
    exact .forEach (isAssignable_unwrapped.trans target) ih (expression rightKind) ih₂
      (statement kind) ih₃
  | whileStatement testKind _ kind _ ih ih₂ =>
    rw [unwrapped_other rfl, Shape.map]
    exact .whileStatement (expression testKind) ih (statement kind) ih₂
  | doWhileStatement testKind _ kind _ ih ih₂ =>
    rw [unwrapped_other rfl, Shape.map]
    exact .doWhileStatement (expression testKind) ih (statement kind) ih₂
  | expressionStatement kind _ ih =>
    rw [unwrapped_node]
    exact .expressionStatement (isExpression_single (expression kind)) ih.single
  | emptyStatement => exact .emptyStatement
  | bareJump inLoop => exact .bareJump inLoop
  | jump spelled reaches => exact .jump spelled reaches
  | labeled spelled fresh kind _ ih =>
    rw [unwrapped_other rfl, Shape.map, (IsName.mk _ spelled).unwrapped]
    exact .labeled spelled fresh (statement kind) (by rwa [isLoop_unwrapped])
  | identifier spelled => exact .identifier spelled
  | literal plain =>
    rw [unwrapped_other rfl, Shape.map, unwrapped_of_isPlain plain]
    exact .literal plain
  | array kinds _ ih =>
    rw [unwrapped_other rfl, Shape.map, unwrapped_tuple]
    exact .array (forall_unwrapped fun e he => expression (kinds e he)) (forall_unwrapped ih)
  | call kind _ kinds _ ih ih₂ =>
    rw [unwrapped_other rfl, Shape.map, unwrapped_tuple]
    exact .call (expression kind) ih (forall_unwrapped fun e he => expression (kinds e he))
      (forall_unwrapped ih₂)
  | member kind _ name ih =>
    rw [unwrapped_other rfl, Shape.map, name.unwrapped]
    exact .member (expression kind) ih name
  | computedMember kind _ keyKind _ ih ih₂ =>
    rw [unwrapped_other rfl, Shape.map]
    exact .computedMember (expression kind) ih (expression keyKind) ih₂
  | conditional testKind _ kind _ elseKind _ ih ih₂ ih₃ =>
    rw [unwrapped_other rfl, Shape.map]
    exact .conditional (expression testKind) ih (expression kind) ih₂ (expression elseKind) ih₃
  | assignment known target _ kind _ ih ih₂ =>
    rw [unwrapped_other rfl, Shape.map]
    exact .assignment known (isAssignable_unwrapped.trans target) ih (expression kind) ih₂
  | sequence some kinds _ ih =>
    rw [unwrapped_other rfl, Shape.map, unwrapped_tuple]
    exact .sequence (fun none => some (List.map_eq_nil_iff.mp none))
      (forall_unwrapped fun e he => expression (kinds e he)) (forall_unwrapped ih)
  | binary known leftKind _ kind _ ih ih₂ =>
    rw [unwrapped_other rfl, Shape.map]
    exact .binary known (expression leftKind) ih (expression kind) ih₂
  | logical known leftKind _ kind _ ih ih₂ =>
    rw [unwrapped_other rfl, Shape.map]
    exact .logical known (expression leftKind) ih (expression kind) ih₂
  | unary known kind _ ih =>
    rw [unwrapped_other rfl, Shape.map]
    exact .unary known (expression kind) ih
  | update known target _ ih =>
    rw [unwrapped_other rfl, Shape.map]
    exact .update known (isAssignable_unwrapped.trans target) ih

end Validity

namespace Print

variable {l l' : Option Location} {s : Shape Tree} {indent : Text} {level : Nat} {e t u v : Tree}

/-- What is written for an assignment holds together like one. -/
theorem visit_assignment (indent : Text) (level : Nat) (l : Option Location)
    (operator left right : Tree) : ∃ written : Except PrintError Text,
      visit indent level (.node l (.assignment operator left right)) =
        (Printed.ofText · .assignment) <$> written := by
  refine ⟨do
    let target ← (← visit indent level left).operand .call
    let value ← (← visit indent level right).operand .assignment
    return target.inline ++ " " ++ operator.inline ++ " " ++ value.inline, ?_⟩
  rw [visit]
  simp only [map_bind, map_pure]

/-- What is written for a sequence of one expression is what is written for the expression. -/
theorem visit_sequence_single : visit indent level (.node l (.sequence (.tuple [e]))) = (do
    let written ← (← visit indent level e).operand .assignment
    let text ← commaList [written]
    return .ofText text .sequence) := by
  rw [visit, operands, operandItems]
  simp only [operandItems, bind_assoc]
  rfl

/-- A sequence of an assignment is written like the assignment. -/
theorem written_single (e : Tree) :
    (visit indent level e >>= Printed.operand .sequence) =
      (visit indent level e.single >>= Printed.operand .sequence) := by
  rcases single_cases e with same | ⟨l, l', operator, left, right, rfl, same⟩
  · rw [same]
  · obtain ⟨written, eq⟩ := visit_assignment indent level l' operator left right
    rw [same, visit_sequence_single, eq]
    cases written <;> rfl

/-- The start of a loop is written like the assignment that it is a sequence of. -/
theorem loopStart_single (e : Tree) :
    loopStart indent level e = loopStart indent level e.single := by
  rcases single_cases e with same | ⟨l, l', operator, left, right, rfl, same⟩
  · rw [same]
  · rw [same]
    exact (written_single _).trans (by rw [same]; rfl)

/-- An expression as a statement is written by the expression, at the weakest precedence. -/
theorem visit_expressionStatement : visit indent level (.node l (.expressionStatement e)) =
    (visit indent level e >>= Printed.operand .sequence) >>= fun written => (do
      let text ← textOf written
      return .statement
        ((if startsFunction text then parenthesize text else text : Text) ++ ";")) := by
  rw [visit, bind_assoc]

/-- Unwrapping is not printed. -/
theorem reshapes_unwrapped : Reshapes unwrapped where
  plain := unwrapped_of_isPlain
  row _ := unwrapped_tuple
  node l s _ := by
    rw [unwrapped_node]
    cases s with
    | expressionStatement e =>
      refine .of_visit rfl rfl rfl fun indent level => ?_
      rw [Shape.map, unwrappedShape, visit_expressionStatement, visit_expressionStatement,
        written_single]
    | forStatement init test step body =>
      refine .of_visit rfl rfl rfl fun indent level => ?_
      rw [Shape.map, unwrappedShape, visit_forStatement, visit_forStatement, loopStart_single]
    | _ => exact .refl _

/-- Locations are not printed. -/
theorem reshapes_bare : Reshapes Tree.bare where
  plain plain := by
    rename_i t
    cases t with
    | null | bool | int | num | text => rfl
    | _ => cases plain
  row := bare_tuple
  node l s _ := by
    rw [bare_node]
    exact .located

/-- What ends open is no block. -/
theorem isBlock_of_endsOpen (opens : endsOpen t = true) : isBlock t = false := by
  cases t with
  | node l s =>
    cases s with
    | block => cases opens
    | forEach domain => cases domain <;> rfl
    | function form => cases opens
    | jump kind => cases opens
    | _ => rfl
  | _ => rfl

/-- The braces around a consequent that would take the `else` after it are printed anyway. -/
theorem printsAs_openConsequent (opens : endsOpen u = true) (some : v.isNull = false) :
    PrintsAs (.node l (.ifStatement t u v)) (.node l' (.ifStatement t (.block [u]) v)) := by
  refine .of_visit rfl rfl ?_ fun indent level => ?_
  · cases v with
    | null => cases some
    | _ => rfl
  · have closed : endsOpen (Tree.block [u]) = false := rfl
    have block : isBlock (Tree.block [u]) = true := rfl
    have bare : isBlock u = false := isBlock_of_endsOpen opens
    have written : visit indent level (Tree.block [u]) =
        ((visit indent (level + 1) u >>= Printed.line) >>= fun text =>
          pure (.statement (braces indent level [text]))) := by
      rw [Tree.block, Tree.new, visit, lines, lineItems, lineItems]
      simp only [bind_assoc]
      rfl
    simp only [Print.visit, opens, closed, some, block, bare, bodyLevel, placeBraced, place,
      written, Bool.true_or, Bool.false_or, if_true, Bool.false_eq_true, if_false, bind_assoc]
    rfl

/-- A node gets braces in its fields only, or it is a condition whose first branch would take the
`else` and gets braces around it. -/
theorem braced_cases (l : Option Location) (s : Shape Tree) :
    (node l s).braced = node l (s.map braced) ∨ ∃ test yes no, s = .ifStatement test yes no ∧
      no.isNull = false ∧ endsOpen yes = true ∧
      (node l s).braced =
        node l (.ifStatement test.braced (Tree.block [yes.braced]) no.braced) := by
  by_cases condition : s.kind = .ifStatement
  · cases s with
    | ifStatement test yes no =>
      by_cases tame : no.isNull = true ∨ endsOpen yes = false
      · exact .inl (braced_if tame)
      · rw [not_or, Bool.not_eq_true, Bool.not_eq_false] at tame
        exact .inr ⟨test, yes, no, rfl, tame.1, tame.2, braced_if_open tame.1 tame.2⟩
    | function form => cases form <;> cases condition
    | forEach domain => cases domain <;> cases condition
    | jump kind => cases kind <;> cases condition
    | _ => cases condition
  · exact .inl (braced_node condition)

/-- What is absent stays so with braces, and nothing else becomes absent. -/
theorem isNull_braced_bare (t : Tree) : t.braced.bare.isNull = t.isNull := by
  cases t with
  | tuple =>
    rw [braced_tuple, bare_tuple]
    rfl
  | _ => rfl

/-- Braces around consequents that would take an `else` are not told from those that are printed. -/
theorem reshapes_settled : Reshapes fun t => t.braced.bare where
  plain plain := by
    rename_i t
    cases t with
    | null | bool | int | num | text => rfl
    | _ => cases plain
  row ts := by rw [braced_tuple, bare_tuple, List.map_map]; rfl
  node l s first := by
    rcases braced_cases l s with same | ⟨test, yes, no, rfl, some, opens, same⟩
    · rw [same, bare_node, Shape.map_map]
      exact .located
    · -- The braces that are put there are written at the level of the condition.
      have ends : endsOpen yes = endsOpen yes.braced.bare := (first test yes no rfl).endsOpen
      rw [same, bare_node]
      exact printsAs_openConsequent (ends ▸ opens) ((isNull_braced_bare no).trans some)

/-! ## Programs -/

/-- A literal of an integer is one with braces as well, and no other node becomes one. -/
theorem isExact_map_braced : (Tree.node l (s.map braced)).isExact = (Tree.node l s).isExact := by
  cases s with
  | literal value =>
    cases value with
    | tuple =>
      rw [Shape.map, braced_tuple]
      rfl
    | _ => rfl
  | _ => rfl

/-- There is no literal of an integer in a tree with braces if there is none in the tree. -/
theorem exact_braced (h : t.Exact) : t.braced.Exact := by
  induction t using inductionOn with
  | leaf t leaf =>
    cases t with
    | tuple | node => cases leaf
    | _ => exact List.forall_mem_nil _
  | tuple items ih =>
    rw [braced_tuple]
    exact all_tuple.mpr (List.forall_mem_map.mpr fun u hu => ih u hu (All.item h hu))
  | node l s ih =>
    have parts : ∀ u ∈ s.parts, u.braced.Exact := by
      intro u hu
      obtain ⟨c, hc, rfl⟩ := List.mem_map.mp hu
      exact ih c hc (All.child h hu)
    have own : (Tree.node l (s.map braced)).isExact = true :=
      isExact_map_braced.trans (All.self h)
    rcases braced_cases l s with same | ⟨test, yes, no, rfl, -, -, same⟩
    · rw [same]
      refine all_parts own ?_
      rw [Shape.parts_map]
      exact List.forall_mem_map.mpr parts
    · rw [same]
      have block : (Tree.block [yes.braced]).Exact :=
        all_parts rfl (forall₁ (all_tuple.mpr (forall₁ (parts yes (.tail _ (.head _))))))
      exact all_parts rfl
        (forall₃ (parts test (.head _)) block (parts no (.tail _ (.tail _ (.head _)))))

/-- A change that is not printed leaves the text of a program as it is. -/
theorem print_reshaped {f : Tree → Tree} {checked : Bool} {c : Targets} {body : Tree}
    (h : Reshapes f) (wf : WellFormed checked c (.node l (.program body))) :
    (Tree.node l (.program body)).print indent =
      (Tree.node l' (.program (f body))).print indent := by
  cases wf with
  | program _ parts =>
    rw [h.row]
    exact print_congr (List.forall₂_map_right_iff.mpr (List.forall₂_same.mpr fun s hs =>
      h.printsAs (parts s hs)))

end Print

open Print

/-- The text of a well-formed program that is legible when it is unwrapped is read as a program that
has this text. -/
theorem print_settles {file indent : Text} {l : Option Location} {body : Tree} {checked : Bool}
    {c : Targets} (named : file ≠ []) (white : IsWhite indent)
    (wf : WellFormed checked c (.node l (.program body)))
    (legible : (Tree.node l (.program body)).unwrapped.Legible)
    (exact : (Tree.node l (.program body)).unwrapped.Exact) :
    ∃ text u, (Tree.node l (.program body)).print indent = .ok text ∧
      Source.parse file text = .ok u ∧ u.print indent = .ok text := by
  have wf' := wf.unwrapped
  rw [unwrapped_other rfl, Shape.map] at legible exact wf'
  obtain ⟨text, u, printed, read, reads⟩ := print_reads named white wf' legible
  refine ⟨text, u, (print_reshaped reshapes_unwrapped wf).trans printed, read, ?_⟩
  -- What was read is the unwrapped program with braces and other locations.
  have readPart := Source.parse_wellFormed read {}
  have same := reads.bare (exact_braced exact)
  obtain ⟨l', _⟩ := Source.isProgram_of_parse read
  rename_i us _
  rw [braced_node (fun other => by cases other), bare_node, bare_node] at same
  have bodies : body.unwrapped.braced.bare = (tuple us).bare :=
    Shape.program.inj (node.inj same).2
  calc (Tree.node l' (.program (.tuple us))).print indent
    _ = (Tree.node none (.program (tuple us).bare)).print indent :=
      print_reshaped reshapes_bare readPart
    _ = (Tree.node none (.program body.unwrapped.braced.bare)).print indent := by rw [bodies]
    _ = (Tree.node l (.program body.unwrapped)).print indent :=
      (print_reshaped reshapes_settled wf').symm
    _ = .ok text := printed

end TailLoop
