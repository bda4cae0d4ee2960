import TailLoop.Elimination.Scope
import TailLoop.Proofs.WellFormed

/-!
# The functions of a tree and their names

The programs and functions of a tree in the order in which they begin (`Tree.scopes`), and the names
that a tree declares in the scope that it stands in (`Tree.ownNames`). Looking for declared names
finds just these, and on well-formed trees it never fails (`WellFormed.declaredNames`).

Statements about all parts of a well-formed tree are proved once and for all forms of nodes by
`WellFormed.byParts`.
-/

namespace TailLoop

/-- Forms of nodes that declare nothing themselves and have no variables of their own. -/
def Shape.isInert {α : Type} : Shape α → Bool
  | .program _ | .function .. | .variableDeclarator .. => false
  | _ => true

/-- What is asked of the form of a node, its fields aside: it is of the language, and what it declares
are declarators. -/
def Shape.IsProper : Shape Tree → Prop
  | .generic .. => False
  | .variableDeclaration declarations _ =>
    ∃ ds, declarations = .tuple ds ∧ ∀ d ∈ ds, d.hasKind .variableDeclarator = true
  | _ => True

/-- The fields of a node, in order. -/
def Shape.parts {α : Type} (shape : Shape α) : List α := shape.children.map (·.2)

/-- What stands at a place among the fields is a field. -/
theorem Shape.mem_parts {α : Type} {shape : Shape α} {u : α} (i : Nat)
    (h : shape.parts[i]? = some u) : u ∈ shape.parts := List.mem_of_getElem? h

/-- The fields of a form are changed one by one. -/
theorem Shape.parts_map {α β : Type} (f : α → β) (shape : Shape α) :
    (shape.map f).parts = shape.parts.map f := by
  rw [parts, parts, children_map, List.map_map, List.map_map]
  rfl

namespace Tree

/-- The nodes of a node are itself and those of its fields. -/
theorem nodes_parts (l : Option Location) (shape : Shape Tree) :
    (Tree.node l shape).nodes = .node l shape :: shape.parts.flatMap nodes := by
  rw [nodes_node, Shape.parts, List.flatMap_map, List.flatMap_def]

/-- The nodes of a row are those of its items. -/
theorem nodes_row (ts : List Tree) : (Tree.tuple ts).nodes = ts.flatMap nodes := by
  rw [nodes_tuple, List.flatMap_def]

/-- The rules that list programs and functions: one, then those of its body. -/
def scopeRules : Rules (List Tree) where
  atom _ := []
  tuple := List.flatten
  list _ _ := []
  dict _ _ := []
  node t shape :=
    match shape with
    | .program body => t :: body
    | .function _ _ _ body => t :: body
    | shape => shape.parts.flatten

/-- The programs and functions of a tree, each before those in its body. -/
def scopes (t : Tree) : List Tree := fold scopeRules t

/-- The name that a node carries, if it is a text. -/
def nameText? (t : Tree) : Option Text :=
  match t.name? with
  | some (.text x) => some x
  | _ => none

/-- The names of the parameters of a function. -/
def paramNames : Tree → List Text
  | .node _ (.function _ _ (.tuple ps) _) => ps.filterMap identifierName?
  | _ => []

/-- The rules that list the names which variables and functions declare in the scope that a tree
stands in. -/
def ownRules : Rules (List Text) where
  atom _ := []
  tuple := List.flatten
  list _ _ := []
  dict _ _ := []
  node t shape :=
    match t with
    | .node _ (.function .declaration id _ _) => id.nameText?.toList
    | .node _ (.function .expression ..) => []
    | .node _ (.variableDeclarator id _) => id.nameText?.toList ++ shape.parts.flatten
    | _ => shape.parts.flatten

/-- The names that a tree declares in the scope that it stands in, in source order. -/
def ownNames (t : Tree) : List Text := fold ownRules t

section Lists

variable {l : Option Location} {shape : Shape Tree}

/-- The functions in a row are those in its items. -/
theorem scopes_tuple (items : List Tree) : (Tree.tuple items).scopes = items.flatMap scopes := by
  rw [scopes, fold, foldItems_eq_map, List.flatMap_def]
  rfl

/-- The functions in a plain node are those in its parts. -/
theorem scopes_inert (h : shape.isInert = true) :
    (Tree.node l shape).scopes = shape.parts.flatMap scopes := by
  rw [scopes, fold_node, List.flatMap_def]
  cases shape with
  | program | function | variableDeclarator => cases h
  | _ => exact congrArg List.flatten (Shape.parts_map scopes _)

/-- The functions in a declarator are those in its name and its value. -/
theorem scopes_declarator (id init : Tree) :
    (Tree.node l (.variableDeclarator id init)).scopes = id.scopes ++ init.scopes := by
  rw [scopes, fold_node]
  exact congrArg (_ ++ ·) (List.append_nil _)

/-- A program comes before the functions in it. -/
theorem scopes_program (ss : List Tree) : (Tree.node l (.program (.tuple ss))).scopes =
    .node l (.program (.tuple ss)) :: ss.flatMap scopes := by
  rw [← scopes_tuple, scopes, fold_node]
  rfl

/-- A function comes before the functions in it. -/
theorem scopes_function (form : FunctionForm) (id params : Tree) (lb : Option Location)
    (ss : List Tree) :
    (Tree.node l (.function form id params (.node lb (.block (.tuple ss))))).scopes =
      .node l (.function form id params (.node lb (.block (.tuple ss)))) ::
        ss.flatMap scopes := by
  have body : (Tree.node lb (.block (.tuple ss))).scopes = ss.flatMap scopes := by
    rw [scopes_inert rfl, Shape.parts, Shape.children, List.map_singleton, List.flatMap_singleton,
      scopes_tuple]
  rw [scopes, fold_node]
  exact congrArg (_ :: ·) body

/-- The own names of a row are those of its items. -/
theorem ownNames_tuple (items : List Tree) :
    (Tree.tuple items).ownNames = items.flatMap ownNames := by
  rw [ownNames, fold, foldItems_eq_map, List.flatMap_def]
  rfl

/-- The own names of a plain node are those of its parts. -/
theorem ownNames_inert (h : shape.isInert = true) :
    (Tree.node l shape).ownNames = shape.parts.flatMap ownNames := by
  rw [ownNames, fold_node, List.flatMap_def]
  cases shape with
  | program | function | variableDeclarator => cases h
  | _ => exact congrArg List.flatten (Shape.parts_map ownNames _)

/-- The own names of a program are those of its statements. -/
theorem ownNames_program (body : Tree) :
    (Tree.node l (.program body)).ownNames = (Shape.program body).parts.flatMap ownNames := by
  rw [ownNames, fold_node, List.flatMap_def]
  exact congrArg List.flatten (Shape.parts_map ownNames _)

/-- A declarator declares its name before those in its parts. -/
theorem ownNames_declarator (id init : Tree) :
    (Tree.node l (.variableDeclarator id init)).ownNames =
      id.nameText?.toList ++ (id.ownNames ++ init.ownNames) := by
  rw [ownNames, fold_node]
  exact congrArg (fun rest => _ ++ (_ ++ rest)) (List.append_nil _)

end Lists

end Tree

namespace Validity

open Tree

/-! ## Properties that go by parts -/

/-- A property of trees that a node has when its fields have it, apart from programs and functions,
for which their statements decide. -/
structure ByParts (checked : Bool) (Q : Tree → Prop) : Prop where
  plain : ∀ {t : Tree}, t.isPlain = true → Q t
  tuple : ∀ {items : List Tree}, (∀ u ∈ items, Q u) → Q (.tuple items)
  inert : ∀ {l : Option Location} {shape : Shape Tree}, shape.isInert = true → shape.IsProper →
    (∀ u ∈ shape.parts, Q u) → Q (.node l shape)
  declarator : ∀ {l : Option Location} {id init : Tree}, IsName id → Q init →
    Q (.node l (.variableDeclarator id init))
  program : ∀ {c : Targets} {l : Option Location} {ss : List Tree},
    WellFormed checked c (.node l (.program (.tuple ss))) → (∀ s ∈ ss, Q s) →
    Q (.node l (.program (.tuple ss)))
  function : ∀ {c : Targets} {l lb : Option Location} {form : FunctionForm} {id : Tree}
    {ps ss : List Tree},
    WellFormed checked c (.node l (.function form id (.tuple ps) (.node lb (.block (.tuple ss))))) →
    (∀ s ∈ ss, Q s) → Q (.node l (.function form id (.tuple ps) (.node lb (.block (.tuple ss)))))

section ByParts

variable {checked : Bool} {Q : Tree → Prop} {c : Targets} {t : Tree}

/-- One part has a property. -/
theorem forall₁ {a : Tree} (ha : Q a) : ∀ u ∈ [a], Q u := List.forall_mem_singleton.mpr ha

/-- Two parts have a property if each of them does. -/
theorem forall₂ {a b : Tree} (ha : Q a) (hb : Q b) : ∀ u ∈ [a, b], Q u :=
  List.forall_mem_cons.mpr ⟨ha, forall₁ hb⟩

/-- Three parts have a property if each of them does. -/
theorem forall₃ {a b d : Tree} (ha : Q a) (hb : Q b) (hd : Q d) : ∀ u ∈ [a, b, d], Q u :=
  List.forall_mem_cons.mpr ⟨ha, forall₂ hb hd⟩

/-- A property by parts holds of names. -/
theorem ByParts.name (h : ByParts checked Q) (name : IsName t) : Q t := by
  obtain ⟨l, spelled⟩ := name
  exact h.inert rfl trivial (forall₁ (h.plain rfl))

/-- It holds of parts that may be absent. -/
theorem ByParts.optional (h : ByParts checked Q) (part : t.isNull = false → Q t) : Q t := by
  cases t with
  | null => exact h.plain rfl
  | _ => exact part rfl

/-- Such a property holds of all well-formed trees. -/
theorem WellFormed.byParts (wf : WellFormed checked c t) (h : ByParts checked Q) : Q t := by
  -- By induction on the judgement: a node has the property if its parts have it.
  induction wf with
  | @program c _ _ kinds parts ih => exact h.program (.program (c := c) kinds parts) ih
  | @function c _ _ _ _ _ _ named name params kinds parts ih =>
    exact h.function (.function (c := c) named name params kinds parts) ih
  | block _ _ ih | array _ _ ih | sequence _ _ _ ih =>
    exact h.inert rfl trivial (forall₁ (h.tuple ih))
  | returnStatement _ _ ih => exact h.inert rfl trivial (forall₁ (h.optional ih))
  | variableDeclaration _ kinds _ ih =>
    exact h.inert rfl ⟨_, rfl, kinds⟩ (forall₂ (h.tuple ih) (h.plain rfl))
  | variableDeclarator name _ _ ih => exact h.declarator name (h.optional ih)
  | ifStatement _ _ _ _ _ _ ih1 ih2 ih3 =>
    exact h.inert rfl trivial (forall₃ ih1 ih2 (h.optional ih3))
  | forStatement _ _ _ _ _ _ _ _ ih1 ih2 ih3 ih4 =>
    exact h.inert rfl trivial (List.forall_mem_cons.mpr
      ⟨h.optional ih1, forall₃ (h.optional ih2) (h.optional ih3) ih4⟩)
  | forEachDeclared name _ _ _ _ ih1 ih2 =>
    -- The declaration in the head of the loop has one declarator without a value.
    have initial : Q .null := h.plain rfl
    refine h.inert rfl trivial (forall₃ (h.inert rfl ⟨_, rfl, ?_⟩ (forall₂ ?_ (h.plain rfl))) ih1 ih2)
    · exact List.forall_mem_singleton.mpr rfl
    · exact h.tuple (forall₁ (h.declarator name initial))
  | forEach _ _ _ _ _ _ ih1 ih2 ih3 => exact h.inert rfl trivial (forall₃ ih1 ih2 ih3)
  | whileStatement _ _ _ _ ih1 ih2 => exact h.inert rfl trivial (forall₂ ih1 ih2)
  | doWhileStatement _ _ _ _ ih1 ih2 => exact h.inert rfl trivial (forall₂ ih2 ih1)
  | expressionStatement _ _ ih => exact h.inert rfl trivial (forall₁ ih)
  | emptyStatement => exact h.inert rfl trivial nofun
  | bareJump => exact h.inert rfl trivial (forall₁ (h.plain rfl))
  | jump spelled => exact h.inert rfl trivial (forall₁ (h.name (.mk _ spelled)))
  | labeled spelled _ _ _ ih => exact h.inert rfl trivial (forall₂ (h.name (.mk _ spelled)) ih)
  | identifier spelled => exact h.name (.mk _ spelled)
  | literal plain => exact h.inert rfl trivial (forall₁ (h.plain plain))
  | call _ _ _ _ ih ihs => exact h.inert rfl trivial (forall₂ ih (h.tuple ihs))
  | member _ _ name ih => exact h.inert rfl trivial (forall₃ ih (h.name name) (h.plain rfl))
  | computedMember _ _ _ _ ih1 ih2 => exact h.inert rfl trivial (forall₃ ih1 ih2 (h.plain rfl))
  | conditional _ _ _ _ _ _ ih1 ih2 ih3 => exact h.inert rfl trivial (forall₃ ih1 ih2 ih3)
  | assignment _ _ _ _ _ ih1 ih2 | binary _ _ _ _ _ ih1 ih2 | logical _ _ _ _ _ ih1 ih2 =>
    exact h.inert rfl trivial (forall₃ (h.plain rfl) ih1 ih2)
  | unary _ _ _ ih | update _ _ _ ih =>
    exact h.inert rfl trivial (forall₃ (h.plain rfl) ih (h.plain rfl))

end ByParts

/-! ## Well-formed functions -/

section Scopes

variable {checked : Bool} {c : Targets} {t : Tree}

/-- There are no functions in a plain value. -/
theorem scopes_of_isPlain (h : t.isPlain = true) : t.scopes = [] := by
  cases t with
  | null | bool | int | num | text => rfl
  | _ => cases h

/-- The functions in a well-formed tree are well-formed: this goes by parts. -/
theorem byParts_scopes : ByParts checked fun t => ∀ f ∈ t.scopes, ∃ c, WellFormed checked c f where
  plain h := by
    rw [scopes_of_isPlain h]
    exact nofun
  tuple h := by
    rw [scopes_tuple]
    intro f hf
    obtain ⟨u, hu, hf⟩ := List.mem_flatMap.mp hf
    exact h u hu f hf
  inert inert _ h := by
    rw [scopes_inert inert]
    intro f hf
    obtain ⟨u, hu, hf⟩ := List.mem_flatMap.mp hf
    exact h u hu f hf
  declarator name h := by
    obtain ⟨li, spelled⟩ := name
    rw [scopes_declarator]
    exact h
  program wf h := by
    rw [scopes_program, List.forall_mem_cons]
    refine ⟨⟨_, wf⟩, fun f hf => ?_⟩
    obtain ⟨u, hu, hf⟩ := List.mem_flatMap.mp hf
    exact h u hu f hf
  function wf h := by
    -- The function itself is well-formed, and so are those inside.
    rw [scopes_function, List.forall_mem_cons]
    refine ⟨⟨_, wf⟩, fun f hf => ?_⟩
    obtain ⟨u, hu, hf⟩ := List.mem_flatMap.mp hf
    exact h u hu f hf

/-- Every program and function in a well-formed tree is well-formed. -/
theorem WellFormed.scopes (h : WellFormed checked c t) :
    ∀ f ∈ t.scopes, ∃ c', WellFormed checked c' f :=
  h.byParts byParts_scopes

end Scopes

end Validity

/-! ## Declared names -/

namespace Tree

/-- A row of outcomes has a value if each of them has. -/
theorem mapM_id_ok {α β : Type} {f : α → Except Fault β} {l : List α}
    (h : ∀ a ∈ l, ∃ b, f a = .ok b) : ∃ bs, (l.map f).mapM id = .ok bs := by
  induction l with
  | nil => exact ⟨[], rfl⟩
  | cons a l ih =>
    rw [List.forall_mem_cons] at h
    obtain ⟨⟨b, first⟩, rest⟩ := h
    obtain ⟨bs, others⟩ := ih rest
    refine ⟨b :: bs, ?_⟩
    rw [List.map_cons, List.mapM_cons, id, first, others]
    rfl

/-- The value of a row of outcomes is the row of their values. -/
theorem eq_of_mapM_id {α β : Type} {f : α → Except Fault β} {g : α → β} {l : List α} {bs : List β}
    (each : ∀ a ∈ l, ∀ b, f a = .ok b → b = g a) (h : (l.map f).mapM id = .ok bs) :
    bs = l.map g := by
  -- By induction on the list, whose results are made one by one.
  induction l generalizing bs with
  | nil =>
    cases h
    rfl
  | cons a l ih =>
    rw [List.forall_mem_cons] at each
    rw [List.map_cons, List.mapM_cons, id] at h
    cases first : f a with
    | error e => rw [first] at h; cases h
    | ok b =>
      rw [first] at h
      cases others : (l.map f).mapM id with
      | error e => rw [others] at h; cases h
      | ok rest =>
        rw [others] at h
        cases h
        rw [List.map_cons, each.1 b first, ih each.2 others]

/-- The names that are found in the fields of a node. -/
def namesBelow (shape : Shape Tree) : Except Fault (List Text) :=
  ((shape.parts.map declaredNames).mapM id).map List.flatten

/-- The names declared below a node are those that its children declare. -/
theorem namesBelow_eq (shape : Shape Tree) :
    (((shape.map declaredNames).children.map Prod.snd).mapM id).map List.flatten =
      namesBelow shape := by
  rw [namesBelow, ← Shape.parts_map]
  rfl

/-- A row declares what its items declare. -/
theorem declaredNames_tuple (items : List Tree) : (Tree.tuple items).declaredNames =
    ((items.map declaredNames).mapM id).map List.flatten := by
  rw [declaredNames, fold, foldItems_eq_map]
  rfl

/-- A plain node declares what its children declare. -/
theorem declaredNames_inert {l : Option Location} {shape : Shape Tree}
    (h : shape.isInert = true) : (Tree.node l shape).declaredNames = namesBelow shape := by
  rw [declaredNames, fold_node, ← namesBelow_eq]
  cases shape with
  | program | function | variableDeclarator => cases h
  | _ => rfl

/-- So does a program. -/
theorem declaredNames_program (l : Option Location) (body : Tree) :
    (Tree.node l (.program body)).declaredNames = namesBelow (.program body) := by
  rw [declaredNames, fold_node, ← namesBelow_eq]
  rfl

/-- The declaration of a function declares its name. -/
theorem declaredNames_function (l : Option Location) (id params body : Tree) :
    (Tree.node l (.function .declaration id params body)).declaredNames = declaredName id := by
  rw [declaredNames, fold_node]
  rfl

/-- A declarator declares its name, and then what its children declare. -/
theorem declaredNames_declarator (l : Option Location) (id init : Tree) :
    (Tree.node l (.variableDeclarator id init)).declaredNames = (do
      let names ← declaredName id
      let more ← namesBelow (.variableDeclarator id init)
      return names ++ more) := by
  rw [declaredNames, fold_node, ← namesBelow_eq]
  rfl

/-- The declared name of an identifier is the text in it. -/
theorem nameText?_of_declaredName {id : Tree} {names : List Text}
    (h : declaredName id = .ok names) : names = id.nameText?.toList := by
  unfold declaredName name at h
  unfold nameText?
  -- The name of an identifier is a text, and nothing else is a name.
  cases found : id.name? with
  | none => rw [found] at h; cases h
  | some t =>
    simp only [found, bind, Except.bind, pure, Except.pure] at h
    split at h
    · cases h
      rfl
    · rename_i other
      split at h
      · cases h
      · cases h
        split
        · rename_i same
          cases same
          exact (other _ rfl).elim
        · rfl

/-- Where looking for declared names succeeds, it finds them. -/
theorem eq_ownNames {t : Tree} {names : List Text} (h : t.declaredNames = .ok names) :
    names = t.ownNames := by
  -- By induction on the size of the tree.
  induction size : sizeOf t using Nat.strongRecOn generalizing t names with
  | _ size ih =>
  cases t with
  | tuple items =>
    have parts : ∀ u ∈ items, ∀ names, u.declaredNames = .ok names → names = u.ownNames := by
      intro u hu names found
      have smaller := List.sizeOf_lt_of_mem hu
      rw [tuple.sizeOf_spec] at size
      exact ih _ (by omega) found rfl
    rw [declaredNames_tuple] at h
    cases found : (items.map declaredNames).mapM id with
    | error e => rw [found] at h; cases h
    | ok rows =>
      rw [found] at h
      cases h
      rw [eq_of_mapM_id parts found, ownNames_tuple, List.flatMap_def]
  | node l shape =>
    -- What is below a node is joined from its parts.
    have below {names : List Text} (found : namesBelow shape = .ok names) :
        names = shape.parts.flatMap ownNames := by
      have parts : ∀ u ∈ shape.parts, ∀ names, u.declaredNames = .ok names →
          names = u.ownNames := by
        intro u hu names found
        obtain ⟨field, hfield, rfl⟩ := List.mem_map.mp hu
        exact ih _ (size ▸ sizeOf_child_lt hfield) found rfl
      unfold namesBelow at found
      cases rows : (shape.parts.map declaredNames).mapM id with
      | error e => rw [rows] at found; cases found
      | ok rows' =>
        rw [rows] at found
        cases found
        rw [eq_of_mapM_id parts rows, List.flatMap_def]
    -- A node that declares nothing hands on what is below it.
    by_cases inert : shape.isInert = true
    · rw [declaredNames_inert inert] at h
      rw [ownNames_inert inert]
      exact below h
    · cases shape with
      | program body =>
        rw [declaredNames_program] at h
        rw [ownNames_program]
        exact below h
      | function form id params body =>
        cases form with
        | declaration =>
          rw [declaredNames_function] at h
          rw [nameText?_of_declaredName h]
          rfl
        | expression =>
          cases h
          rfl
      -- A declarator declares its own name first.
      | variableDeclarator id init =>
        rw [declaredNames_declarator] at h
        cases first : declaredName id with
        | error e => rw [first] at h; cases h
        | ok own =>
          rw [first] at h
          cases rest : namesBelow (.variableDeclarator id init) with
          | error e => rw [rest] at h; cases h
          | ok more =>
            rw [rest] at h
            cases h
            rw [nameText?_of_declaredName first, below rest, ownNames_declarator]
            simp [Shape.parts, Shape.children]
      | _ => exact (inert rfl).elim
  | _ =>
    cases h
    rfl

end Tree

namespace Validity

open Tree

/-- A name has a name to declare. -/
theorem declaredName_of_isName {id : Tree} (h : IsName id) :
    ∃ names, declaredName id = .ok names := by
  obtain ⟨l, spelled⟩ := h
  exact ⟨_, rfl⟩

/-- The names of a well-formed tree can be collected: this goes by parts. -/
theorem byParts_declaredNames {checked : Bool} :
    ByParts checked fun t => ∃ names, t.declaredNames = .ok names where
  -- A plain value declares nothing.
  plain {t} h := by
    cases t with
    | null | bool | int | num | text => exact ⟨[], rfl⟩
    | _ => cases h
  tuple h := by
    obtain ⟨rows, found⟩ := mapM_id_ok h
    rw [declaredNames_tuple, found]
    exact ⟨_, rfl⟩
  inert inert _ h := by
    obtain ⟨rows, found⟩ := mapM_id_ok h
    rw [declaredNames_inert inert, namesBelow, found]
    exact ⟨_, rfl⟩
  declarator {l id init} name h := by
    -- The name of the declarator is an identifier, so that it can be read.
    obtain ⟨own, first⟩ := declaredName_of_isName name
    have parts : ∀ u ∈ (Shape.variableDeclarator id init).parts,
        ∃ names, u.declaredNames = .ok names := by
      obtain ⟨li, spelled⟩ := name
      exact forall₂ ⟨[], rfl⟩ h
    obtain ⟨rows, rest⟩ := mapM_id_ok parts
    rw [declaredNames_declarator, first, namesBelow, rest]
    exact ⟨_, rfl⟩
  program {c l ss} wf h := by
    obtain ⟨rows, found⟩ := mapM_id_ok h
    have parts : ∀ u ∈ (Shape.program (Tree.tuple ss)).parts,
        ∃ names, u.declaredNames = .ok names := by
      refine forall₁ ?_
      rw [declaredNames_tuple, found]
      exact ⟨_, rfl⟩
    obtain ⟨rows, found⟩ := mapM_id_ok parts
    rw [declaredNames_program, namesBelow, found]
    exact ⟨_, rfl⟩
  function {c l lb form id ps ss} wf h := by
    -- A function declares its own name, if it is a declaration.
    cases form with
    | expression => exact ⟨[], rfl⟩
    | declaration =>
      rw [declaredNames_function]
      cases wf with
      | function named => exact declaredName_of_isName (named rfl)

/-- On well-formed trees, looking for declared names finds them. -/
theorem WellFormed.declaredNames {checked : Bool} {c : Targets} {t : Tree}
    (h : WellFormed checked c t) : t.declaredNames = .ok t.ownNames := by
  obtain ⟨names, found⟩ := h.byParts byParts_declaredNames
  rw [found, eq_ownNames found]

end Validity

/-! ## Declarations of functions -/

namespace Tree

/-- A declaration of a function, with its name, parameters and statements. -/
inductive Declaration : Tree → Text → List Tree → List Tree → Prop where
  | mk (l li lb : Option Location) (x : Text) (ps ss : List Tree) :
    Declaration (.node l (.function .declaration (.node li (.identifier (.text x))) (.tuple ps)
      (.node lb (.block (.tuple ss))))) x ps ss

/-- Whether a tree is a declaration of a function. -/
def IsDeclaration (t : Tree) : Prop := ∃ x ps ss, t.Declaration x ps ss

end Tree

/-- A well-formed declaration of a function has a name, a row of parameters and a block. -/
theorem Validity.WellFormed.isDeclaration {checked : Bool} {c : Validity.Targets} {f : Tree}
    (wf : Validity.WellFormed checked c f) (kind : f.hasKind .functionDeclaration = true) :
    f.IsDeclaration := by
  cases wf with
  | @function _ l form id ps lb ss named =>
    cases form with
    | declaration =>
      obtain ⟨li, spelled⟩ := named rfl
      exact ⟨_, _, _, .mk ..⟩
    | expression => cases kind
  | @forEach _ _ domain => cases domain <;> cases kind
  | @forEachDeclared _ _ domain => cases domain <;> cases kind
  | @jump _ _ jump => cases jump <;> cases kind
  | @bareJump _ _ jump => cases jump <;> cases kind
  | _ => cases kind

end TailLoop
