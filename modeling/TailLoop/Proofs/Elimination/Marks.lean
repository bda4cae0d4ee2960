import TailLoop.Proofs.Elimination.Rewrites

/-!
# Marks

The nodes of a tree that elimination does not add and drop as it needs them: programs, functions,
declarations, jumps, labels and `return` statements, wherever they stand (`Tree.marks`). They make a
measure, in which a function stands for itself and for what its statements hold. The name and the
parameters of a function hold no marks if they are identifiers, and then the marks are just the nodes
that are not quiet (`filter_nodes`).
-/

namespace TailLoop

namespace Tree

/-- Whether a node is of a form that elimination adds and drops as it needs it. -/
def isQuiet : Tree → Bool
  | .node _ shape => shape.isQuiet
  | _ => true

/-- The rules that list marks: a node that is not quiet, then those below it. -/
def markRules : Rules (List Tree) where
  atom _ := []
  tuple := List.flatten
  list _ _ := []
  dict _ _ := []
  node t shape :=
    match shape with
    | .function _ _ _ body => t :: body
    | shape => if shape.isQuiet then shape.parts.flatten else t :: shape.parts.flatten

/-- The nodes of a tree that are not quiet, each before those below it. -/
def marks (t : Tree) : List Tree := fold markRules t

section Lists

variable {l : Option Location} {shape : Shape Tree}

/-- The marks of a row are those of its items. -/
theorem marks_tuple (ts : List Tree) : (Tree.tuple ts).marks = ts.flatMap marks := by
  rw [marks, fold, foldItems_eq_map, List.flatMap_def]
  rfl

/-- The marks of a quiet node are those of its parts. -/
theorem marks_quiet (h : shape.isQuiet = true) :
    (Tree.node l shape).marks = shape.parts.flatMap marks := by
  rw [marks, fold_node, List.flatMap_def]
  cases shape with
  | program | function | returnStatement | variableDeclaration | variableDeclarator | jump
  | labeled | generic => cases h
  | _ => rfl

/-- A node that is neither quiet nor a function is a mark. -/
theorem marks_other (quiet : shape.isQuiet = false)
    (function : (Tree.node l shape).isFunction = false) :
    (Tree.node l shape).marks = .node l shape :: shape.parts.flatMap marks := by
  rw [marks, fold_node, List.flatMap_def]
  cases shape with
  | function => cases function
  | generic kind children => exact congrArg (_ :: ·) (congrArg List.flatten (Shape.parts_map marks _))
  | program | returnStatement | variableDeclaration | variableDeclarator | jump | labeled => rfl
  | _ => cases quiet

/-- There are no marks in plain data. -/
theorem marks_of_isPlain {t : Tree} (h : t.isPlain = true) : t.marks = [] := by
  cases t with
  | null | bool | int | num | text => rfl
  | _ => cases h

end Lists

/-- The name and the parameters of a function hold no marks. -/
def HasQuietHead (f : Tree) : Prop :=
  ∀ l form id params body, f = .node l (.function form id params body) →
    id.All (·.isQuiet = true) ∧ params.All (·.isQuiet = true)

/-- A filter that lets nothing through leaves nothing. -/
theorem filter_eq_nil {α : Type} {p : α → Bool} {l : List α} (h : ∀ a ∈ l, p a = false) :
    l.filter p = [] :=
  List.filter_eq_nil_iff.mpr fun a ha => Bool.eq_false_iff.mp (h a ha)

/-- A tree of quiet nodes has none that are not. -/
theorem filter_of_all {t : Tree} (h : t.All (·.isQuiet = true)) :
    t.nodes.filter (fun u => !u.isQuiet) = [] :=
  filter_eq_nil fun u hu => by rw [h u hu]; rfl

/-- The functions in a field of a node are functions in the node. -/
theorem scopes_of_part {l : Option Location} {shape : Shape Tree}
    (function : (Tree.node l shape).isFunction = false) {u : Tree} (hu : u ∈ shape.parts) :
    ∀ f ∈ u.scopes, f ∈ (Tree.node l shape).scopes := by
  intro f hf
  -- All nodes hand on what their parts hold, but programs, functions and declarators.
  by_cases inert : shape.isInert = true
  · rw [scopes_inert inert]
    exact List.mem_flatMap.mpr ⟨u, hu, hf⟩
  · cases shape with
    | program body =>
      rw [List.mem_singleton.mp hu] at hf
      exact List.mem_cons_of_mem _ hf
    | function => cases function
    | variableDeclarator id init =>
      rw [scopes_declarator, List.mem_append]
      -- The declarator hands on both of its parts.
      rcases List.mem_cons.mp hu with rfl | hu
      · exact .inl hf
      · rw [List.mem_singleton.mp hu] at hf
        exact .inr hf
    | _ => exact (inert rfl).elim

/-- A node that is not quiet is a mark. -/
theorem mem_marks {t u : Tree} (same : t.nodes.filter (fun u => !u.isQuiet) = t.marks)
    (hu : u ∈ t.nodes) (quiet : u.isQuiet = false) : u ∈ t.marks := by
  rw [← same, List.mem_filter]
  exact ⟨hu, by rw [quiet]; rfl⟩

/-- Where all functions have quiet heads, the marks are the nodes that are not quiet. -/
theorem filter_nodes {t : Tree} (h : ∀ f ∈ t.scopes, f.HasQuietHead) :
    t.nodes.filter (fun u => !u.isQuiet) = t.marks := by
  -- By induction on the size: what is filtered from the parts is filtered from the node.
  induction size : sizeOf t using Nat.strongRecOn generalizing t with
  | _ size ih =>
  cases t with
  | tuple items =>
    rw [scopes_tuple] at h
    rw [nodes_row, marks_tuple, List.filter_flatMap]
    refine List.flatMap_congr fun u hu => ?_
    have smaller := List.sizeOf_lt_of_mem hu
    rw [tuple.sizeOf_spec] at size
    exact ih _ (by omega) (fun f hf => h f (List.mem_flatMap.mpr ⟨u, hu, hf⟩)) rfl
  | node l shape =>
    have part {u : Tree} (hu : u ∈ shape.parts) (inner : ∀ f ∈ u.scopes, f ∈ (node l shape).scopes) :
        u.nodes.filter (fun u => !u.isQuiet) = u.marks := by
      obtain ⟨c, hc, rfl⟩ := List.mem_map.mp hu
      exact ih _ (size ▸ sizeOf_child_lt hc) (fun f hf => h f (inner f hf)) rfl
    rw [nodes_parts]
    -- The head of a function holds quiet nodes only, so that its body counts alone.
    by_cases function : (node l shape).isFunction = true
    · cases shape with
      | function form id params body =>
        have self := h (.node l (.function form id params body)) List.mem_cons_self
        obtain ⟨quietId, quietParams⟩ := self l form id params body rfl
        have inner := part (u := body) (Shape.mem_parts 2 rfl)
          fun f hf => List.mem_cons_of_mem _ hf
        have parts : (Shape.function form id params body).parts = [id, params, body] := rfl
        rw [parts, List.filter_cons]
        simp only [List.flatMap_cons, List.flatMap_nil, List.append_nil, List.filter_append,
          filter_of_all quietId, filter_of_all quietParams, inner]
        rfl
      | _ => cases function
    -- At all other nodes, what is filtered from the parts is joined.
    · rw [Bool.not_eq_true] at function
      have parts : (shape.parts.flatMap nodes).filter (fun u => !u.isQuiet) =
          shape.parts.flatMap marks := by
        rw [List.filter_flatMap]
        exact List.flatMap_congr fun u hu => part hu (scopes_of_part function hu)
      cases quiet : shape.isQuiet with
      | true =>
        rw [marks_quiet quiet, ← parts, List.filter_cons, isQuiet, quiet]
        rfl
      | false =>
        rw [marks_other quiet function, ← parts, List.filter_cons, isQuiet, quiet]
        rfl
  | _ => rfl

end Tree

/-! ## Functions in well-formed trees -/

namespace Validity

open Tree

section WellFormed

variable {checked : Bool} {c : Targets} {t : Tree}

/-- A name is one node. -/
theorem nodes_of_isName (h : IsName t) : t.nodes = [t] := by
  obtain ⟨l, spelled⟩ := h
  rfl

/-- A well-formed function has no mark in its head. -/
theorem WellFormed.hasQuietHead (wf : WellFormed checked c t) : t.HasQuietHead := by
  have name {u : Tree} (h : IsName u) : u.All (·.isQuiet = true) := by
    obtain ⟨l, spelled⟩ := h
    intro v hv
    rw [nodes_of_isName (.mk l spelled), List.mem_singleton] at hv
    rw [hv]
    rfl
  rintro l form id params body rfl
  cases wf with
  | function _ known named =>
    constructor
    · cases id with
      | null => exact all_of_isPlain rfl
      | _ => exact name (known rfl)
    · exact all_tuple.mpr fun p hp => name (named p hp)

/-- In a well-formed tree, the marks are the nodes that are not quiet. -/
theorem WellFormed.filter_nodes (wf : WellFormed checked c t) :
    t.nodes.filter (fun u => !u.isQuiet) = t.marks := by
  refine Tree.filter_nodes fun f hf => ?_
  obtain ⟨c', valid⟩ := wf.scopes f hf
  exact valid.hasQuietHead

/-- A name is no function. -/
theorem isFunction_of_isName (h : IsName t) : t.isFunction = false := by
  obtain ⟨l, spelled⟩ := h
  rfl

/-- That all functions are scopes depends on the parts of a tree alone. -/
theorem byParts_functions : ByParts checked fun t =>
    ∀ f ∈ t.nodes, f.isFunction = true → f ∈ t.scopes where
  plain h := by
    rw [nodes_of_isPlain h]
    exact nofun
  tuple h := by
    rw [nodes_row, scopes_tuple]
    intro f hf function
    obtain ⟨u, hu, hf⟩ := List.mem_flatMap.mp hf
    exact List.mem_flatMap.mpr ⟨u, hu, h u hu f hf function⟩
  inert inert _ h := by
    rw [nodes_parts, scopes_inert inert]
    intro f hf function
    rcases List.mem_cons.mp hf with rfl | hf
    · cases (isFunction_of_isInert inert).symm.trans function
    · obtain ⟨u, hu, hf⟩ := List.mem_flatMap.mp hf
      exact List.mem_flatMap.mpr ⟨u, hu, h u hu f hf function⟩
  declarator {l id init} name h := by
    rw [nodes_parts, scopes_declarator]
    intro f hf function
    rcases List.mem_cons.mp hf with rfl | hf
    -- The declarator itself is no function, and neither is its name.
    · cases function
    have fields : (Shape.variableDeclarator id init).parts = [id, init] := rfl
    rw [fields, List.flatMap_cons, List.flatMap_singleton, List.mem_append] at hf
    rcases hf with hf | hf
    · rw [nodes_of_isName name, List.mem_singleton] at hf
      rw [hf, isFunction_of_isName name] at function
      cases function
    · exact List.mem_append_right _ (h f hf function)
  program {c l ss} wf h := by
    rw [nodes_parts, scopes_program]
    intro f hf function
    rcases List.mem_cons.mp hf with rfl | hf
    · cases function
    · have fields : (Shape.program (Tree.tuple ss)).parts = [.tuple ss] := rfl
      rw [fields, List.flatMap_singleton, nodes_row] at hf
      obtain ⟨u, hu, hf⟩ := List.mem_flatMap.mp hf
      exact List.mem_cons_of_mem _ (List.mem_flatMap.mpr ⟨u, hu, h u hu f hf function⟩)
  function {c l lb form id ps ss} wf h := by
    obtain ⟨quietId, quietParams⟩ := wf.hasQuietHead l form id (.tuple ps) _ rfl
    -- A quiet node is no function.
    have notQuiet {f : Tree} (function : f.isFunction = true) (quiet : f.isQuiet = true) : False := by
      cases f with
      | node _ shape =>
        cases shape with
        | function => cases quiet
        | _ => cases function
      | _ => cases function
    rw [nodes_parts, scopes_function]
    intro f hf function
    rcases List.mem_cons.mp hf with rfl | hf
    · exact List.mem_cons_self
    obtain ⟨part, hpart, mem⟩ := List.mem_flatMap.mp hf
    have fields : (Shape.function form id (Tree.tuple ps) (.node lb (.block (.tuple ss)))).parts =
        [id, .tuple ps, .node lb (.block (.tuple ss))] := rfl
    rw [fields, List.mem_cons, List.mem_cons, List.mem_singleton] at hpart
    rcases hpart with same | same | same
    -- The name and the parameters are quiet; functions are found in the body only.
    all_goals rw [same] at mem
    · exact (notQuiet function (quietId f mem)).elim
    · exact (notQuiet function (quietParams f mem)).elim
    · rw [nodes_parts, List.mem_cons] at mem
      rcases mem with rfl | mem
      · cases function
      · have row : (Shape.block (Tree.tuple ss)).parts = [.tuple ss] := rfl
        rw [row, List.flatMap_singleton, nodes_row] at mem
        obtain ⟨u, hu, mem⟩ := List.mem_flatMap.mp mem
        exact List.mem_cons_of_mem _ (List.mem_flatMap.mpr ⟨u, hu, h u hu f mem function⟩)

/-- The functions in a well-formed tree are well-formed. -/
theorem WellFormed.function_node (wf : WellFormed checked c t) {f : Tree} (hf : f ∈ t.nodes)
    (function : f.isFunction = true) : ∃ c', WellFormed checked c' f :=
  wf.scopes f (wf.byParts byParts_functions f hf function)

end WellFormed

end Validity

namespace Elimination

open Tree

/-! ## The measure -/

/-- The nodes of a tree that are not quiet. -/
def markMeasure : Measure Tree where
  of := marks
  plain := marks_of_isPlain
  row := marks_tuple
  quiet := marks_quiet

/-- The measure of marks lists them. -/
theorem markMeasure_of (t : Tree) : markMeasure.of t = t.marks := rfl

/-! ## Measures that list marks -/

/-- A measure that lists the nodes that are not quiet, each before those of its fields. What it makes
of a function is left open. -/
structure Measure.Lists (μ : Measure Tree) : Prop where
  node : ∀ {l : Option Location} {shape : Shape Tree}, shape.isQuiet = false →
    (Tree.node l shape).isFunction = false →
    μ.of (.node l shape) = .node l shape :: shape.parts.flatMap μ.of

namespace Measure.Lists

variable {μ : Measure Tree} (lists : μ.Lists)
variable {l ln : Option Location} {kind : JumpKind} {x : Text} {e : Tree} {ss ds : List Tree}

include lists

/-- A program is listed before its statements. -/
theorem program : μ.of (.node l (.program (.tuple ss))) =
    .node l (.program (.tuple ss)) :: ss.flatMap μ.of := by
  rw [lists.node rfl rfl, ← μ.row ss]
  exact congrArg (_ :: ·) (List.flatMap_singleton μ.of (.tuple ss))

/-- A `return` is listed before its value. -/
theorem returned :
    μ.of (.node l (.returnStatement e)) = .node l (.returnStatement e) :: μ.of e := by
  rw [lists.node rfl rfl]
  exact congrArg (_ :: ·) (List.flatMap_singleton μ.of e)

/-- A label is listed before its statement. -/
theorem labeled : μ.of (.node l (.labeled (.node ln (.identifier (.text x))) e)) =
    .node l (.labeled (.node ln (.identifier (.text x))) e) :: μ.of e := by
  have parts : μ.Same [.node ln (.identifier (.text x)), e] [e] := .cons .identifier (.refl [e])
  rw [lists.node rfl rfl, ← List.flatMap_singleton μ.of e]
  exact congrArg (_ :: ·) parts

/-- A declarator is listed before its initial value. -/
theorem declarator : μ.of (.node l (.variableDeclarator (.node ln (.identifier (.text x))) e)) =
    .node l (.variableDeclarator (.node ln (.identifier (.text x))) e) :: μ.of e := by
  have parts : μ.Same [.node ln (.identifier (.text x)), e] [e] := .cons .identifier (.refl [e])
  rw [lists.node rfl rfl, ← List.flatMap_singleton μ.of e]
  exact congrArg (_ :: ·) parts

/-- A declaration is listed before its declarators. -/
theorem declaration : μ.of (.node l (.variableDeclaration (.tuple ds) (.text varKind))) =
    .node l (.variableDeclaration (.tuple ds) (.text varKind)) :: ds.flatMap μ.of := by
  have parts : μ.Same [.tuple ds, .text varKind] (ds ++ []) := .cons (.row ds) (.atom rfl)
  rw [List.append_nil] at parts
  rw [lists.node rfl rfl]
  exact congrArg (_ :: ·) parts

/-- A jump to a label is listed. -/
theorem jump : μ.of (.node l (.jump kind (.node ln (.identifier (.text x))))) =
    [.node l (.jump kind (.node ln (.identifier (.text x))))] := by
  have parts : μ.Same [.node ln (.identifier (.text x))] [] := .identifier
  rw [lists.node rfl rfl]
  exact congrArg (_ :: ·) parts

/-- A bare jump is listed. -/
theorem bareJump : μ.of (.node l (.jump kind .null)) = [.node l (.jump kind .null)] := by
  have parts : μ.Same [Tree.null] [] := .atom rfl
  rw [lists.node rfl rfl]
  exact congrArg (_ :: ·) parts

end Measure.Lists

/-- Marks are listed node by node. -/
theorem lists_marks : markMeasure.Lists := ⟨marks_other⟩

/-- A function is listed before its statements. -/
theorem marks_function (l : Option Location) (form : FunctionForm) (id : Tree) (ps : List Tree)
    (lb : Option Location) (ss : List Tree) : (functionOf l form id ps lb ss).marks =
      functionOf l form id ps lb ss :: ss.flatMap marks := by
  have body : (Tree.node lb (.block (.tuple ss))).marks = ss.flatMap marks := by
    rw [marks_quiet rfl, ← marks_tuple ss]
    exact List.flatMap_singleton marks (.tuple ss)
  rw [← body, functionOf, marks, fold_node]
  rfl

end Elimination

end TailLoop
