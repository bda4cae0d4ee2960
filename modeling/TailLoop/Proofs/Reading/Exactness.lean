import TailLoop.Proofs.Reading.Programs
import TailLoop.Proofs.Sameness

/-!
# Numbers that are read are doubles

There is no literal of an integer in a program that is read (`exact_of_parse`), because the only
rule that makes a literal of a number makes one of a double. What the other rules make is exact if
their parts are.
-/

namespace TailLoop.Source

open Grammar

/-- A content without literals of integers. -/
def IsExact : Content → Prop
  | .tree t => t.Exact
  | .trees ts => ∀ t ∈ ts, t.Exact
  | .token _ => True

/-- Parts without literals of integers. -/
def ExactParts (ps : Parts) : Prop := ∀ p ∈ ps, IsExact p.content

/-- A plain value has no nodes. -/
theorem exact_of_isPlain {t : Tree} (plain : t.isPlain = true) : t.Exact := by
  intro v hv
  rw [Tree.nodes_of_isPlain plain] at hv
  cases hv

/-- A row is exact if its items are. -/
theorem exact_tuple {ts : List Tree} (h : ∀ t ∈ ts, t.Exact) : (Tree.tuple ts).Exact := by
  intro v hv
  rw [Tree.nodes_tuple, List.mem_flatten] at hv
  obtain ⟨_, hl, hv⟩ := hv
  obtain ⟨t, ht, rfl⟩ := List.mem_map.mp hl
  exact h t ht v hv

/-- A node is exact if it is no literal of an integer and its fields are exact. -/
theorem exact_node {l : Option Location} {shape : Shape Tree}
    (own : (Tree.node l shape).isExact = true) (parts : ∀ c ∈ shape.children, c.2.Exact) :
    (Tree.node l shape).Exact := by
  intro v hv
  rw [Tree.nodes_node, List.mem_cons, List.mem_flatten] at hv
  rcases hv with rfl | ⟨_, hl, hv⟩
  · exact own
  · obtain ⟨c, hc, rfl⟩ := List.mem_map.mp hl
    exact parts c hc v hv

namespace ExactParts

variable {ps : Parts}

/-- The tree at a position is exact. -/
theorem tree (h : ExactParts ps) (i : Nat) : (ps.tree i).Exact := by
  unfold Parts.tree
  split
  · rename_i t l found
    exact h _ (List.mem_of_getElem? found)
  · exact exact_of_isPlain rfl

/-- The trees at a position are exact. -/
theorem trees (h : ExactParts ps) (i : Nat) : ∀ t ∈ ps.trees i, t.Exact := by
  unfold Parts.trees
  split
  · rename_i ts l found
    exact h _ (List.mem_of_getElem? found)
  · exact List.forall_mem_nil _

/-- The row at a position is exact. -/
theorem row (h : ExactParts ps) (i : Nat) : (ps.row i).Exact := exact_tuple (h.trees i)

end ExactParts

/-- A name is exact. -/
theorem exact_name (ps : Parts) (i : Nat) : (ps.name i).Exact :=
  exact_node rfl (List.forall_mem_singleton.mpr (exact_of_isPlain rfl))

/-- A variable that is declared without a value. -/
theorem exact_declarator (ps : Parts) (i : Nat) :
    (ps.nodeAt i (.variableDeclarator (ps.name i) absent)).Exact :=
  exact_node rfl (List.forall_mem_cons.mpr
    ⟨exact_name ps i, List.forall_mem_singleton.mpr (exact_of_isPlain rfl)⟩)

/-! ## Rules -/

/-- A rule keeps contents exact. -/
def KeepsExact (r : Rule) : Prop := ∀ file ps result, ExactParts ps →
  content file r ps = .ok result → IsExact result

section Rules

variable {name : Text}

/-- What is one of its parts. -/
theorem keepsExact_keep {i : Nat} : KeepsExact (.keep i) := by
  intro file ps result exact made
  cases made
  cases found : ps[i]? with
  | none => exact exact_of_isPlain rfl
  | some part => exact exact part (List.mem_of_getElem? found)

/-- A row. -/
theorem keepsExact_gather {trees : Parts → List Tree}
    (h : ∀ ps, ExactParts ps → ∀ t ∈ trees ps, t.Exact) : KeepsExact (.gather trees) := by
  intro file ps result exact made
  cases made
  exact h ps exact

/-- A node. -/
theorem keepsExact_make {shape : Parts → Shape Tree}
    (own : ∀ l ps, (Tree.node l (shape ps)).isExact = true)
    (parts : ∀ ps, ExactParts ps → ∀ c ∈ (shape ps).children, c.2.Exact) :
    KeepsExact (.make name shape) := by
  intro file ps result exact made
  change (if file = [] then _ else _) = _ at made
  split at made
  · cases made
  · cases made
    exact exact_node (own _ ps) (parts ps exact)

/-- A node that assigns to one of its parts. -/
theorem keepsExact_checked {target : Nat} {role : Parts → Text} {shape : Parts → Shape Tree}
    (own : ∀ l ps, (Tree.node l (shape ps)).isExact = true)
    (parts : ∀ ps, ExactParts ps → ∀ c ∈ (shape ps).children, c.2.Exact) :
    KeepsExact (.makeChecked name target role shape) := by
  intro file ps result exact made
  rw [Rule.makeChecked, content] at made
  split at made
  · cases made
  · rename_i result' built
    split at built
    · cases built
      split at made
      · cases made
      · cases made
        exact exact_node (own _ ps) (parts ps exact)
    · cases built

/-- A loop over a collection. -/
theorem keepsExact_forEach {domain : Domain} : KeepsExact (.makeForEach name domain) := by
  intro file ps result exact made
  rw [Rule.makeForEach, content] at made
  split at made
  · cases made
  · rename_i result' built
    dsimp only at built
    split at built
    · cases built
      split at made
      · cases made
      · cases made
        refine exact_node rfl (List.forall_mem_cons.mpr ⟨exact.tree 2,
          List.forall_mem_cons.mpr ⟨exact.tree 4, List.forall_mem_singleton.mpr (exact.tree 6)⟩⟩)
    · cases built

/-- A name. -/
theorem keepsExact_name : KeepsExact (.plain fun ps => .ok (.tree (ps.name 0))) := by
  intro file ps result exact made
  cases made
  exact exact_name ps 0

/-- A number, which is a double. -/
theorem keepsExact_number : KeepsExact (.plain numberContent) := by
  intro file ps result exact made
  change (numberContent ps).mapError ofRefusal = _ at made
  unfold numberContent at made
  split at made
  · cases made
    exact exact_node rfl (List.forall_mem_singleton.mpr (exact_of_isPlain rfl))
  · cases made

/-- A string. -/
theorem keepsExact_string : KeepsExact (.plain fun ps =>
    .ok (.tree (ps.nodeAt 0 (.literal (.text (Literal.unquote (ps.text 0))))))) := by
  intro file ps result exact made
  cases made
  exact exact_node rfl (List.forall_mem_singleton.mpr (exact_of_isPlain rfl))

end Rules

/-- Every rule of the grammar keeps contents exact. -/
theorem keepsExact_productions : ∀ p ∈ productions, KeepsExact p.rule := by
  simp only [productions, structureProductions, statementProductions, controlProductions,
    simpleProductions, binaryProductions, expressionProductions, primaryProductions,
    signProductions, operands, oneOf, List.forall_mem_append, List.forall_mem_cons,
    List.forall_mem_map, List.not_mem_nil, false_implies, implies_true, and_true]
  and_intros
  all_goals first
    | exact keepsExact_keep
    | exact fun sign known => keepsExact_keep
    | exact keepsExact_name
    | exact keepsExact_number
    | exact keepsExact_string
    | exact keepsExact_forEach
    | refine keepsExact_gather fun ps exact => ?_
    | refine keepsExact_make (fun _ _ => rfl) fun ps exact => ?_
    | refine keepsExact_checked (fun _ _ => rfl) fun ps exact => ?_
  -- What is left are the fields of each node and the trees of each row.
  all_goals simp only [Shape.children, declared, List.forall_mem_cons, List.forall_mem_append,
    List.not_mem_nil, false_implies, implies_true, and_true]
  all_goals and_intros
  all_goals first
    | exact exact.tree _
    | exact exact.row _
    | exact exact.trees _
    | exact exact_name _ _
    | exact exact_of_isPlain rfl
    | exact exact_tuple (List.forall_mem_nil _)
    | exact exact_tuple (List.forall_mem_singleton.mpr (exact_declarator _ _))
    | exact exact_tuple (List.forall_mem_cons.mpr ⟨exact.tree _, exact.trees _⟩)

/-- Parts of which each has an exact content. -/
theorem exactParts_of_forall₂ {symbols : List Symbol} {ps : Parts}
    (h : List.Forall₂ (fun X part => Fits X part.content ∧ IsExact part.content) symbols ps) :
    ExactParts ps := by
  induction h with
  | nil => exact List.forall_mem_nil _
  | cons first _ ih => exact List.forall_mem_cons.mpr ⟨first.2, ih⟩

/-- The reader keeps contents exact. -/
theorem keptByReading_isExact (source : Text) :
    KeptByReading source fun X c => Fits X c ∧ IsExact c where
  token allowed t terminal n inside matched :=
    ⟨(keptByReading_fits source).token allowed t terminal n inside matched, trivial⟩
  phrase p hp file parts result both made :=
    ⟨(keptByReading_fits source).phrase p hp file parts result (both.imp fun _ _ => And.left) made,
      keepsExact_productions p hp file parts result (exactParts_of_forall₂ both) made⟩

/-- There is no literal of an integer in a program that is read. -/
theorem exact_of_parse {file source : Text} {t : Tree} (h : parse file source = .ok t) :
    t.Exact := by
  obtain ⟨c, ⟨fits, exact⟩, same⟩ := (keptByReading_isExact source).of_parse h
  cases c with
  | tree u =>
    rw [same u rfl]
    exact exact
  | _ => cases fits

end TailLoop.Source
