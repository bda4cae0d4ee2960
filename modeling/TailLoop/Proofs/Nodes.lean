import TailLoop.Proofs.Simulation.Occurrences
import TailLoop.Proofs.WellFormed

/-!
# The nodes of a well-formed tree

The rules of well-formed trees leave out none of the nodes of a tree: each is well-formed where it
stands (`WellFormed.all`). What is said of well-formed nodes one by one thus holds of all nodes of a
tree that is.
-/

namespace TailLoop

namespace Validity

open Tree

variable {checked : Bool} {c : Targets}

/-- A property holds of all nodes of a node if it does of the node and of those of its parts. -/
theorem all_parts {P : Tree → Prop} {l : Option Location} {shape : Shape Tree}
    (self : P (.node l shape)) (parts : ∀ u ∈ shape.parts, u.All P) :
    (Tree.node l shape).All P :=
  all_node.mpr ⟨self, fun _ hc => parts _ (List.mem_map_of_mem hc)⟩

/-- The nodes of a part that may be absent. -/
theorem all_optional {P : Tree → Prop} {t : Tree} (h : t.isNull = false → t.All P) : t.All P := by
  cases t with
  | null => exact all_of_isPlain rfl
  | _ => exact h rfl

/-- Every node of a well-formed tree is well-formed. -/
theorem WellFormed.all {t : Tree} (wf : WellFormed checked c t) :
    t.All fun u => ∃ c', WellFormed checked c' u := by
  -- Names are well-formed wherever they stand.
  have named {t : Tree} (name : IsName t) : t.All fun u => ∃ c', WellFormed checked c' u := by
    obtain ⟨l, spelled⟩ := name
    exact all_parts ⟨{}, .identifier spelled⟩ (forall₁ (all_of_isPlain rfl))
  -- By induction on the judgement: the premises speak of the parts, and rows are taken apart.
  induction wf with
  | program kinds parts ih =>
    exact all_parts ⟨_, .program kinds parts⟩ (forall₁ (all_tuple.mpr ih))
  | @function c l form id ps lb ss isNamed name params kinds parts ih =>
    refine all_parts ⟨c, .function isNamed name params kinds parts⟩ (List.forall_mem_cons.mpr
      ⟨all_optional fun present => named (name present), forall₂ ?_ ?_⟩)
    · exact all_tuple.mpr fun p hp => named (params p hp)
    · exact all_parts ⟨{}, .block kinds parts⟩ (forall₁ (all_tuple.mpr ih))
  | block kinds parts ih =>
    exact all_parts ⟨_, .block kinds parts⟩ (forall₁ (all_tuple.mpr ih))
  | returnStatement kind part ih =>
    exact all_parts ⟨_, .returnStatement kind part⟩ (forall₁ (all_optional ih))
  | variableDeclaration some kinds parts ih =>
    exact all_parts ⟨_, .variableDeclaration some kinds parts⟩
      (forall₂ (all_tuple.mpr ih) (all_of_isPlain rfl))
  | variableDeclarator name kind part ih =>
    exact all_parts ⟨_, .variableDeclarator name kind part⟩
      (forall₂ (named name) (all_optional ih))
  | ifStatement testKind testPart kind part elseKind elsePart ih1 ih2 ih3 =>
    exact all_parts ⟨_, .ifStatement testKind testPart kind part elseKind elsePart⟩
      (forall₃ ih1 ih2 (all_optional ih3))
  | forStatement initKind initPart testKind testPart stepKind stepPart kind part ih1 ih2 ih3 ih4 =>
    exact all_parts
      ⟨_, .forStatement initKind initPart testKind testPart stepKind stepPart kind part⟩
      (List.forall_mem_cons.mpr
        ⟨all_optional ih1, forall₃ (all_optional ih2) (all_optional ih3) ih4⟩)
  | @forEachDeclared c l domain ld le id right body name rightKind rightPart kind part ih1 ih2 =>
    refine all_parts ⟨c, .forEachDeclared name rightKind rightPart kind part⟩ (forall₃ ?_ ih1 ih2)
    -- The judgement does not mention the declaration in the head, which is well-formed by itself.
    have declarator : WellFormed checked c (.node le (.variableDeclarator id .null)) :=
      .variableDeclarator name nofun nofun
    refine all_parts ⟨c, .variableDeclaration (List.cons_ne_nil _ _)
      (forall₁ rfl) (forall₁ declarator)⟩ (forall₂ ?_ (all_of_isPlain rfl))
    exact all_tuple.mpr
      (forall₁ (all_parts ⟨c, declarator⟩ (forall₂ (named name) (all_of_isPlain rfl))))
  | forEach target leftPart rightKind rightPart kind part ih1 ih2 ih3 =>
    exact all_parts ⟨_, .forEach target leftPart rightKind rightPart kind part⟩
      (forall₃ ih1 ih2 ih3)
  | whileStatement testKind testPart kind part ih1 ih2 =>
    exact all_parts ⟨_, .whileStatement testKind testPart kind part⟩ (forall₂ ih1 ih2)
  | doWhileStatement testKind testPart kind part ih1 ih2 =>
    exact all_parts ⟨_, .doWhileStatement testKind testPart kind part⟩ (forall₂ ih2 ih1)
  | expressionStatement kind part ih =>
    exact all_parts ⟨_, .expressionStatement kind part⟩ (forall₁ ih)
  | @emptyStatement c l => exact all_parts ⟨c, .emptyStatement⟩ nofun
  | bareJump inLoop => exact all_parts ⟨_, .bareJump inLoop⟩ (forall₁ (all_of_isPlain rfl))
  | jump spelled reaches =>
    exact all_parts ⟨_, .jump spelled reaches⟩ (forall₁ (named (.mk _ spelled)))
  | labeled spelled fresh kind part ih =>
    exact all_parts ⟨_, .labeled spelled fresh kind part⟩ (forall₂ (named (.mk _ spelled)) ih)
  | identifier spelled => exact named (.mk _ spelled)
  | @literal c l value plain =>
    exact all_parts ⟨c, .literal plain⟩ (forall₁ (all_of_isPlain plain))
  | array kinds parts ih =>
    exact all_parts ⟨_, .array kinds parts⟩ (forall₁ (all_tuple.mpr ih))
  | call kind part kinds parts ih ihs =>
    exact all_parts ⟨_, .call kind part kinds parts⟩ (forall₂ ih (all_tuple.mpr ihs))
  | member kind part name ih =>
    exact all_parts ⟨_, .member kind part name⟩ (forall₃ ih (named name) (all_of_isPlain rfl))
  | computedMember kind part keyKind keyPart ih1 ih2 =>
    exact all_parts ⟨_, .computedMember kind part keyKind keyPart⟩
      (forall₃ ih1 ih2 (all_of_isPlain rfl))
  | conditional testKind testPart kind part elseKind elsePart ih1 ih2 ih3 =>
    exact all_parts ⟨_, .conditional testKind testPart kind part elseKind elsePart⟩
      (forall₃ ih1 ih2 ih3)
  | assignment known target leftPart kind part ih1 ih2 =>
    exact all_parts ⟨_, .assignment known target leftPart kind part⟩
      (forall₃ (all_of_isPlain rfl) ih1 ih2)
  | sequence some kinds parts ih =>
    exact all_parts ⟨_, .sequence some kinds parts⟩ (forall₁ (all_tuple.mpr ih))
  | binary known leftKind leftPart kind part ih1 ih2 =>
    exact all_parts ⟨_, .binary known leftKind leftPart kind part⟩
      (forall₃ (all_of_isPlain rfl) ih1 ih2)
  | logical known leftKind leftPart kind part ih1 ih2 =>
    exact all_parts ⟨_, .logical known leftKind leftPart kind part⟩
      (forall₃ (all_of_isPlain rfl) ih1 ih2)
  | unary known kind part ih =>
    exact all_parts ⟨_, .unary known kind part⟩
      (forall₃ (all_of_isPlain rfl) ih (all_of_isPlain rfl))
  | update known target part ih =>
    exact all_parts ⟨_, .update known target part⟩
      (forall₃ (all_of_isPlain rfl) ih (all_of_isPlain rfl))

end Validity

end TailLoop
