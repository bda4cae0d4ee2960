import TailLoop.Proofs.Printing
import TailLoop.Proofs.Reading.NumberTexts
import TailLoop.Proofs.Reading.Spellings

/-!
# Trees that are printed and read back

A printed program has braces around a consequent that would take the `else` after it (`Tree.braced`);
apart from them and from locations it is read as the tree it was printed from. That asks for more than
validity: a name must be no keyword, for example (`Tree.isLegible`).
-/

namespace TailLoop

namespace Tree

/-- The form of a node, with braces around a consequent that would take the `else` after it. -/
def bracedShape : Tree → Shape Tree → Shape Tree
  | .node _ (.ifStatement _ consequent alternate), .ifStatement test yes no =>
    if !alternate.isNull && Print.endsOpen consequent then .ifStatement test (block [yes]) no
    else .ifStatement test yes no
  | _, shape => shape

/-- The rules that put braces around consequents. -/
def braceRules : Rules Tree where
  atom := id
  tuple := .tuple
  list _ := .list
  dict _ := .dict
  node t shape := .node t.location? (bracedShape t shape)

/-- A tree with braces around every consequent that would take the `else` after it. -/
def braced (t : Tree) : Tree := fold braceRules t

variable {l : Option Location} {s : Shape Tree} {ts : List Tree}

/-- Braces in a row are those in its items. -/
theorem braced_tuple : (tuple ts).braced = tuple (ts.map braced) := by
  unfold braced
  rw [fold, foldItems_eq_map]
  rfl

/-- Braces in a node that is no condition are those in its fields. -/
theorem braced_node (other : s.kind ≠ .ifStatement) :
    (node l s).braced = node l (s.map braced) := by
  unfold braced
  rw [fold_node]
  cases s with
  | ifStatement => exact (other rfl).elim
  | _ => rfl

/-- A condition whose first branch takes no `else` gets braces in its parts only. -/
theorem braced_if {test yes no : Tree} (tame : no.isNull = true ∨ Print.endsOpen yes = false) :
    (node l (.ifStatement test yes no)).braced =
      node l (.ifStatement test.braced yes.braced no.braced) := by
  unfold braced
  rw [fold_node]
  refine congrArg (node l) (if_neg ?_)
  rw [Bool.and_eq_true, Bool.not_eq_true']
  rintro ⟨some, opens⟩
  rcases tame with none | shut
  · rw [none] at some
    cases some
  · rw [shut] at opens
    cases opens

/-- A condition whose first branch would take the `else` gets braces around it. -/
theorem braced_if_open {test yes no : Tree} (some : no.isNull = false)
    (opens : Print.endsOpen yes = true) : (node l (.ifStatement test yes no)).braced =
      node l (.ifStatement test.braced (block [yes.braced]) no.braced) := by
  unfold braced
  rw [fold_node]
  exact congrArg (node l) (if_pos (by rw [some, opens]; rfl))

/-! ## Legible trees -/

/-- Whether a node is printed as what it is read as: a name is no keyword, a number has no sign, a
sequence has several parts, and a unary operator stands in front. -/
def isLegible : Tree → Bool
  | .node _ (.identifier (.text name)) => Source.isFree name
  | .node _ (.literal (.num (.finite negative _ _ _))) => !negative
  | .node _ (.literal (.num _)) => false
  | .node _ (.literal (.int n)) => 0 ≤ n
  | .node _ (.sequence (.tuple expressions)) => 2 ≤ expressions.length
  | .node _ (.unary _ _ (.bool isPrefix)) => isPrefix
  | .node _ (.unary ..) => false
  | _ => true

/-- Whether the text of a number is read as the number. -/
def readsBack : Tree → Bool
  | .node _ (.literal (.num d)) => Double.ofText? d.numeral == some d
  | .node _ (.literal (.int n)) =>
    (Double.ofText? (Text.ofInt n)).any fun d => (int n).same (.num d)
  | _ => true

/-- All nodes of a tree are legible, and its numbers are read back. -/
def Legible (t : Tree) : Prop := ∀ u ∈ t.nodes, u.isLegible = true ∧ u.readsBack = true

instance (t : Tree) : Decidable t.Legible :=
  inferInstanceAs (Decidable (∀ u ∈ t.nodes, u.isLegible = true ∧ u.readsBack = true))

variable {t u : Tree} {name : Text}

/-- The children of a legible node are legible. -/
theorem Legible.child (h : (node l s).Legible) (hu : (name, u) ∈ s.children) : u.Legible :=
  fun v hv => h v (mem_nodes_child hu hv)

/-- The items of a legible row are legible. -/
theorem Legible.item (h : (tuple ts).Legible) (hu : u ∈ ts) : u.Legible :=
  fun v hv => h v (mem_nodes_item hu hv)

/-- A legible node is so by itself, and its number is read back. -/
theorem Legible.self (h : (node l s).Legible) :
    (node l s).isLegible = true ∧ (node l s).readsBack = true := by
  apply h
  rw [nodes_node]
  exact List.mem_cons_self ..

end Tree

end TailLoop
