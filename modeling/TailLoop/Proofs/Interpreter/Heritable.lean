import TailLoop.Proofs.Elimination.OwnNodes
import TailLoop.Proofs.Interpreter.JumpSafety

/-!
# Properties of code that its parts have

What is said of code has to hold of the parts of the code that run: the items of rows, the fields of
nodes that are no functions, and the functions that a body declares (`Heritable.item`,
`Heritable.field`, `Heritable.hoisted`). It is enough that it passes from a row to its items and
from a node to its children.
-/

namespace TailLoop.Tree

/-- The parts of a list lie within something if each of them does. -/
theorem flatMap_subset {α β : Type} {f : α → List β} {l : List α} {within : List β} :
    l.flatMap f ⊆ within ↔ ∀ a ∈ l, f a ⊆ within := by
  constructor
  · exact fun h a ha b hb => h (List.mem_flatMap.mpr ⟨a, ha, hb⟩)
  · intro h b hb
    obtain ⟨a, ha, hb⟩ := List.mem_flatMap.mp hb
    exact h a ha hb

/-- A property of trees that passes to their parts, but for those of functions. -/
structure Heritable (P : Tree → Prop) : Prop where
  plain {t} (h : t.isPlain = true) : P t
  place (l : Location) : P (.place l)
  tuple {items} : P (.tuple items) ↔ ∀ u ∈ items, P u
  list {items u} (h : P (.list items)) (hu : u ∈ items) : P u
  part {l shape u} (inert : (Tree.node l shape).isFunction = false) (h : P (.node l shape))
    (hu : u ∈ shape.parts) : P u
  /-- The name of the kind of a node that is not of the language. -/
  kind {l name children} (h : P (.node l (.generic name children))) : P name

namespace Heritable

variable {P : Tree → Prop} (heritable : Heritable P) {t u : Tree}

include heritable

/-- A property that passes on to parts holds of the items of what is taken for a row. -/
theorem item {ts : List Tree} (h : P t) (row : t.items = .ok ts) (hu : u ∈ ts) : P u := by
  cases t with
  | tuple items =>
    cases row
    exact heritable.tuple.mp h u hu
  | list items =>
    cases row
    exact heritable.list h hu
  | text x =>
    cases row
    obtain ⟨c, -, rfl⟩ := List.mem_map.mp hu
    exact heritable.plain rfl
  | dict entries =>
    cases row
    obtain ⟨e, -, rfl⟩ := List.mem_map.mp hu
    exact heritable.plain rfl
  | _ => cases row

/-- It holds of a place, which has no nodes. -/
theorem placeOf (l : Option Location) : P (placeOf l) := by
  cases l with
  | none => exact heritable.plain rfl
  | some l => exact heritable.place l

/-- The fields of a node among its children, and those of a node that is not of the language. -/
theorem mem_fields {l : Option Location} {shape : Shape Tree} {name : Text}
    (inert : (Tree.node l shape).isFunction = false) (h : P (.node l shape))
    (mem : (name, u) ∈ fields shape) : P u := by
  have part (mem : (name, u) ∈ shape.children) : P u :=
    heritable.part inert h (List.mem_map_of_mem (f := Prod.snd) mem)
  cases shape with
  | generic kind children =>
    rcases List.mem_cons.mp mem with ⟨⟨⟩⟩ | mem
    · exact heritable.kind h
    · cases List.mem_singleton.mp mem
      refine heritable.tuple.mpr (List.forall_mem_map.mpr fun c hc => ?_)
      refine heritable.tuple.mpr (List.forall_mem_cons.mpr ⟨heritable.plain rfl, ?_⟩)
      exact List.forall_mem_singleton.mpr (heritable.part inert h (List.mem_map_of_mem hc))
  | _ => exact part mem

/-- It holds of what a field of a node holds. -/
theorem field {name : Text} (h : P t) (inert : t.isFunction = false) (found : t.field name = .ok u) :
    P u := by
  unfold Tree.field at found
  split at found
  · rename_i v here
    cases found
    -- A field is a part of a location, the place of a node, the name of an identifier or a part of
    -- a node.
    cases t with
    | place l =>
      obtain ⟨before, after, listed, -⟩ := List.lookup_eq_some_iff.mp here
      have mem : (name, u) ∈ l.parts := listed ▸ List.mem_append_right _ List.mem_cons_self
      have plain : ∀ c ∈ l.parts, c.2.isPlain = true := by
        simp only [Location.parts, List.forall_mem_cons]
        exact ⟨rfl, rfl, rfl, rfl, rfl, rfl, rfl, rfl, nofun⟩
      exact heritable.plain (plain _ mem)
    | node l shape =>
      simp only [field?] at here
      split at here
      · cases here
        exact heritable.placeOf l
      · split at here
        · cases shape with
          | identifier name =>
            cases here
            exact heritable.part inert h List.mem_cons_self
          | function => cases inert
          | _ => cases here
        · obtain ⟨before, after, listed, -⟩ := List.lookup_eq_some_iff.mp here
          exact heritable.mem_fields inert h
            (listed ▸ List.mem_append_right _ List.mem_cons_self)
    | _ => cases here
  · cases found

omit heritable in
/-- What hoisting finds below a node it finds in a part of it. -/
theorem mem_functions_below {shape : Shape Tree} {found : Declarations}
    (h : hoistedBelow shape = .ok found) {f : Tree} (hf : f ∈ found.functions) :
    ∃ v ∈ shape.parts, ∃ d, v.hoisted = .ok d ∧ f ∈ d.functions := by
  rw [hoistedBelow_parts] at h
  cases parts : (shape.parts.map Tree.hoisted).mapM id with
  | error e => rw [parts] at h; cases h
  | ok ds =>
    rw [parts] at h
    cases h
    obtain ⟨d, hd, hf⟩ := mem_concat_functions.mp hf
    obtain ⟨v, hv, hoists⟩ := mem_of_mapM_id parts hd
    exact ⟨v, hv, d, hoists, hf⟩

/-- Hoisting finds function declarations, which have the property of the tree. -/
theorem hoisted {found : Declarations} (ht : P t) (h : t.hoisted = .ok found) {f : Tree}
    (hf : f ∈ found.functions) :
    (∃ l id params body, f = .node l (.function .declaration id params body)) ∧ P f := by
  -- By induction on the size of the tree: what is hoisted is a declaration in it, outside of inner
  -- functions.
  induction size : sizeOf t using Nat.strongRecOn generalizing t found with
  | _ size ih =>
  cases t with
  | tuple items =>
    rw [Tree.hoisted, fold, foldItems_eq_map] at h
    change ((items.map Tree.hoisted).mapM id).map Declarations.concat = _ at h
    cases parts : (items.map Tree.hoisted).mapM id with
    | error e => rw [parts] at h; cases h
    | ok ds =>
      rw [parts] at h
      cases h
      obtain ⟨d, hd, hf⟩ := mem_concat_functions.mp hf
      obtain ⟨u, hu, hoists⟩ := mem_of_mapM_id parts hd
      have smaller := List.sizeOf_lt_of_mem hu
      rw [tuple.sizeOf_spec] at size
      exact ih _ (by omega) (heritable.tuple.mp ht u hu) hoists hf rfl
  | node l shape =>
    have below {found : Declarations} (h : hoistedBelow shape = .ok found)
        (hf : f ∈ found.functions) (inert : (Tree.node l shape).isFunction = false) :
        (∃ l id params body, f = .node l (.function .declaration id params body)) ∧ P f := by
      obtain ⟨u, hu, d, hoists, hf⟩ := mem_functions_below h hf
      obtain ⟨c, hc, rfl⟩ := List.mem_map.mp hu
      exact ih _ (size ▸ sizeOf_child_lt hc) (heritable.part inert ht hu) hoists hf rfl
    cases shape with
    | function form id params body =>
      cases form with
      | declaration =>
        cases h
        cases List.mem_singleton.mp hf
        exact ⟨⟨l, id, params, body, rfl⟩, ht⟩
      | expression =>
        cases h
        cases hf
    | variableDeclarator id init =>
      have named : (Tree.node l (.variableDeclarator id init)).hoisted = (do
          let name ← id.name
          let more ← hoistedBelow (.variableDeclarator id init)
          return .append ⟨[name], []⟩ more) := by
        rw [Tree.hoisted, fold_node, ← hoistedBelow_eq]
        rfl
      rw [named] at h
      obtain ⟨name, -, h⟩ := Elimination.bind_ok.mp h
      obtain ⟨more, inner, h⟩ := Elimination.bind_ok.mp h
      cases h
      exact below inner hf rfl
    | _ =>
      rw [hoisted_inert ⟨rfl, rfl⟩] at h
      exact below h hf rfl
  | _ =>
    cases h
    cases hf

end Heritable

/-! ## Code of the language -/

/-- Code all of whose nodes are of the language and have a property. Of a function, only the
statements are looked at. -/
inductive Consists (Q : Tree → Prop) : Tree → Prop where
  | plain {t} (h : t.isPlain = true) : Consists Q t
  | place (l : Location) : Consists Q (.place l)
  | tuple {items} (parts : ∀ u ∈ items, Consists Q u) : Consists Q (.tuple items)
  | node {l shape} (proper : shape.IsProper)
      (inert : (Tree.node l shape).isFunction = false) (own : Q (.node l shape))
      (parts : ∀ u ∈ shape.parts, Consists Q u) : Consists Q (.node l shape)
  | function {l form id ps lb ss}
      (own : Q (.node l (.function form id (.tuple ps) (.node lb (.block (.tuple ss))))))
      (parts : ∀ s ∈ ss, Consists Q s) :
    Consists Q (.node l (.function form id (.tuple ps) (.node lb (.block (.tuple ss)))))

/-- To consist of nodes of the language with a property passes on to parts. -/
theorem heritable_consists (Q : Tree → Prop) : Heritable (Consists Q) where
  plain h := .plain h
  place l := .place l
  tuple := by
    refine ⟨fun h => ?_, .tuple⟩
    cases h with
    | plain h => cases h
    | tuple parts => exact parts
  list h _ := by
    cases h with
    | plain h => cases h
  part inert h hu := by
    cases h with
    | plain h => cases h
    | node _ _ _ parts => exact parts _ hu
    | function => cases inert
  kind h := by
    cases h with
    | plain h => cases h
    | node proper => exact proper.elim

/-- Code whose nodes have a property consists of nodes with every weaker one. -/
theorem Consists.imp {Q Q' : Tree → Prop} {t : Tree} (h : Consists Q t) (weaker : ∀ u, Q u → Q' u) :
    Consists Q' t := by
  induction h with
  | plain h => exact .plain h
  | place l => exact .place l
  | tuple _ ih => exact .tuple ih
  | node proper inert own _ ih => exact .node proper inert (weaker _ own) ih
  | function own _ ih => exact .function (weaker _ own) ih

/-- Of such code the root has the property. -/
theorem Consists.own {Q : Tree → Prop} {l : Option Location} {shape : Shape Tree}
    (h : Consists Q (.node l shape)) : Q (.node l shape) := by
  cases h with
  | plain h => cases h
  | node _ _ own _ => exact own
  | function own _ => exact own

/-- The statements of a function of such code have it. -/
theorem Consists.statements {Q : Tree → Prop} {f : Tree} (h : Consists Q f) :
    Consists Q (.tuple f.statements) := by
  unfold Tree.statements
  split
  · cases h with
    | plain h => cases h
    | node _ _ _ parts => exact parts _ List.mem_cons_self
  · cases h with
    | plain h => cases h
    | node _ inert => cases inert
    | function _ parts => exact .tuple parts
  · exact .tuple nofun

/-- What is declared are declarators. -/
theorem Consists.declarator {Q : Tree → Prop} {l : Option Location} {declarations kind t : Tree}
    (h : Consists Q (.node l (.variableDeclaration declarations kind))) {ds : List Tree}
    (row : declarations.items = .ok ds) (ht : t ∈ ds) :
    ∃ l id init, t = .node l (.variableDeclarator id init) ∧ Consists Q t := by
  -- The declaration is well-formed as far as its row goes, which holds declarators only.
  cases h with
  | plain h => cases h
  | node proper inert own parts =>
    obtain ⟨_, rfl, kinds⟩ := proper
    cases row
    have part := (heritable_consists Q).tuple.mp (parts _ List.mem_cons_self) t ht
    have isDeclarator := kinds t ht
    cases t with
    | node l shape =>
      cases shape with
      | variableDeclarator id init => exact ⟨l, id, init, rfl, part⟩
      | function form => cases form <;> cases isDeclarator
      | forEach domain => cases domain <;> cases isDeclarator
      | jump kind => cases kind <;> cases isDeclarator
      | _ => cases isDeclarator
    | _ => cases isDeclarator

end TailLoop.Tree

namespace TailLoop.Validity

open Tree

/-- A well-formed tree consists of nodes of the language, and the functions in it are well-formed. -/
theorem WellFormed.consists {checked : Bool} {c : Targets} {t : Tree} {P : Tree → Prop}
    (wf : WellFormed checked c t) (all : t.All P) :
    Consists (fun u => P u ∧ (u.isFunction = true → ∃ c, WellFormed checked c u)) t := by
  -- By induction on the judgement, with one lemma for what holds of a node and of its parts.
  refine wf.byParts (Q := fun t => t.All P → Consists _ t) ?_ all
  exact {
    plain := fun h _ => .plain h
    tuple := fun h all => .tuple fun u hu => h u hu (all.item hu)
    inert := fun inert proper h all =>
      have inert := isFunction_of_isInert inert
      .node proper inert ⟨all.self, fun function => nomatch inert.symm.trans function⟩
        fun u hu => h u hu (all.child hu)
    declarator := fun {l id init} name h all => by
      have last : init ∈ (Shape.variableDeclarator id init).parts :=
        List.mem_of_getElem? (i := 1) rfl
      refine .node trivial rfl ⟨all.self, nofun⟩ (forall₂ ?_ (h (all.child last)))
      obtain ⟨li, spelled⟩ := name
      have own := all.child (u := .node li (.identifier (.text _))) List.mem_cons_self
      exact .node trivial rfl ⟨own.self, nofun⟩ (forall₁ (.plain rfl))
    program := fun wf h all => by
      refine .node trivial rfl ⟨all.self, nofun⟩ (forall₁ (.tuple fun s hs => h s hs ?_))
      exact (all.child List.mem_cons_self).item hs
    function := fun wf h all => by
      refine .function ⟨all.self, fun _ => ⟨_, wf⟩⟩ fun s hs => h s hs ?_
      exact ((all.child (List.mem_of_getElem? (i := 2) rfl)).child List.mem_cons_self).item hs }

end TailLoop.Validity
