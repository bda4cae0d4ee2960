import TailLoop.Proofs.Elimination.Preservation
import TailLoop.Proofs.Elimination.Scopes
import TailLoop.Proofs.Nodes
import TailLoop.Proofs.RoundTrip.Unwrapping

/-!
# Rewritten programs are legible

A node is writable if it is read as what it is from its text, and a tree is if all its nodes are.
Elimination makes of a writable program one that is writable when it is unwrapped, provided that the
names of generated code are no keywords (`Eliminates.writable`): it moves nodes around, and what it
adds are names that it knows from the program, temporaries, its label, `undefined` and `true`.

`Legibly` says so of a piece of a program, with the names of the scope around it. It holds of pieces
that follow each other (`Legibly.cons`), and of nodes from their fields (`Legibly.node`).
-/

namespace TailLoop

namespace Tree

/-- Whether a node is read as what it is from its text. -/
def isWritable (t : Tree) : Bool :=
  t.isLegible && t.readsBack && t.isExact

/-- All nodes of a tree are read as what they are. -/
def Writable (t : Tree) : Prop := t.All (·.isWritable = true)

/-- All nodes of a tree are read as what they are if the tree is legible and holds no integers. -/
theorem writable_iff {t : Tree} : t.Writable ↔ t.Legible ∧ t.Exact := by
  have node (u : Tree) :
      u.isWritable = true ↔ (u.isLegible = true ∧ u.readsBack = true) ∧ u.isExact = true := by
    rw [isWritable, Bool.and_eq_true, Bool.and_eq_true]
  constructor
  · exact fun h => ⟨fun u hu => ((node u).mp (h u hu)).1, fun u hu => ((node u).mp (h u hu)).2⟩
  · exact fun h u hu => (node u).mpr ⟨h.1 u hu, h.2 u hu⟩

end Tree

/-- Whether nodes of a form are read as what they are, whatever their fields hold, and do not start
with an expression that may be unwrapped. -/
def Shape.isSimple {α : Type} : Shape α → Bool
  | .identifier _ | .literal _ | .sequence _ | .unary .. | .expressionStatement _
  | .forStatement .. => false
  | _ => true

namespace Elimination

open Tree Validity

/-- The label of generated code is a name and no keyword, and so is what a temporary starts with; no
keyword starts like a temporary. -/
structure Naming.IsFree (n : Naming) : Prop where
  loop : Source.isFree n.loop = true
  temporary : Text.isName n.temporary = true
  apart : ∀ keyword ∈ Source.keywordSpellings, ¬ n.temporary <+: keyword

/-- The usual names of generated code are of this kind. -/
theorem Naming.isFree_default : ({} : Naming).IsFree where
  loop := by decide
  temporary := by decide
  apart := by decide

/-- A name that is no keyword is a name. -/
theorem isName_of_isFree {x : Text} (free : Source.isFree x = true) : Text.isName x = true :=
  (Bool.and_eq_true_iff.mp free).1

/-- The temporary for a parameter is no keyword. -/
theorem Naming.IsFree.prefixed {n : Naming} (naming : n.IsFree) {x : Text}
    (free : Source.isFree x = true) : Source.isFree (n.temporary ++ x) = true := by
  rw [Source.isFree, Bool.and_eq_true]
  refine ⟨isName_append naming.temporary (isName_of_isFree free), ?_⟩
  rw [Bool.not_eq_true', ← Bool.not_eq_true, List.contains_iff_mem]
  exact fun known => naming.apart _ known (List.prefix_append _ _)

/-- A well-formed piece of a program whose nodes are read as what they are. -/
structure Readable (t : Tree) : Prop where
  writable : t.Writable
  wellFormed : t.All fun u => ∃ c, WellFormed false c u

/-- A tree whose nodes are read as what they are when it is unwrapped. -/
def Unwrapped (t : Tree) : Prop := t.unwrapped.Writable

variable {n : Naming} {l l' : Option Location} {shape shape' : Shape Tree} {t u : Tree}
  {ts us : List Tree} {x : Text}

/-! ## Pieces of the program -/

namespace Readable

/-- The parts of a readable node are readable. -/
theorem child (h : Readable (node l shape)) (hu : u ∈ shape.parts) : Readable u :=
  ⟨h.writable.child hu, h.wellFormed.child hu⟩

/-- The items of a readable row are readable. -/
theorem item (h : Readable (.tuple ts)) (hu : u ∈ ts) : Readable u :=
  ⟨h.writable.item hu, h.wellFormed.item hu⟩

/-- A readable node is well-formed. -/
theorem own (h : Readable (node l shape)) : ∃ c, WellFormed false c (node l shape) :=
  h.wellFormed.self

/-- A readable name is no keyword. -/
theorem isFree (h : Readable (node l (.identifier (.text x)))) : Source.isFree x = true := by
  have self : (Source.isFree x && true && true) = true := h.writable.self
  rwa [Bool.and_true, Bool.and_true] at self

end Readable

/-! ## Trees that are read as what they are -/

/-- A node of a simple form is read as what it is. -/
theorem isWritable_of_isSimple (simple : shape.isSimple = true) :
    (node l shape).isWritable = true := by
  cases shape <;> first | rfl | cases simple

/-- Plain values hold no nodes. -/
theorem unwrapped_plain (plain : t.isPlain = true) : Unwrapped t := by
  rw [Unwrapped, unwrapped_of_isPlain plain]
  exact all_of_isPlain plain

/-- Trees are read as what they are when they are unwrapped one by one. -/
theorem writable_map (h : ∀ t ∈ ts, Unwrapped t) : ∀ t ∈ ts.map unwrapped, t.Writable := by
  intro _ hu
  obtain ⟨t, ht, rfl⟩ := List.mem_map.mp hu
  exact h t ht

/-- A row, from its items. -/
theorem unwrapped_row (items : ∀ t ∈ ts, Unwrapped t) : Unwrapped (.tuple ts) := by
  rw [Unwrapped, unwrapped_tuple]
  exact all_tuple.mpr (writable_map items)

/-- A node in which nothing is unwrapped but in its fields. -/
theorem unwrapped_parts (own : (node l (shape.map unwrapped)).isWritable = true)
    (other : isWrapper shape.kind = false) (parts : ∀ u ∈ shape.parts, Unwrapped u) :
    Unwrapped (node l shape) := by
  rw [Unwrapped, unwrapped_other other]
  refine all_parts own ?_
  rw [Shape.parts_map]
  exact writable_map parts

/-- A node of a simple form, from its fields. -/
theorem unwrapped_simple (simple : shape.isSimple = true)
    (parts : ∀ u ∈ shape.parts, Unwrapped u) : Unwrapped (node l shape) := by
  refine unwrapped_parts (isWritable_of_isSimple ?_) ?_ parts
  · cases shape <;> first | rfl | cases simple
  · cases shape with
    | expressionStatement | forStatement => cases simple
    | function form => cases form <;> rfl
    | forEach domain => cases domain <;> rfl
    | jump kind => cases kind <;> rfl
    | _ => rfl

/-- A name that is no keyword. -/
theorem unwrapped_identifier (free : Source.isFree x = true) :
    Unwrapped (node l (.identifier (.text x))) := by
  refine unwrapped_parts ?_ rfl (forall₁ (unwrapped_plain rfl))
  change (Source.isFree x && true && true) = true
  rw [free]
  rfl

/-- The assignment of a sequence is a part of it. -/
theorem writable_single (h : t.Writable) : t.single.Writable := by
  rcases single_cases t with same | ⟨_, _, _, _, _, rfl, same⟩
  · rwa [same]
  · rw [same]
    have row := h.child List.mem_cons_self
    exact row.item List.mem_cons_self

/-- An expression as a statement. -/
theorem unwrapped_statement (h : Unwrapped t) : Unwrapped (node l (.expressionStatement t)) := by
  rw [Unwrapped, unwrapped_node]
  exact all_parts rfl (forall₁ (writable_single h))

/-- What takes the place of a tree in a row. -/
theorem unwrapped_spliced (h : Unwrapped t)
    (rows : ∀ l body, t = .node l (.block body) → ∃ ss, body = .tuple ss)
    (spliced : t.spliced = .ok ts) : ∀ u ∈ ts, Unwrapped u := by
  cases kind : t.hasKind .blockStatement with
  | false =>
    rw [spliced_of_hasKind kind] at spliced
    cases spliced
    exact forall₁ h
  | true =>
    obtain ⟨l, body, rfl⟩ := eq_block kind
    obtain ⟨ss, rfl⟩ := rows l body rfl
    cases spliced
    rw [Unwrapped, unwrapped_other rfl, Shape.map, unwrapped_tuple] at h
    have row : (tuple (ts.map unwrapped)).Writable := h.child (.head _)
    exact fun u hu => row.item (List.mem_map_of_mem hu)

/-! ## Generated code -/

/-- The value at an index is one of the given values or `undefined`. -/
theorem unwrapped_valueAt (h : ∀ v ∈ us, Unwrapped v) (i : Nat) :
    Unwrapped (Tree.valueAt us i) := by
  unfold Tree.valueAt
  split
  · exact unwrapped_identifier (by decide)
  · exact unwrapped_identifier (by decide)
  · rename_i found
    exact h _ (List.mem_of_getElem? found)

/-- Assignments to names in order. -/
theorem unwrapped_assignAll {names : List Text} (free : ∀ x ∈ names, Source.isFree x = true)
    (values : ∀ v ∈ us, Unwrapped v) : ∀ t ∈ Tree.assignAll names us, Unwrapped t := by
  intro t ht
  obtain ⟨i, hi, rfl⟩ := List.mem_mapIdx.mp ht
  refine unwrapped_statement (unwrapped_simple rfl (forall₃ (unwrapped_plain rfl) ?_ ?_))
  · exact unwrapped_identifier (free _ (List.getElem_mem hi))
  · exact unwrapped_valueAt values i

/-- A declaration of names. -/
theorem unwrapped_declaration {names : List Text} (free : ∀ x ∈ names, Source.isFree x = true) :
    Unwrapped (Tree.declaration (names.map (Tree.declarator · .null))) := by
  refine unwrapped_simple rfl (forall₂ (unwrapped_row (List.forall_mem_map.mpr fun x hx => ?_))
    (unwrapped_plain rfl))
  exact unwrapped_simple rfl (forall₂ (unwrapped_identifier (free x hx)) (unwrapped_plain rfl))

/-- The declarations at the start of a body. -/
theorem unwrapped_declareAll {names : List Text} (free : ∀ x ∈ names, Source.isFree x = true) :
    ∀ t ∈ Tree.declareAll names, Unwrapped t := by
  unfold Tree.declareAll
  split
  · exact List.forall_mem_nil _
  · exact forall₁ (unwrapped_declaration free)

/-- A declaration for each name. -/
theorem unwrapped_declareEach {names : List Text} (free : ∀ x ∈ names, Source.isFree x = true) :
    ∀ t ∈ Tree.declareEach names [], Unwrapped t := by
  intro t ht
  obtain ⟨i, hi, rfl⟩ := List.mem_mapIdx.mp ht
  exact unwrapped_declaration (List.forall_mem_singleton.mpr (free _ (List.getElem_mem hi)))

/-- The directive of a body. -/
theorem unwrapped_directive (strict : t.isStrictDirective = true) : Unwrapped t := by
  unfold Tree.isStrictDirective Tree.isDirective at strict
  split at strict
  · refine unwrapped_statement (unwrapped_parts rfl rfl ?_)
    exact forall₁ (unwrapped_plain rfl)
  · cases strict

/-- The assignments for a tail call. -/
theorem unwrapped_callAssignments {s : Scope} (free : s.Spelled Source.isFree)
    (arguments : ∀ e ∈ us, Unwrapped e) : ∀ t ∈ callAssignments s us, Unwrapped t := by
  -- Parameters, values and temporaries are written by themselves.
  have params : ∀ ch ∈ changes s.params us, Source.isFree ch.param = true := fun ch hch =>
    free.params _ (List.mem_of_getElem? (mem_changes hch).1)
  have values : ∀ ch ∈ changes s.params us, Unwrapped ch.value := fun ch hch => by
    rw [(mem_changes hch).2]
    cases found : us[ch.index]? with
    | none => exact unwrapped_identifier (by decide)
    | some e => exact arguments e (List.mem_of_getElem? found)
  have temporaries := spelled_callTemporaries free us
  unfold callAssignments
  split
  · refine List.forall_mem_append.mpr ⟨unwrapped_assignAll temporaries
      (List.forall_mem_map.mpr values), unwrapped_assignAll (List.forall_mem_map.mpr params) ?_⟩
    exact List.forall_mem_map.mpr fun x hx => unwrapped_identifier (temporaries x hx)
  · exact unwrapped_assignAll
      (List.forall_mem_map.mpr fun ch hch => params ch (mem_lastFirst hch))
      (List.forall_mem_map.mpr fun ch hch => values ch (mem_lastFirst hch))

/-- A converted call. -/
theorem unwrapped_converted {s : Scope} (naming : n.IsFree) (free : s.Spelled Source.isFree)
    (arguments : ∀ e ∈ us, Unwrapped e) :
    Unwrapped (node l (.block (.tuple (callAssignments s us ++ [jumpBack n])))) := by
  refine unwrapped_simple rfl (forall₁ (unwrapped_row (List.forall_mem_append.mpr
    ⟨unwrapped_callAssignments free arguments, forall₁ ?_⟩)))
  exact unwrapped_simple rfl (forall₁ (unwrapped_identifier naming.loop))

/-- A body that is made to end with a `return`. -/
theorem unwrapped_endWithReturn (h : ∀ t ∈ ts, Unwrapped t) :
    ∀ t ∈ endWithReturn ts, Unwrapped t := by
  unfold endWithReturn
  split
  · exact h
  · exact List.forall_mem_append.mpr
      ⟨h, forall₁ (unwrapped_simple rfl (forall₁ (unwrapped_plain rfl)))⟩

/-- The loop around a body. -/
theorem unwrapped_loopAround {locals : List Text} (naming : n.IsFree)
    (free : ∀ x ∈ locals, Source.isFree x = true) (h : ∀ t ∈ ts, Unwrapped t) :
    Unwrapped (loopAround n locals ts) := by
  have resets : ∀ t ∈ Tree.assignAll locals [], Unwrapped t :=
    unwrapped_assignAll free (List.forall_mem_nil _)
  have body := unwrapped_endWithReturn (List.forall_mem_append.mpr ⟨resets, h⟩)
  have test : Unwrapped (Tree.new (.literal (.bool true))) :=
    unwrapped_parts rfl rfl (forall₁ (unwrapped_plain rfl))
  refine unwrapped_simple rfl (forall₂ (unwrapped_identifier naming.loop)
    (unwrapped_simple rfl (forall₂ test ?_)))
  exact unwrapped_simple rfl (forall₁ (unwrapped_row body))

/-- The statements of a finished body. -/
theorem unwrapped_finishBody {s : Scope} (naming : n.IsFree) (free : s.Spelled Source.isFree)
    (h : ∀ t ∈ ts, Unwrapped t) (finished : finishBody n s ts = .ok us) :
    ∀ t ∈ us, Unwrapped t := by
  have front : ∀ t ∈ s.directive.toList ++ Tree.declareAll s.locals, Unwrapped t :=
    List.forall_mem_append.mpr
      ⟨fun t ht => unwrapped_directive (free.directive t (Option.mem_toList.mp ht)),
        unwrapped_declareAll free.locals⟩
  cases tail : s.isTailRecursive with
  | true =>
    rw [finishBody_loop tail] at finished
    cases finished
    exact List.forall_mem_append.mpr ⟨front, List.forall_mem_append.mpr
      ⟨unwrapped_declareEach free.used, forall₁ (unwrapped_loopAround naming free.locals h)⟩⟩
  | false =>
    -- Without a loop the resets at the head are dropped, and nothing else.
    obtain ⟨rest, dropped, rfl⟩ := (finishBody_plain tail).mp finished
    exact List.forall_mem_append.mpr ⟨front, fun t ht => h t (mem_dropResets dropped t ht)⟩

/-! ## Walks -/

/-- What takes the place of readable trees, in a scope whose names are no keywords, is read as what
it is when it is unwrapped, and leaves such a scope. -/
def Legibly (s s' : State) (ts us : List Tree) : Prop :=
  s.scope.Spelled Source.isFree → (∀ t ∈ ts, Readable t) →
    s'.scope.Spelled Source.isFree ∧ ∀ u ∈ us, Unwrapped u

namespace Legibly

variable {s s1 s2 s' : State} {e e' : Tree} {ts' us' es es' ds : List Tree}

/-- Nothing takes the place of nothing. -/
theorem nil : Legibly s s [] [] := fun free _ => ⟨free, List.forall_mem_nil _⟩

/-- Trees after trees. -/
theorem append (h : Legibly s s1 ts us) (h' : Legibly s1 s' ts' us') :
    Legibly s s' (ts ++ ts') (us ++ us') := by
  intro free readable
  rw [List.forall_mem_append] at readable
  obtain ⟨free1, first⟩ := h free readable.1
  obtain ⟨free', others⟩ := h' free1 readable.2
  exact ⟨free', List.forall_mem_append.mpr ⟨first, others⟩⟩

/-- A tree before trees. -/
theorem cons (h : Legibly s s1 [t] [u]) (h' : Legibly s1 s' ts us) :
    Legibly s s' (t :: ts) (u :: us) := h.append h'

/-- What stays as it is, with nothing in it to unwrap. -/
theorem same (h : t.unwrapped = t) : Legibly s s [t] [t] := by
  intro free readable
  refine ⟨free, forall₁ ?_⟩
  rw [Unwrapped, h]
  exact (List.forall_mem_singleton.mp readable).writable

/-- Plain values stay as they are. -/
theorem plain (h : t.isPlain = true) : Legibly s s [t] [t] := same (unwrapped_of_isPlain h)

/-- A row stands for its items. -/
theorem row (h : Legibly s s' ts us) : Legibly s s' [.tuple ts] [.tuple us] := by
  intro free readable
  obtain ⟨free', items⟩ := h free fun t ht => (List.forall_mem_singleton.mp readable).item ht
  exact ⟨free', forall₁ (unwrapped_row items)⟩

/-- A node of the program stands for its parts. -/
theorem source (h : Legibly s s' shape.parts us) : Legibly s s' [node l shape] us :=
  fun free readable => h free fun _ hu => (List.forall_mem_singleton.mp readable).child hu

/-- A node of a simple form is made of its parts. -/
theorem result (h : Legibly s s' ts shape.parts) (simple : shape.isSimple = true) :
    Legibly s s' ts [node l shape] := by
  intro free readable
  obtain ⟨free', parts⟩ := h free readable
  exact ⟨free', forall₁ (unwrapped_simple simple parts)⟩

/-- A node of a simple form takes the place of one with the parts before. -/
theorem node (h : Legibly s s' shape.parts shape'.parts) (simple : shape'.isSimple = true) :
    Legibly s s' [.node l shape] [.node l' shape'] := h.source.result simple

/-- An expression becomes a statement. -/
theorem statement (h : Legibly s s' ts [e']) :
    Legibly s s' ts [.node l (.expressionStatement e')] := by
  intro free readable
  obtain ⟨free', parts⟩ := h free readable
  exact ⟨free', forall₁ (unwrapped_statement (List.forall_mem_singleton.mp parts))⟩

/-- A unary operation, whose operator stays in front. -/
theorem unary {op : Text} {isPrefix : Bool} (h : Legibly s s' [e] [e']) :
    Legibly s s' [.node l (.unary (.text op) e (.bool isPrefix))]
      [.node l (.unary (.text op) e' (.bool isPrefix))] := by
  intro free readable
  have source := List.forall_mem_singleton.mp readable
  obtain ⟨free', parts⟩ := h free (forall₁ (source.child (.tail _ (.head _))))
  refine ⟨free', forall₁ (unwrapped_parts source.writable.self rfl ?_)⟩
  exact forall₃ (unwrapped_plain rfl) (List.forall_mem_singleton.mp parts) (unwrapped_plain rfl)

/-- A sequence of several expressions. -/
theorem sequence (h : Legibly s s' es es') (length : es'.length = es.length) :
    Legibly s s' [.node l (.sequence (.tuple es))] [.node l (.sequence (.tuple es'))] := by
  intro free readable
  have source := List.forall_mem_singleton.mp readable
  obtain ⟨free', parts⟩ := h free fun e he => (source.child (.head _)).item he
  refine ⟨free', forall₁ (unwrapped_parts ?_ rfl
    (forall₁ (unwrapped_row parts)))⟩
  have several : (decide (2 ≤ es.length) && true && true) = true := source.writable.self
  rw [Shape.map, unwrapped_tuple]
  change (decide (2 ≤ (es'.map unwrapped).length) && true && true) = true
  rwa [List.length_map, length]

/-- What takes the place of a tree in a row. -/
theorem spliced (h : Legibly s s' ts [u])
    (rows : ∀ l body, u = .node l (.block body) → ∃ ss, body = .tuple ss)
    (spliced : u.spliced = .ok us) : Legibly s s' ts us := by
  intro free readable
  obtain ⟨free', parts⟩ := h free readable
  exact ⟨free', unwrapped_spliced (List.forall_mem_singleton.mp parts) rows spliced⟩

/-- A function of the program, with what its body becomes. -/
theorem function {form : FunctionForm} {id : Tree} {ps ss ss' : List Tree} {lb : Option Location}
    {scope : Scope} (naming : n.IsFree)
    (starts : Scope.ofFunction n id (.tuple ps) (.node lb (.block (.tuple ss))) = .ok scope)
    (body : s'.scope = s.scope ∧ (scope.Spelled Source.isFree → (∀ t ∈ ss, Readable t) →
      ∀ t ∈ ss', Unwrapped t)) :
    Legibly s s' [.node l (.function form id (.tuple ps) (.node lb (.block (.tuple ss))))]
      [.node l (.function form id (.tuple ps) (.node lb (.block (.tuple ss'))))] := by
  intro free readable
  have source := List.forall_mem_singleton.mp readable
  obtain ⟨_, wf⟩ := source.own
  cases wf with
  | function _ name params _ _ =>
    have row : Readable (.tuple ps) := source.child (.tail _ (.head _))
    have block : Readable (.node lb (.block (.tuple ss))) :=
      source.child (.tail _ (.tail _ (.head _)))
    -- The names of the scope are parameters and temporaries for them.
    have prefixed (x : Text) (free : Source.isFree x = true) := naming.prefixed free
    have inner := spelled_ofFunction prefixed params (fun l x hx => (row.item hx).isFree) starts
    have statements := body.2 inner fun t ht => (block.child (.head _)).item ht
    refine ⟨body.1 ▸ free, forall₁ (unwrapped_simple rfl (forall₃ ?_ (unwrapped_row fun p hp => ?_)
      (unwrapped_simple rfl (forall₁ (unwrapped_row statements)))))⟩
    · rw [Unwrapped, unwrapped_optional name]
      exact (source.child (.head _)).writable
    · rw [Unwrapped, (params p hp).unwrapped]
      exact (row.item hp).writable

end Legibly

/-- An assignment. -/
def IsAssignment (t : Tree) : Prop :=
  ∃ l operator left right, t = .node l (.assignment operator left right)

/-- Each declarator becomes an assignment. -/
theorem assignments_of_declarators {s s' : State} {ds es : List Tree}
    (h : Walks n s (.declarators ds es) s') :
    (∀ e ∈ es, IsAssignment e) ∧ es.length = ds.length := by
  induction ds generalizing s es with
  | nil =>
    cases h
    exact ⟨List.forall_mem_nil _, rfl⟩
  | cons d ds ih =>
    cases h with
    | moreDeclarators _ _ parts =>
      obtain ⟨assignments, length⟩ := ih parts
      exact ⟨List.forall_mem_cons.mpr ⟨⟨_, _, _, _, rfl⟩, assignments⟩,
        congrArg Nat.succ length⟩

/-- As many expressions are left as there were. -/
theorem length_of_expressions {s s' : State} {es es' : List Tree}
    (h : Walks n s (.expressions es es') s') : es'.length = es.length := by
  induction es generalizing s es' with
  | nil =>
    cases h
    rfl
  | cons e es ih =>
    cases h with
    | moreExpressions _ parts => exact congrArg Nat.succ (ih parts)

/-- Assignments in a row, of which a single one stands for itself. -/
theorem writable_assignments (assignments : ∀ t ∈ ts, IsAssignment t) (some : ts ≠ [])
    (h : ∀ t ∈ ts, Unwrapped t) : (Tree.new (.sequence (.tuple ts))).unwrapped.single.Writable := by
  have row : (Tree.new (.sequence (.tuple ts))).unwrapped =
      Tree.new (.sequence (.tuple (ts.map unwrapped))) := by
    rw [Tree.new, unwrapped_other rfl, Shape.map, unwrapped_tuple]
    rfl
  rw [row]
  cases ts with
  | nil => exact absurd rfl some
  | cons t rest =>
    cases rest with
    | nil =>
      have own := h t List.mem_cons_self
      obtain ⟨l, operator, left, right, rfl⟩ := assignments t List.mem_cons_self
      rw [Unwrapped, unwrapped_other rfl] at own
      rw [List.map_singleton, unwrapped_other rfl]
      exact own
    | cons u rest =>
      refine writable_single (all_parts ?_ ?_)
      · change (decide (2 ≤ (rest.map unwrapped).length + 2) && true && true) = true
        rw [decide_eq_true (Nat.le_add_left _ _)]
        rfl
      · exact forall₁ (all_tuple.mpr (writable_map h))

/-- What a walk makes of a piece of a program is read as what it is. The start of a loop is looked
at when it is unwrapped itself, and a body has a scope of its own. -/
def Edit.Legibly (s s' : State) : Edit → Prop
  | .loopStart t t' => s.scope.Spelled Source.isFree → Readable t →
    s'.scope.Spelled Source.isFree ∧ t'.unwrapped.single.Writable
  | .body scope ss ss' => s'.scope = s.scope ∧ (scope.Spelled Source.isFree →
    (∀ t ∈ ss, Readable t) → ∀ t ∈ ss', Unwrapped t)
  | edit => Elimination.Legibly s s' edit.before edit.after

namespace Edit.Legibly

variable {s s1 s' : State} {lc : Option Location} {e t' : Tree} {es ss ss1 ss' ds : List Tree}

/-- Declarators become a row of assignments, which stands for them. -/
theorem assignments (walks : Walks n s (.declarators ds es) s')
    (parts : (Edit.declarators ds es).Legibly s s') {k : Text}
    (free : s.scope.Spelled Source.isFree)
    (readable : Readable (.node l (.variableDeclaration (.tuple ds) (.text k)))) :
    s'.scope.Spelled Source.isFree ∧
      (Tree.new (.sequence (.tuple es))).unwrapped.single.Writable := by
  obtain ⟨_, wf⟩ := readable.own
  cases wf with
  | variableDeclaration some _ _ =>
    obtain ⟨assigned, length⟩ := assignments_of_declarators walks
    obtain ⟨free', items⟩ := parts free fun d hd => (readable.child (.head _)).item hd
    refine ⟨free', writable_assignments assigned (fun none => some ?_) items⟩
    rw [none] at length
    exact List.length_eq_zero_iff.mp length.symm

/-- A declaration becomes a row of assignments. -/
theorem declaration (walks : Walks n s (.declarators ds es) s')
    (parts : (Edit.declarators ds es).Legibly s s') {k : Text} {f : Stats → Stats} :
    Elimination.Legibly s (s'.tally f) [.node l (.variableDeclaration (.tuple ds) (.text k))]
      [.node l (.expressionStatement (Tree.new (.sequence (.tuple es))))] := by
  intro free readable
  obtain ⟨free', row⟩ := assignments walks parts free (List.forall_mem_singleton.mp readable)
  refine ⟨free', forall₁ ?_⟩
  rw [Unwrapped, unwrapped_node]
  exact all_parts rfl (forall₁ row)

/-- A converted call. -/
theorem converted (naming : n.IsFree) {lf : Option Location} {name : Text} {args args' : List Tree}
    (parts : (Edit.expressions args args').Legibly s s1)
    (converts : convertCall n l lc args' s1 = .ok (t', s')) :
    (Edit.returned l (.node lc (.call (.node lf (.identifier (.text name))) (.tuple args)))
      t').Legibly s s' := by
  intro free readable
  have source := List.forall_mem_singleton.mp readable
  obtain ⟨free1, values⟩ := parts free fun e he => (source.child (.tail _ (.head _))).item he
  obtain ⟨-, rfl, rfl⟩ := convertCall_ok.mp converts
  exact ⟨free1.markTailRecursive.useAll (spelled_callTemporaries free1 _),
    forall₁ (unwrapped_converted naming free1 values)⟩

/-- A loop with a head of three parts. -/
theorem forStatement {init init' test test' step step' body body' : Tree}
    (initPart : (Edit.loopStart init init').Legibly s s1)
    (rest : Elimination.Legibly s1 s' [test, step, body] [test', step', body']) :
    Elimination.Legibly s s' [.node l (.forStatement init test step body)]
      [.node l (.forStatement init' test' step' body')] := by
  intro free readable
  have source := List.forall_mem_singleton.mp readable
  obtain ⟨free1, start⟩ := initPart free (source.child (.head _))
  obtain ⟨free', parts⟩ := rest free1 (forall₃ (source.child (.tail _ (.head _)))
    (source.child (.tail _ (.tail _ (.head _))))
    (source.child (.tail _ (.tail _ (.tail _ (.head _))))))
  refine ⟨free', forall₁ ?_⟩
  rw [Unwrapped, unwrapped_node]
  exact all_parts rfl (List.forall_mem_cons.mpr ⟨start, writable_map parts⟩)

/-- A declared variable becomes one of the scope. -/
theorem addLocal {li : Option Location} {name : Text} {f : Stats → Stats}
    (h : Elimination.Legibly ((s.rescope (·.addLocal name)).tally f) s' ts us) :
    s.scope.Spelled Source.isFree → Readable (.node li (.identifier (.text name))) →
      (∀ t ∈ ts, Readable t) → s'.scope.Spelled Source.isFree ∧ ∀ u ∈ us, Unwrapped u :=
  fun free id => h (free.addLocal id.isFree)

/-- A loop over a collection that declared its variable. -/
theorem forEachDeclared {domain : Domain} {ld le li : Option Location} {name k : Text}
    {right right' body body' : Tree} {f : Stats → Stats}
    (h : Elimination.Legibly ((s.rescope (·.addLocal name)).tally f) s' [right, body]
      [right', body']) :
    Elimination.Legibly s s' [.node l (.forEach domain (.node ld (.variableDeclaration
        (.tuple [.node le (.variableDeclarator (.node li (.identifier (.text name))) .null)])
        (.text k))) right body)]
      [.node l (.forEach domain (.node li (.identifier (.text name))) right' body')] := by
  intro free readable
  have source := List.forall_mem_singleton.mp readable
  have declaration := source.child (.head _)
  have declarator := (declaration.child (.head _)).item (.head _)
  have id := declarator.child (.head _)
  obtain ⟨free', parts⟩ := addLocal h free id
    (forall₂ (source.child (.tail _ (.head _))) (source.child (.tail _ (.tail _ (.head _)))))
  exact ⟨free', forall₁ (unwrapped_simple rfl (List.forall_mem_cons.mpr
    ⟨unwrapped_identifier id.isFree, parts⟩))⟩

/-- A declarator becomes an assignment, and its name one of the scope. -/
theorem moreDeclarators {li : Option Location} {name op : Text} {init init' : Tree}
    (part : (Edit.initial init init').Legibly (s.rescope (·.addLocal name)) s1)
    (parts : (Edit.declarators ds es).Legibly s1 s') :
    (Edit.declarators
      (.node l (.variableDeclarator (.node li (.identifier (.text name))) init) :: ds)
      (.node l (.assignment (.text op) (.node li (.identifier (.text name))) init') :: es)).Legibly
        s s' := by
  refine Elimination.Legibly.cons (fun free readable => ?_) parts
  have source := List.forall_mem_singleton.mp readable
  have id := source.child (.head _)
  obtain ⟨free1, value⟩ :=
    part (free.addLocal id.isFree) (forall₁ (source.child (.tail _ (.head _))))
  exact ⟨free1, forall₁ (unwrapped_simple rfl (forall₃ (unwrapped_plain rfl)
    (unwrapped_identifier id.isFree) (List.forall_mem_singleton.mp value)))⟩

/-- A directive is set aside, and the scope keeps it. -/
theorem startStrict {t : Tree} (strict : t.isStrictDirective = true)
    (parts : (Edit.statements ss ss').Legibly (s.rescope fun c => { c with directive := some t })
      s') :
    (Edit.start (t :: ss) ss').Legibly s s' := fun free readable =>
  parts (free.withDirective strict) (List.forall_mem_cons.mp readable).2

/-- A finished body. -/
theorem body (naming : n.IsFree) {scope : Scope} {stats : Stats}
    (starts : (Edit.start ss ss1).Legibly ⟨scope, s.stats⟩ s1)
    (finished : finishBody n s1.scope ss1 = .ok ss') :
    (Edit.body scope ss ss').Legibly s ⟨s.scope, stats⟩ := by
  refine ⟨rfl, fun free readable => ?_⟩
  obtain ⟨free1, statements⟩ := starts free readable
  exact unwrapped_finishBody naming free1 statements finished

end Edit.Legibly

/-- Every walk makes trees that are read as what they are when they are unwrapped. -/
theorem Walks.legible {s s' : State} {edit : Edit} (naming : n.IsFree) (h : Walks n s edit s') :
    edit.Legibly s s' := by
  -- By induction on the walk, with the lemma for each rule.
  induction h with
  | identifier => exact .same rfl
  | literal plain =>
    refine .same ?_
    rw [unwrapped_other rfl, Shape.map, unwrapped_of_isPlain plain]
  | array _ ih => exact .node (.row ih) rfl
  | function starts _ ih => exact .function naming starts ih
  | call _ _ ih ih₂ => exact .node (.cons ih (.row ih₂)) rfl
  | member _ name ih =>
    exact .node (.cons ih (.cons (.same name.unwrapped) (.plain rfl))) rfl
  | computedMember _ _ ih ih₂ => exact .node (.cons ih (.cons ih₂ (.plain rfl))) rfl
  | conditional _ _ _ ih ih₂ ih₃ => exact .node (.cons ih (.cons ih₂ ih₃)) rfl
  | assignment _ _ ih ih₂ => exact .node (.cons (.plain rfl) (.cons ih ih₂)) rfl
  | sequence parts ih => exact .sequence ih (length_of_expressions parts)
  | binary _ _ ih ih₂ => exact .node (.cons (.plain rfl) (.cons ih ih₂)) rfl
  | logical _ _ ih ih₂ => exact .node (.cons (.plain rfl) (.cons ih ih₂)) rfl
  | unary _ ih => exact .unary ih
  | update _ ih => exact .node (.cons (.plain rfl) (.cons ih (.plain rfl))) rfl
  | absent => exact .plain rfl
  | present _ ih => exact ih
  | noExpressions => exact .nil
  | moreExpressions _ _ ih ih₂ => exact .cons ih ih₂
  | returnNothing => exact .result (.plain rfl) rfl
  | returnCall _ _ converts ih => exact .converted naming ih converts
  | returnConditional _ _ _ ih ih₂ ih₃ => exact .node (.cons ih (.cons ih₂ ih₃)) rfl
  | returnValue _ _ ih => exact .result ih rfl
  | branchValue _ _ ih => exact ih
  | branchSequence _ ih => exact .node (.row ih) rfl
  | branchLast part spliced ih => exact .spliced ih (row_of_returned part) spliced
  | branchMore _ _ _ ih ih₂ => exact .cons (.statement ih) ih₂
  | functionDeclaration starts _ ih => exact .function naming starts ih
  | block _ ih => exact .node (.row ih) rfl
  | returnStatement _ ih => exact .source ih
  | variableDeclaration walks ih => exact .declaration walks ih
  | ifStatement _ _ _ ih ih₂ ih₃ => exact .node (.cons ih (.cons ih₂ ih₃)) rfl
  | forStatement _ _ _ _ ih ih₂ ih₃ ih₄ => exact .forStatement ih (.cons ih₂ (.cons ih₃ ih₄))
  | forEachDeclared _ _ _ ih ih₂ => exact .forEachDeclared (.cons ih ih₂)
  | forEach _ _ _ _ ih ih₂ ih₃ => exact .node (.cons ih (.cons ih₂ ih₃)) rfl
  | whileStatement _ _ ih ih₂ => exact .node (.cons ih ih₂) rfl
  | doWhileStatement _ _ ih ih₂ => exact .node (.cons ih ih₂) rfl
  | expressionStatement _ ih => exact .source (.statement ih)
  | emptyStatement => exact .same rfl
  | bareJump => exact .same rfl
  | jump => exact .same rfl
  | labeled _ _ ih => exact .node (.cons (.same rfl) ih) rfl
  | noAlternate => exact .plain rfl
  | alternate _ ih => exact ih
  | noStatements => exact .nil
  | moreStatements part spliced _ ih ih₂ =>
    exact .append (.spliced ih (row_of_statement part) spliced) ih₂
  | startStrict strict _ ih => exact .startStrict strict ih
  | startPlain _ _ ih => exact ih
  | noStart => exact fun free _ => ⟨free, all_of_isPlain rfl⟩
  | startExpression _ ih =>
    intro free readable
    obtain ⟨free', parts⟩ := ih free (forall₁ readable)
    exact ⟨free', writable_single (parts _ List.mem_cons_self)⟩
  | startDeclaration walks ih =>
    intro free readable
    have made := Edit.Legibly.assignments walks ih free readable
    exact made
  | noInitial => exact fun free _ => ⟨free, forall₁ (unwrapped_identifier (by decide))⟩
  | initial _ ih => exact ih
  | noDeclarators => exact .nil
  | moreDeclarators _ _ _ ih ih₂ => exact .moreDeclarators ih ih₂
  | body _ finished ih => exact .body naming ih finished

/-- A rewritten program is read as what it is when it is unwrapped, if the program is. -/
theorem Eliminates.writable {ss : List Tree} {t' : Tree} {stats : Stats} (naming : n.IsFree)
    (h : Eliminates n (.node l (.program (.tuple ss))) t' stats)
    (readable : Readable (.node l (.program (.tuple ss)))) : Unwrapped t' := by
  cases h with
  | expression kind => cases kind
  | statement kind => cases kind
  | program starts finished =>
    obtain ⟨free, statements⟩ := starts.legible naming spelled_empty
      fun t ht => (readable.child (.head _)).item ht
    exact unwrapped_simple rfl
      (forall₁ (unwrapped_row (unwrapped_finishBody naming free statements finished)))

end Elimination

end TailLoop
