import TailLoop.Proofs.Elimination.Functions

/-!
# Elimination twice

Where elimination converts no call, what it gives is left as it is by another elimination
(`eliminateTailCalls_idempotent`). The second walk comes upon no declaration but the one at the top
of each body, which it turns into a reset of the same variables in the same order. The reset goes
away when the body is finished, and what stood after the declaration stays, because the first walk
has already dropped the resets there.

`Stays` says of one tree that a walk leaves it as it is. That a `return` of a call stays needs that
the name of the function is not seen as its own where it was not before: the second scope has the
name of the first or none (`ofFunction_again`), because elimination keeps what a body declares.
-/

namespace TailLoop.Elimination

open Tree Validity

variable {n : Naming} {own : Option Text}

/-! ## What has been converted so far -/

/-- A later state of a walk: calls are counted when they are converted, and a scope becomes tail
recursive by a converted call only. -/
structure State.Counts (s s' : State) : Prop where
  calls : s.stats.calls ≤ s'.stats.calls
  tail : s'.scope.isTailRecursive = true →
    s.scope.isTailRecursive = true ∨ s.stats.calls < s'.stats.calls

namespace State.Counts

variable {s s1 s' : State}

/-- Nothing is counted where nothing happens. -/
theorem refl (s : State) : s.Counts s := ⟨Nat.le_refl _, .inl⟩

/-- Counting goes on from one state to the next. -/
theorem trans (h1 : s.Counts s1) (h2 : s1.Counts s') : s.Counts s' where
  calls := Nat.le_trans h1.calls h2.calls
  tail marked := by
    rcases h2.tail marked with marked | more
    · exact (h1.tail marked).imp_right fun more => Nat.lt_of_lt_of_le more h2.calls
    · exact .inr (Nat.lt_of_le_of_lt h1.calls more)

/-- A scope that gains a local still counts what it counted. -/
theorem addLocal (s : State) (x : Text) : s.Counts (s.rescope (·.addLocal x)) := by
  have same : (s.scope.addLocal x).isTailRecursive = s.scope.isTailRecursive := by
    unfold Scope.addLocal
    split <;> rfl
  exact ⟨Nat.le_refl _, fun marked => .inl (same.symm.trans marked)⟩

/-- A tally that leaves the calls alone keeps the comparison. -/
theorem tally {f : Stats → Stats} (h : s.Counts s') (same : ∀ t, (f t).calls = t.calls) :
    s.Counts (s'.tally f) :=
  ⟨Nat.le_trans h.calls (Nat.le_of_eq (same _).symm),
    fun marked => (h.tail marked).imp_right fun more => Nat.lt_of_lt_of_eq more (same _).symm⟩

/-- Where no call is converted in two steps, none is in either. -/
theorem halves (h1 : s.Counts s1) (h2 : s1.Counts s') (h : s'.stats.calls ≤ s.stats.calls) :
    s1.stats.calls ≤ s.stats.calls ∧ s'.stats.calls ≤ s1.stats.calls :=
  ⟨Nat.le_trans h2.calls h, Nat.le_trans h h1.calls⟩

/-- A scope that converted no call is not marked as a loop. -/
theorem unlooped (h : s.Counts s') (unconverted : s'.stats.calls ≤ s.stats.calls)
    (first : s.scope.isTailRecursive = false) : s'.scope.isTailRecursive = false := by
  rw [Bool.eq_false_iff]
  intro marked
  rcases h.tail marked with before | more
  · exact Bool.false_ne_true (first.symm.trans before)
  · exact Nat.not_le_of_lt more unconverted

end State.Counts

/-- The count of functions says nothing about calls. -/
theorem calls_addFunction (a : Scope) (t : Stats) : (t.addFunction a).calls = t.calls := by
  unfold Stats.addFunction
  split <;> rfl

/-- Walks count up, and mark a scope only where they count a call. -/
theorem Walks.counts {s s' : State} {edit : Edit} (h : Walks n s edit s') : s.Counts s' := by
  -- By induction on the walk: only the conversion of a call counts up, and only it marks the scope.
  induction h with
  | identifier | literal | absent | noExpressions | returnNothing | emptyStatement | bareJump | jump
  | noAlternate | noStatements | noStart | noInitial | noDeclarators => exact .refl _
  | array _ ih | function _ _ ih | member _ _ ih | sequence _ ih | unary _ ih | update _ ih
  | present _ ih | returnValue _ _ ih | branchValue _ _ ih | branchSequence _ ih
  | branchLast _ _ ih | functionDeclaration _ _ ih | block _ ih | returnStatement _ ih
  | expressionStatement _ ih | labeled _ _ ih | alternate _ ih
  | startPlain _ _ ih | startExpression _ ih | initial _ ih => exact ih
  | variableDeclaration _ ih | startDeclaration _ ih | startStrict _ _ ih => exact ⟨ih.calls, ih.tail⟩
  | call _ _ ih1 ih2 | computedMember _ _ ih1 ih2 | assignment _ _ ih1 ih2 | binary _ _ ih1 ih2
  | logical _ _ ih1 ih2 | moreExpressions _ _ ih1 ih2 | branchMore _ _ _ ih1 ih2
  | whileStatement _ _ ih1 ih2 | doWhileStatement _ _ ih1 ih2 | moreStatements _ _ _ ih1 ih2 =>
    exact ih1.trans ih2
  | conditional _ _ _ ih1 ih2 ih3 | ifStatement _ _ _ ih1 ih2 ih3 | forEach _ _ _ _ ih1 ih2 ih3 =>
    exact ih1.trans (ih2.trans ih3)
  | returnConditional _ _ _ ih1 ih2 ih3 =>
    have parts := ih1.trans (ih2.trans ih3)
    exact ⟨parts.calls, parts.tail⟩
  | forStatement _ _ _ _ ih1 ih2 ih3 ih4 => exact ih1.trans (ih2.trans (ih3.trans ih4))
  | forEachDeclared _ _ _ ih1 ih2 =>
    have first := fun s x => (State.Counts.addLocal s x).tally (f := Stats.addVars 1) fun _ => rfl
    exact (first _ _).trans (ih1.trans ih2)
  | moreDeclarators _ _ _ ih1 ih2 => exact (State.Counts.addLocal _ _).trans (ih1.trans ih2)
  -- Afterwards the counter is larger, so that the mark is accounted for.
  | returnCall _ _ converted ih =>
    obtain ⟨-, -, rfl⟩ := convertCall_ok.mp converted
    have more := Nat.lt_succ_of_le ih.calls
    exact ⟨Nat.le_of_lt more, fun _ => .inr more⟩
  -- The mark of the inner function does not leave it.
  | body starts _ ih =>
    refine ⟨?_, .inl⟩
    rw [calls_addFunction]
    exact ih.calls

/-! ## Trees that stay -/

/-- A later state of a walk that found nothing to do: at most variables that are declared already
were counted. -/
structure State.Quiet (s s' : State) : Prop where
  scope : s'.scope = s.scope
  functions : s'.stats.functions = s.stats.functions
  calls : s'.stats.calls = s.stats.calls
  ternaries : s'.stats.ternaries = s.stats.ternaries

/-- A state is quiet against itself. -/
theorem State.Quiet.refl (s : State) : s.Quiet s := ⟨rfl, rfl, rfl, rfl⟩

/-- Two quiet stretches are one. -/
theorem State.Quiet.trans {s s1 s' : State} (h1 : s.Quiet s1) (h2 : s1.Quiet s') : s.Quiet s' where
  scope := h2.scope.trans h1.scope
  functions := h2.functions.trans h1.functions
  calls := h2.calls.trans h1.calls
  ternaries := h2.ternaries.trans h1.ternaries

/-- A part of a walk finds nothing to do, in a function that can call itself by the given name at
most. -/
def Leaves {α : Type} (own : Option Text) (act : Walk α) (a : α) : Prop :=
  ∀ s : State, (∀ x ∈ s.scope.name, x ∈ own) → ∃ s', act s = .ok (a, s') ∧ s.Quiet s'

namespace Leaves

variable {α β : Type} {a : α} {b : β}

/-- What is computed without a walk is left as it is. -/
theorem pure : Leaves own (Pure.pure a) a := fun s _ => ⟨s, walk_pure.mpr ⟨rfl, rfl⟩, .refl s⟩

/-- Two walks that leave their parts as they are, one after the other. -/
theorem bind {x : Walk α} {f : α → Walk β} (hx : Leaves own x a) (hf : Leaves own (f a) b) :
    Leaves own (x >>= f) b := by
  intro s named
  obtain ⟨s1, first, quiet⟩ := hx s named
  obtain ⟨s', rest, quiet'⟩ := hf s1 (by rw [quiet.scope]; exact named)
  exact ⟨s', walk_bind.mpr ⟨a, s1, first, rest⟩, quiet.trans quiet'⟩

/-- A computation that succeeds leaves what it gives. -/
theorem attempt {e : Except Fault α} (h : e = .ok a) : Leaves own (attempt e) a :=
  fun s _ => ⟨s, walk_attempt.mpr ⟨h, rfl⟩, .refl s⟩

/-- A refusable computation that succeeds leaves what it gives. -/
theorem lift {e : Except Refusal α} (h : e = .ok a) : Leaves own (liftM e : Walk α) a :=
  fun s _ => ⟨s, walk_lift.mpr ⟨h, rfl⟩, .refl s⟩

end Leaves

/-- That declared names can be listed depends on the parts of a tree alone. -/
theorem findable : ByParts false fun t => ∃ names, t.declaredNames = .ok names :=
  byParts_declaredNames

/-- A tree that elimination leaves as it is, and whose declared names can be found. -/
structure Stays (n : Naming) (own : Option Text) (t : Tree) : Prop where
  walk : Leaves own (walk n .inside t) t
  names : ∃ names, t.declaredNames = .ok names

namespace Stays

variable {l : Option Location} {t a b c d : Tree}

/-- Plain data stays. -/
theorem atom (h : t.isPlain = true) : Stays n own t where
  walk s _ := ⟨s, (walk_atom h).mpr ⟨rfl, rfl⟩, .refl s⟩
  names := findable.plain h

/-- A row of trees that stay, of which none is a block. -/
theorem walkItems {ts : List Tree} (h : ∀ t ∈ ts, Stays n own t) (flat : NoBlocks ts) :
    Leaves own (walkItems n ts) ts := by
  induction ts with
  | nil =>
    rw [Elimination.walkItems]
    exact .pure
  | cons t ts ih =>
    rw [List.forall_mem_cons] at h
    have single := spliced_of_hasKind (flat t List.mem_cons_self)
    rw [Elimination.walkItems]
    exact h.1.walk.bind ((Leaves.attempt single).bind
      ((ih h.2 fun u hu => flat u (List.mem_cons_of_mem t hu)).bind .pure))

/-- A row stays where its items do and no block is among them. -/
theorem row {ts : List Tree} (h : ∀ t ∈ ts, Stays n own t) (flat : NoBlocks ts) :
    Stays n own (.tuple ts) where
  walk := by
    rw [Elimination.walk]
    exact (walkItems h flat).bind .pure
  names := findable.tuple fun t ht => (h t ht).names

/-- The names in a node are those in its fields. -/
theorem namesInert {shape : Shape Tree} (inert : shape.isInert = true) (proper : shape.IsProper)
    (parts : ∀ u ∈ shape.parts, Stays n own u) :
    ∃ names, (Tree.node l shape).declaredNames = .ok names :=
  findable.inert inert proper fun t ht => (parts t ht).names

/-- The forms whose fields are walked one after the other, and nothing else is done. -/
def isPassive : Shape Tree → Bool
  | .ifStatement .. | .whileStatement .. | .doWhileStatement .. | .expressionStatement _
  | .emptyStatement | .jump .. | .identifier _ | .literal _ | .array _ | .call .. | .member ..
  | .conditional .. | .assignment .. | .sequence _ | .binary .. | .logical .. | .unary ..
  | .update .. => true
  | _ => false

/-- A node of a kind without rules of its own stays where its parts do. -/
theorem node {shape : Shape Tree} (passive : isPassive shape = true)
    (parts : ∀ u ∈ shape.parts, Stays n own u) : Stays n own (.node l shape) := by
  -- Nodes with a list of declarators or a scope of their own are treated by themselves.
  have form : shape.isInert = true ∧ shape.IsProper := by
    cases shape with
    | program | function | variableDeclarator | variableDeclaration | generic => cases passive
    | _ => exact ⟨rfl, trivial⟩
  refine ⟨?_, namesInert form.1 form.2 parts⟩
  have part {u : Tree} (hu : u ∈ shape.parts) := (parts u hu).walk
  cases shape with
  | emptyStatement =>
    simp only [Elimination.walk, walkShape, Position.restore]
    exact .bind .pure .pure
  | expressionStatement | jump | identifier | literal | array | sequence =>
    simp only [Elimination.walk, walkShape, Position.restore]
    exact .bind (.bind (part (Shape.mem_parts 0 rfl)) .pure) .pure
  | ifStatement | member | assignment | binary | logical | unary | update =>
    simp only [Elimination.walk, walkShape, Position.restore]
    exact .bind (.bind (part (Shape.mem_parts 0 rfl))
      (.bind (part (Shape.mem_parts 1 rfl))
        (.bind (part (Shape.mem_parts 2 rfl)) .pure))) .pure
  | whileStatement | doWhileStatement =>
    simp only [Elimination.walk, Position.isBody, Bool.false_eq_true, if_false, Position.restore]
    exact .bind (part (Shape.mem_parts 0 rfl))
      (.bind (part (Shape.mem_parts 1 rfl)) .pure)
  | conditional =>
    simp only [Elimination.walk, Position.returnLocation?]
    exact .bind (part (Shape.mem_parts 0 rfl))
      (.bind (part (Shape.mem_parts 1 rfl))
        (.bind (part (Shape.mem_parts 2 rfl)) .pure))
  -- The name of the scope is needed for both parts, as the callee could be the function itself.
  | call callee arguments =>
    intro s named
    obtain ⟨s1, first, quiet⟩ := part (u := callee) List.mem_cons_self s named
    obtain ⟨s', rest, quiet'⟩ := part (u := arguments) (Shape.mem_parts 1 rfl) s1
      (by rw [quiet.scope]; exact named)
    exact ⟨s', (walk_call (.inr rfl)).mpr ⟨callee, s1, arguments, first, rest, rfl⟩,
      quiet.trans quiet'⟩
  | _ => cases passive

/-- A name that may be used stays. -/
theorem identifier {x : Text} : Stays n own (.node l (.identifier (.text x))) :=
  node rfl (forall₁ (atom rfl))

/-- A block stays where its statements do and no block is among them. -/
theorem block {ts : List Tree} (h : ∀ t ∈ ts, Stays n own t) (flat : NoBlocks ts) :
    Stays n own (.node l (.block (.tuple ts))) where
  walk := by
    simp only [Elimination.walk, Position.isBody, Bool.false_eq_true, if_false, Position.restore]
    exact (row h flat).walk.bind ((Leaves.attempt (unwrapBlock_tuple flat)).bind .pure)
  names := namesInert rfl trivial (forall₁ (row h flat))

/-- A value that is no conditional and no call of the function itself stays in its `return`. -/
theorem returnStatement (part : Stays n own t)
    (kept : t.isNull = false → t.isExpression = true ∧
      ∀ s : Scope, (∀ x ∈ s.name, x ∈ own) → s.converts t = false) :
    Stays n own (.node l (.returnStatement t)) where
  walk := by
    -- The value is walked as it was the first time, since it is still no call of the function.
    simp only [Elimination.walk, Position.restore]
    refine Leaves.bind ?_ .pure
    intro s named
    obtain ⟨s', walked, quiet⟩ := part.walk s named
    cases t with
    | null =>
      obtain ⟨-, rfl⟩ := (walk_atom rfl).mp walked
      exact ⟨s', (walk_atom rfl).mpr ⟨rfl, rfl⟩, quiet⟩
    | node le shape =>
      obtain ⟨kind, kept⟩ := kept rfl
      exact ⟨s', (walk_restore (p := .returned l) (kept s.scope named) kind).mpr ⟨_, walked, rfl⟩,
        quiet⟩
    | _ => cases (kept rfl).1
  names := namesInert rfl trivial (forall₁ part)

/-- A `for` loop stays once its start is settled. -/
theorem forStatement (init : Stays n own a) (settled : loopStart a = a) (test : Stays n own b)
    (step : Stays n own c) (body : Stays n own d) :
    Stays n own (.node l (.forStatement a b c d)) where
  walk := by
    simp only [Elimination.walk, Position.isBody, Bool.false_eq_true, if_false, Position.restore]
    refine init.walk.bind (test.walk.bind (step.walk.bind (body.walk.bind ?_)))
    rw [settled]
    exact .pure
  names := namesInert rfl trivial (List.forall_mem_cons.mpr ⟨init, forall₃ test step body⟩)

/-- A loop over a collection stays once it declares nothing. -/
theorem forEach {domain : Domain} (left : Stays n own a)
    (target : a.hasKind .variableDeclaration = false) (right : Stays n own b)
    (body : Stays n own c) : Stays n own (.node l (.forEach domain a b c)) where
  walk := by
    simp only [Elimination.walk, target, Position.isBody, Bool.false_eq_true, if_false,
      Position.restore]
    exact left.walk.bind (right.walk.bind (body.walk.bind .pure))
  names := namesInert rfl trivial (forall₃ left right body)

/-- A label stays if it is not a reserved one. -/
theorem labeled {ln : Option Location} {x : Text} (free : n.reserves x = false)
    (body : Stays n own t) :
    Stays n own (.node l (.labeled (.node ln (.identifier (.text x))) t)) where
  walk := by
    rw [Elimination.walk]
    simp only [Position.isBody, Bool.false_eq_true, if_false, Position.restore]
    exact (Leaves.lift (declaredName_ok.mpr ⟨free, rfl⟩)).bind
      (identifier.walk.bind (body.walk.bind .pure))
  names := namesInert rfl trivial (forall₂ identifier body)

end Stays

/-! ## Declarations at the top of a body -/

/-- The statement that the declaration of some variables becomes: it sets them to the undefined
value. -/
def resets (names : List Text) : List Tree :=
  if names.isEmpty then []
  else [Tree.new (.expressionStatement (Tree.new (.sequence (.tuple (names.map
    fun x => Tree.new (.assignment (.text plainAssignment) (.identifier x) .undefined))))))]

/-- Names that a body with the given parameters can declare at its top. -/
structure Declarable (n : Naming) (params names : List Text) : Prop where
  free : ∀ x ∈ names, n.reserves x = false
  distinct : names.Nodup
  apart : ∀ x ∈ names, x ∉ params

/-- Names that are new to a scope become its locals one after the other. -/
theorem addLocals {names : List Text} {a : Scope} (apart : ∀ x ∈ names, x ∉ a.params)
    (distinct : (a.locals ++ names).Nodup) :
    names.foldl Scope.addLocal a = { a with locals := a.locals ++ names } := by
  induction names generalizing a with
  | nil => rw [List.foldl_nil, List.append_nil]
  | cons x names ih =>
    rw [List.forall_mem_cons] at apart
    have fresh : x ∉ a.locals := by
      intro known
      exact (List.nodup_append.mp distinct).2.2 x known x List.mem_cons_self rfl
    have added : a.addLocal x = { a with locals := a.locals ++ [x] } := by
      unfold Scope.addLocal
      rw [if_neg]
      simp [apart.1, fresh]
    rw [List.append_cons] at distinct
    have rest := ih (a := { a with locals := a.locals ++ [x] }) apart.2 distinct
    rw [List.foldl_cons, added, rest, List.append_assoc, List.singleton_append]

/-- The declarators that a second walk finds are bare: they become resets, and declare the same
locals. -/
theorem walkDeclarators_again {names : List Text} (free : ∀ x ∈ names, n.reserves x = false)
    (s : State) :
    walkDeclaratorItems n (names.map (Tree.declarator · .null)) s =
      .ok (names.map fun x =>
        Tree.new (.assignment (.text plainAssignment) (.identifier x) .undefined),
        s.rescope fun a => names.foldl Scope.addLocal a) := by
  induction names generalizing s with
  | nil =>
    rw [List.map_nil, walkDeclaratorItems]
    exact walk_pure.mpr ⟨rfl, rfl⟩
  | cons x names ih =>
    rw [List.forall_mem_cons] at free
    rw [List.map_cons, Tree.declarator, Tree.new, walkDeclaratorItems]
    simp only [walk_bind, walk_pure, Tree.isNull, if_true]
    exact ⟨(), s.rescope (·.addLocal x), declareLocal_ok.mpr ⟨free.1, rfl⟩, .undefined, _,
      ⟨rfl, rfl⟩, _, _, ih free.2 _, rfl, rfl⟩

/-- The declaration at the top of a body becomes a reset, and what follows it stays. -/
theorem walkItems_declareAll {names : List Text} {rest : List Tree} {s : State}
    (empty : s.scope.locals = []) (declarable : Declarable n s.scope.params names)
    (named : ∀ x ∈ s.scope.name, x ∈ own) (stay : ∀ t ∈ rest, Stays n own t)
    (flat : NoBlocks rest) :
    ∃ s', walkItems n (Tree.declareAll names ++ rest) s = .ok (resets names ++ rest, s') ∧
      (s.rescope fun a => { a with locals := names }).Quiet s' := by
  unfold Tree.declareAll resets
  split
  -- Without names there is no declaration to be put in front.
  · rename_i none
    rw [List.isEmpty_iff] at none
    subst none
    obtain ⟨s', walked, quiet⟩ := Stays.walkItems stay flat s named
    refine ⟨s', walked, { quiet with scope := ?_ }⟩
    rw [quiet.scope, State.rescope, ← empty]
  -- The declaration is read again: its names are added to a scope that has none of them.
  · have added := addLocals (a := s.scope) declarable.apart (by
      rw [empty, List.nil_append]
      exact declarable.distinct)
    rw [empty, List.nil_append] at added
    obtain ⟨s', walked, quiet⟩ := Stays.walkItems stay flat
      ((s.rescope fun a => { a with locals := names }).tally (Stats.addVars names.length)) named
    refine ⟨s', ?_, ⟨quiet.scope, quiet.functions, quiet.calls, quiet.ternaries⟩⟩
    rw [List.singleton_append, walkItems, Tree.declaration, Tree.new, walk]
    simp only [walk_bind, walk_pure, walk_modifyStats, walk_attempt, walkDeclarators,
      Position.restore]
    refine ⟨_, _, ⟨_, _, walkDeclarators_again declarable.free s, (), _, rfl, rfl, rfl⟩, _, _,
      ⟨rfl, rfl⟩, rest, s', ?_, rfl, rfl⟩
    rw [List.length_map]
    have same : s.rescope (fun a => names.foldl Scope.addLocal a) =
        s.rescope fun a => { a with locals := names } := by
      rw [State.rescope, added]
      rfl
    rw [same]
    exact walked

/-- What a second walk makes of the declared names counts as resets. -/
theorem areResets_again {names : List Text} (locals : List Text) (known : ∀ x ∈ names, x ∈ locals) :
    Tree.areResets locals (names.map fun x =>
      Tree.new (.assignment (.text plainAssignment) (.identifier x) .undefined)) = .ok true := by
  induction names with
  | nil => rfl
  | cons x names ih =>
    rw [List.forall_mem_cons] at known
    have first : Tree.isReset locals
        (Tree.new (.assignment (.text plainAssignment) (.identifier x) .undefined)) = .ok true := by
      have found : locals.contains x = true := List.contains_iff_mem.mpr known.1
      change Except.ok (locals.contains x) = _
      rw [found]
    rw [List.map_cons, Tree.areResets, first]
    exact ih known.2

/-- The reset that a declaration became is dropped again. -/
theorem dropResets_resets (names : List Text) (rest : List Tree) :
    dropResets names (resets names ++ rest) = dropResets names rest := by
  unfold resets
  split
  · rfl
  · rw [List.singleton_append, dropResets]
    have first := areResets_again names fun _ => id
    change (Tree.areResets names _ >>= _) = _
    rw [first]
    rfl

/-- What is left when resets are dropped does not start with one. -/
theorem dropResets_again {names : List Text} {ts rest : List Tree}
    (h : dropResets names ts = .ok rest) : dropResets names rest = .ok rest := by
  induction ts with
  | nil =>
    cases h
    rfl
  | cons t ts ih =>
    have dropped := h
    rw [dropResets] at h
    obtain ⟨reset, first, more⟩ := bind_ok.mp h
    cases reset with
    | true => exact ih more
    | false =>
      cases more
      exact dropped

/-! ## Bodies -/

/-- A statement that is no sequence of nothing. -/
def Filled : Tree → Prop
  | .node _ (.expressionStatement (.node _ (.sequence (.tuple [])))) => False
  | _ => True

/-- Where no locals are known, no plain assignment is a reset. -/
theorem isReset_none {e : Tree} (plain : PlainTarget e) : e.isReset [] = .ok false := by
  unfold Tree.isReset
  split
  · obtain ⟨x, rfl⟩ := plain
    split <;> rfl
  · rfl

/-- Where there are no variables, no statement resets some. -/
theorem isResetStatement_none {t : Tree} (plain : PlainStatement t) (filled : Filled t) :
    t.isResetStatement [] = .ok false := by
  unfold Tree.isResetStatement
  split
  -- An assignment list that is not empty has a target, which is not among no names.
  · obtain ⟨es, rfl, targets⟩ := plain
    cases es with
    | nil => cases filled
    | cons e es =>
      change (e.isReset [] >>= _) = _
      rw [isReset_none (targets e List.mem_cons_self)]
      rfl
  · rename_i l e single
    unfold PlainStatement at plain
    split at plain
    · rename_i same
      cases same
      exact (single _ _ rfl).elim
    · rename_i same
      cases same
      exact isReset_none plain
    · rename_i other
      exact (other _ _ rfl).elim
  · rfl

/-- Without locals, no statement of a filled row is dropped. -/
theorem dropResets_of_filled {ts : List Tree} (plain : ∀ t ∈ ts, PlainStatement t)
    (filled : ∀ t ∈ ts, Filled t) : dropResets [] ts = .ok ts := by
  cases ts with
  | nil => rfl
  | cons t ts =>
    rw [List.forall_mem_cons] at plain filled
    rw [dropResets, isResetStatement_none plain.1 filled.1]
    rfl

/-- The start of a row without a directive is walked like the rest. -/
theorem walkStart_plain {ts us : List Tree} {s s' : State}
    (plain : ∀ t ∈ ts.head?, t.isStrictDirective = false)
    (h : walkItems n ts s = .ok (us, s')) : walkStart n (.tuple ts) s = .ok (.tuple us, s') := by
  cases ts with
  | nil =>
    rw [walkItems, walk_pure] at h
    obtain ⟨rfl, rfl⟩ := h
    rw [walkStart]
    exact walk_pure.mpr ⟨rfl, rfl⟩
  | cons t ts =>
    rw [walkStart, if_neg (by simp [plain t rfl])]
    simp only [walkItems, walk_bind, walk_attempt, walk_pure] at h ⊢
    obtain ⟨walked, s1, first, row, s2, spliced, more, s3, rest, rfl, rfl⟩ := h
    exact ⟨walked, s1, first, row, s2, spliced, more, s', rest, rfl, rfl⟩

/-- The start of a strict body: the directive is set aside, the rest is walked. -/
theorem walkStart_strict {t : Tree} {ts us : List Tree} {s s' : State}
    (strict : t.isStrictDirective = true)
    (h : walkItems n ts (s.rescope fun a => { a with directive := some t }) = .ok (us, s')) :
    walkStart n (.tuple (t :: ts)) s = .ok (.tuple us, s') := by
  rw [walkStart, if_pos strict]
  simp only [walk_bind, walk_modifyScope, walk_pure]
  exact ⟨(), _, rfl, us, s', h, rfl, rfl⟩

/-- There are no blocks among resets. -/
theorem noBlocks_resets (names : List Text) : NoBlocks (resets names) := by
  unfold resets
  split
  · exact nofun
  · exact noBlocks_singleton rfl

/-- A body that is finished once is finished to the same when it is walked again. -/
theorem finishBody_again (a : Scope) (stats : Stats) {b : Scope} {ts ts' : List Tree}
    (empty : a.locals = []) (none : a.directive = none) (first : a.isTailRecursive = false)
    (named : ∀ x ∈ a.name, x ∈ own) (declarable : Declarable n a.params b.locals)
    (strict : ∀ t ∈ b.directive, t.isStrictDirective = true) (unlooped : b.isTailRecursive = false)
    (stay : ∀ t ∈ ts, Stays n own t) (flat : NoBlocks ts) (plain : ∀ t ∈ ts, PlainStatement t)
    (filled : ∀ t ∈ ts, Filled t) (finished : finishBody n b ts = .ok ts') :
    ∃ us s', walkStart n (.tuple ts') ⟨a, stats⟩ = .ok (.tuple us, s') ∧ NoBlocks us ∧
      finishBody n s'.scope us = .ok ts' ∧ s'.scope.isTailRecursive = false ∧
      State.Quiet ⟨a, stats⟩ ⟨a, s'.stats⟩ := by
  obtain ⟨rest, dropped, rfl⟩ := (finishBody_plain unlooped).mp finished
  have kept := mem_dropResets dropped
  have again := dropResets_again dropped
  have restStay : ∀ t ∈ rest, Stays n own t := fun t ht => stay t (kept t ht)
  have restFlat : NoBlocks rest := fun t ht => flat t (kept t ht)
  -- The declaration is walked with what follows it, whether or not a directive comes first.
  have walked (directive : Option Tree) :
      ∃ s', walkItems n (Tree.declareAll b.locals ++ rest) ⟨{ a with directive }, stats⟩ =
          .ok (resets b.locals ++ rest, s') ∧
        finishBody n s'.scope (resets b.locals ++ rest) =
          .ok (directive.toList ++ Tree.declareAll b.locals ++ rest) ∧
        s'.scope.isTailRecursive = false ∧ State.Quiet ⟨a, stats⟩ ⟨a, s'.stats⟩ := by
    obtain ⟨s', walked, quiet⟩ := walkItems_declareAll (s := ⟨{ a with directive }, stats⟩)
      empty declarable named restStay restFlat
    have unmarked : s'.scope.isTailRecursive = false := by
      rw [quiet.scope]
      exact first
    refine ⟨s', walked, (finishBody_plain unmarked).mpr ⟨rest, ?_, ?_⟩, unmarked,
      ⟨rfl, quiet.functions, quiet.calls, quiet.ternaries⟩⟩
    · rw [quiet.scope]
      exact (dropResets_resets _ _).trans again
    · rw [quiet.scope]
      rfl
  have flat' : NoBlocks (resets b.locals ++ rest) := (noBlocks_resets _).append restFlat
  cases directive : b.directive with
  | some t =>
    obtain ⟨s', walked, finished, unmarked, quiet⟩ := walked (some t)
    exact ⟨_, s', walkStart_strict (strict t directive) walked, flat', finished, unmarked, quiet⟩
  | none =>
    by_cases head : ∀ t ∈ (Tree.declareAll b.locals ++ rest).head?, t.isStrictDirective = false
    · obtain ⟨s', walked, finished, unmarked, quiet⟩ := walked a.directive
      rw [none] at finished
      exact ⟨_, s', walkStart_plain head walked, flat', finished, unmarked, quiet⟩
    · -- The string was not the first statement before. It is now, and nothing is declared.
      push Not at head
      obtain ⟨t, head, isStrict⟩ := head
      have unused : b.locals = [] := by
        by_contra used
        rw [Tree.declareAll, if_neg (by simpa using used)] at head
        cases head
        exact isStrict rfl
      rw [unused] at head ⊢
      cases rest with
      | nil => cases head
      | cons u rest =>
        cases head
        rw [List.forall_mem_cons] at restStay
        have flat' : NoBlocks rest := fun v hv => restFlat v (List.mem_cons_of_mem _ hv)
        obtain ⟨s', walked, quiet⟩ := Stays.walkItems restStay.2 flat'
          ⟨{ a with directive := some t }, stats⟩ named
        have unmarked : s'.scope.isTailRecursive = false := by
          rw [quiet.scope]
          exact first
        refine ⟨rest, s', walkStart_strict (by simpa using isStrict) walked, flat',
          (finishBody_plain unmarked).mpr ⟨rest, ?_, ?_⟩, unmarked,
          ⟨rfl, quiet.functions, quiet.calls, quiet.ternaries⟩⟩
        · rw [quiet.scope, empty]
          exact dropResets_of_filled
            (fun v hv => plain v (kept v (List.mem_cons_of_mem _ hv)))
            fun v hv => filled v (kept v (List.mem_cons_of_mem _ hv))
        · rw [quiet.scope, empty]
          rfl

/-! ## Scopes of the second walk -/

/-- A declarable scope stays so as it gains a local that is not reserved. -/
theorem Declarable.addLocal {a : Scope} {x : Text} (h : Declarable n a.params a.locals)
    (free : n.reserves x = false) : Declarable n a.params (a.addLocal x).locals := by
  unfold Scope.addLocal
  split
  · exact h
  · rename_i fresh
    rw [Bool.or_eq_true, List.contains_iff_mem, List.contains_iff_mem, not_or] at fresh
    refine ⟨?_, ?_, ?_⟩
    · exact List.forall_mem_append.mpr ⟨h.free, List.forall_mem_singleton.mpr free⟩
    · rw [List.nodup_append]
      refine ⟨h.distinct, List.nodup_cons.mpr ⟨nofun, List.nodup_nil⟩, ?_⟩
      rintro y known z hz rfl
      rw [List.mem_singleton.mp hz] at known
      exact fresh.2 known
    · exact List.forall_mem_append.mpr ⟨h.apart, List.forall_mem_singleton.mpr fresh.1⟩

/-- The scope at the end of a walk can be declared once more. -/
theorem Walks.declarable {s s' : State} {ts ts' : List Tree}
    (h : Walks n s (.statements ts ts') s') (empty : s.scope.locals = []) :
    Declarable n s.scope.params s'.scope.locals := by
  have kept := h.preserves
    (I := fun a => a.params = s.scope.params ∧ Declarable n a.params a.locals) ?_ ?_ rfl
    ⟨rfl, by rw [empty]; exact ⟨nofun, List.nodup_nil, nofun⟩⟩
  · rw [← kept.1]
    exact kept.2
  · rintro a x free ⟨params, declarable⟩
    rw [params_addLocal]
    exact ⟨params, declarable.addLocal free⟩
  · rintro a args ⟨params, declarable⟩
    rw [locals_useAll, (Scope.Leads.useAll _ _).params]
    exact ⟨params, declarable⟩

/-- The variables that a walk finds in a body can be declared at its top. -/
theorem declarable_of_start {s s' : State} {ts ts' : List Tree}
    (h : Walks n s (.start ts ts') s') (empty : s.scope.locals = []) :
    Declarable n s.scope.params s'.scope.locals := by
  cases h with
  | startStrict _ parts =>
    have inner := parts.declarable empty
    exact inner
  | startPlain _ parts => exact parts.declarable empty

/-- Whether a row starts strictly is always known. -/
theorem exists_startsStrict (ts : List Tree) :
    ∃ strict, (Tree.tuple ts).startsStrict = .ok strict := by
  cases ts with
  | nil => exact ⟨false, rfl⟩
  | cons t ts => exact ⟨t.isStrictDirective, rfl⟩

/-- A name by which a body can call its function again is one by which it could before, where the
body declares what it did. -/
theorem ownName_again {params : List Text} {body body' : Tree} {name own : Option Text}
    (h : ownName? params body name = .ok own)
    (found : ∃ names, body'.declaredNames = .ok names)
    (declared : ∀ x ∈ body.ownNames, x ∈ body'.ownNames ∨ x ∈ params) :
    ∃ again, ownName? params body' name = .ok again ∧ ∀ x ∈ again, x ∈ own := by
  cases name with
  -- A function without a name has no own name either.
  | none => exact ⟨none, rfl, nofun⟩
  | some x =>
    rw [ownName?] at h ⊢
    -- If a parameter has the name, the body is not looked at.
    split at h
    · rename_i param
      exact ⟨none, if_pos param, nofun⟩
    · rename_i free
      rw [if_neg free]
      obtain ⟨names', found'⟩ := found
      obtain ⟨names, found, h⟩ := bind_ok.mp h
      cases h
      refine ⟨_, bind_ok.mpr ⟨names', found', rfl⟩, ?_⟩
      rw [eq_ownNames found, eq_ownNames found']
      split
      · exact nofun
      -- The new body declares at least what the old one did, so that the name stays unknown.
      · rename_i unknown
        have unknown' : ¬ body.ownNames.contains x = true := by
          intro own
          rcases declared x (List.contains_iff_mem.mp own) with own | param
          · exact unknown (List.contains_iff_mem.mpr own)
          · exact free (List.contains_iff_mem.mpr param)
        rw [if_neg unknown']
        exact fun _ => id

/-- A function that is entered again has the same scope, but for its name, which may be missing. -/
theorem ofFunction_again {id body body' : Tree} {ps ss' : List Tree} {a : Scope}
    (starts : Scope.ofFunction n id (.tuple ps) body = .ok a)
    (holds : body'.field "body" = .ok (.tuple ss'))
    (found : ∃ names, body'.declaredNames = .ok names)
    (declared : ∀ x ∈ body.ownNames, x ∈ body'.ownNames ∨ x ∈ a.params) :
    ∃ name startsStrict, (∀ x ∈ name, x ∈ a.name) ∧
      Scope.ofFunction n id (.tuple ps) body' = .ok { a with name, startsStrict } := by
  -- The parameters and the name are those of the first run; only the body is read again.
  obtain ⟨names, params, starts⟩ := bind_ok.mp starts
  obtain ⟨name, named, starts⟩ := bind_ok.mp starts
  obtain ⟨own, owned, starts⟩ := bind_ok.mp starts
  obtain ⟨statements, -, starts⟩ := bind_ok.mp starts
  obtain ⟨strict, -, starts⟩ := bind_ok.mp starts
  cases starts
  obtain ⟨again, owned', fewer⟩ := ownName_again (refuseFault_ok.mp owned) found declared
  obtain ⟨strict', starts'⟩ := exists_startsStrict ss'
  refine ⟨again, strict', fewer, ?_⟩
  exact bind_ok.mpr ⟨names, params, bind_ok.mpr ⟨name, named,
    bind_ok.mpr ⟨again, refuseFault_ok.mpr owned',
      bind_ok.mpr ⟨_, refuseFault_ok.mpr holds,
        bind_ok.mpr ⟨strict', refuseFault_ok.mpr starts', rfl⟩⟩⟩⟩⟩

/-- The names of a declaration in front of a body are found. -/
theorem findable_declareAll (names : List Text) :
    ∀ t ∈ Tree.declareAll names, ∃ xs, t.declaredNames = .ok xs := by
  unfold Tree.declareAll
  split
  · exact nofun
  · refine forall₁ (findable.inert rfl ⟨_, rfl, ?_⟩
      (forall₂ (findable.tuple ?_) (findable.plain rfl)))
    · exact List.forall_mem_map.mpr fun x _ => rfl
    · exact List.forall_mem_map.mpr fun x _ => ⟨[x], rfl⟩

/-- The names of a finished body are found if those of its statements are. -/
theorem findable_finishBody (lb : Option Location) {a : Scope} {ts ts' : List Tree}
    (strict : ∀ t ∈ a.directive, t.isStrictDirective = true) (unlooped : a.isTailRecursive = false)
    (found : ∀ t ∈ ts, ∃ names, t.declaredNames = .ok names)
    (finished : finishBody n a ts = .ok ts') :
    ∃ names, (Tree.node lb (.block (.tuple ts'))).declaredNames = .ok names := by
  obtain ⟨rest, dropped, rfl⟩ := (finishBody_plain unlooped).mp finished
  have directive : ∀ t ∈ a.directive.toList, ∃ names, t.declaredNames = .ok names := by
    intro t ht
    obtain ⟨l, le, rfl⟩ := eq_strictDirective (strict t (Option.mem_toList.mp ht))
    exact ⟨[], rfl⟩
  refine findable.inert rfl trivial (forall₁ (findable.tuple ?_))
  refine List.forall_mem_append.mpr ⟨List.forall_mem_append.mpr ⟨directive, ?_⟩, ?_⟩
  · exact findable_declareAll _
  · exact fun t ht => found t (mem_dropResets dropped t ht)

/-- A function with a finished body stays. -/
theorem Stays.function {a : Scope} {stats : Stats} {s1 : State} {l lb : Option Location}
    {form : FunctionForm} {id : Tree} {ps ss ss1 ss' : List Tree}
    (starts : Scope.ofFunction n id (.tuple ps) (.node lb (.block (.tuple ss))) = .ok a)
    (named : form = .declaration → IsName id)
    (walked : Walks n ⟨a, stats⟩ (.start ss ss1) s1) (unlooped : s1.scope.isTailRecursive = false)
    (finished : finishBody n s1.scope ss1 = .ok ss') (stay : ∀ t ∈ ss1, Stays n a.name t)
    (flat : NoBlocks ss1) (filled : ∀ t ∈ ss1, Filled t) :
    Stays n own (.node l (.function form id (.tuple ps) (.node lb (.block (.tuple ss'))))) where
  walk := by
    intro s _
    have fresh := starts_ofFunction starts
    -- What the body declared is declared in front of it now.
    have strict := strict_of_start walked fresh.directive
    have tracks : Tracks (fun _ _ => True) a s1.scope ss ss1 :=
      walked.tracked fun _ _ => trivial
    have names := (scopes_finishBody strict walked.plain finished).2
    have declared : ∀ x ∈ ss.flatMap ownNames, x ∈ ss'.flatMap ownNames ∨ x ∈ a.params := by
      intro x hx
      rcases (tracks.names x).mpr (.inr (.inl hx)) with known | known | known
      · exact .inl ((names x).mpr (.inl known))
      · exact .inl ((names x).mpr (.inr (.inr known)))
      · exact .inr known
    have found := findable_finishBody lb strict unlooped (fun t ht => (stay t ht).names) finished
    -- The second run starts from a scope with fewer names, and finds the body as the first one left
    -- it.
    obtain ⟨name, startsStrict, fewer, again⟩ := ofFunction_again starts rfl found (by
      rw [ownNames_block, ownNames_block]
      exact declared)
    obtain ⟨us, s', restarted, flat', finished', unmarked, quiet⟩ :=
      finishBody_again { a with name, startsStrict } s.stats fresh.locals
        fresh.directive fresh.tail fewer (declarable_of_start walked fresh.locals) strict unlooped
        stay flat walked.plain filled finished
    refine ⟨⟨s.scope, s'.stats⟩, walk_function.mpr ⟨_, .node lb (.block (.tuple us)), s', us, ss',
      again, ?_, rfl, finished', rfl, ?_⟩, ⟨rfl, quiet.functions, quiet.calls, quiet.ternaries⟩⟩
    · simp only [Elimination.walk, Position.isBody, if_true, walk_bind, walk_attempt, walk_pure,
        Position.restore]
      exact ⟨_, _, restarted, _, _, ⟨unwrapBlock_tuple flat', rfl⟩, rfl, rfl⟩
    · rw [Stats.addFunction, if_neg (by simp [unmarked])]
  names := by
    cases form with
    | declaration =>
      obtain ⟨li, spelled⟩ := named rfl
      exact ⟨_, rfl⟩
    | expression => exact ⟨[], rfl⟩

/-! ## What the first walk leaves behind -/

/-- A returned value that was kept is kept again. -/
theorem converts_again {s s' : State} {a b : Scope} {e e' : Tree}
    (h : Walks n s (.expression e e') s') (fewer : ∀ x ∈ b.name, x ∈ a.name)
    (kept : a.converts e = false) : b.converts e' = false := by
  cases h with
  | conditional => cases kept
  -- The callee is left as it is, so that it would have been converted before.
  | @call _ _ _ _ callee callee' _ _ part parts =>
    have others : b.name.any (isIdentifier · callee') = false := by
      cases known : b.name with
      | none => rfl
      | some x =>
        rw [Option.any_some, Bool.eq_false_iff]
        intro same
        obtain ⟨lf, rfl⟩ := isIdentifier_iff.mp same
        cases part with
        | identifier =>
          have own : a.converts (.node none (.call (.node lf (.identifier (.text x))) .null)) =
              true := by
            rw [Scope.converts, fewer x known]
            exact same
          exact Bool.false_ne_true (kept.symm.trans own)
    exact others
  | _ => rfl

/-- The statement of a walked expression is not an empty sequence. -/
theorem filled_expression {s s' : State} {c : Targets} {l : Option Location} {e e' : Tree}
    (h : Walks n s (.expression e e') s') (wf : WellFormed false c e) :
    Filled (.node l (.expressionStatement e')) := by
  cases h with
  | sequence parts =>
    cases parts with
    | noExpressions =>
      cases wf with
      | sequence some => exact some rfl
    | moreExpressions => trivial
  | _ => trivial

/-- A statement stays, by itself and where it stands in a row. -/
structure StaysInRow (n : Naming) (own : Option Text) (t : Tree) : Prop where
  stays : Stays n own t
  spliced : ∀ ts, t.spliced = .ok ts → ∀ u ∈ ts, Stays n own u ∧ Filled u

/-- What is no block stays in a row as it stays alone. -/
theorem StaysInRow.of_hasKind {t : Tree} (h : t.hasKind .blockStatement = false)
    (stays : Stays n own t) (filled : Filled t) : StaysInRow n own t := by
  refine ⟨stays, fun ts spliced => ?_⟩
  rw [spliced_of_hasKind h] at spliced
  cases spliced
  exact List.forall_mem_singleton.mpr ⟨stays, filled⟩

/-- A block stays in a row by its statements, which take its place. -/
theorem StaysInRow.block {l : Option Location} {ts : List Tree}
    (h : ∀ t ∈ ts, Stays n own t ∧ Filled t) (flat : NoBlocks ts) :
    StaysInRow n own (.node l (.block (.tuple ts))) := by
  refine ⟨.block (fun t ht => (h t ht).1) flat, fun us spliced => ?_⟩
  cases spliced
  exact h

/-- The original piece of an edit is well-formed, jumps aside. -/
def Edit.Formed (c : Targets) : Edit → Prop
  | .body _ ts _ => ∀ t ∈ ts, IsStatement false {} t
  | edit => edit.Source false c

/-- The walked piece of an edit stays when it is walked again. -/
def Edit.Stays (n : Naming) (own : Option Text) : Edit → Prop
  | .expression _ e' | .optional _ e' | .initial _ e' | .optionalStatement _ e' =>
    Elimination.Stays n own e'
  | .expressions _ es' | .declarators _ es' => ∀ e ∈ es', Elimination.Stays n own e
  | .returned _ _ t' | .branch _ t' | .statement _ t' => StaysInRow n own t'
  | .branchItems _ ts' | .statements _ ts' | .start _ ts' =>
    ∀ t ∈ ts', Elimination.Stays n own t ∧ Filled t
  | .loopStart _ t' => Elimination.Stays n own t' ∧ Elimination.loopStart t' = t'
  | .body a ss ss' => ∀ {l form id ps lb own},
    Scope.ofFunction n id (.tuple ps) (.node lb (.block (.tuple ss))) = .ok a →
    (form = .declaration → IsName id) →
    Elimination.Stays n own (.node l (.function form id (.tuple ps) (.node lb (.block (.tuple ss')))))

/-- Walked expressions have no blocks among them. -/
theorem noBlocks_of_expressions {s s' : State} {es es' : List Tree}
    (h : Walks n s (.expressions es es') s') : NoBlocks es' := by
  induction es generalizing s es' with
  | nil =>
    cases h
    exact nofun
  | cons e es ih =>
    cases h with
    | moreExpressions part parts =>
      exact (noBlocks_singleton (hasKind_of_isExpression part.flat)).append (ih parts)

/-- The assignments of declarators have no blocks among them. -/
theorem noBlocks_of_declarators {s s' : State} {ds es : List Tree}
    (h : Walks n s (.declarators ds es) s') : NoBlocks es := by
  induction ds generalizing s es with
  | nil =>
    cases h
    exact nofun
  | cons d ds ih =>
    cases h with
    | moreDeclarators _ _ parts => exact (noBlocks_singleton rfl).append (ih parts)

/-- No walked start of a body has a block among its statements. -/
theorem noBlocks_of_start {s s' : State} {ts ts' : List Tree} (h : Walks n s (.start ts ts') s') :
    NoBlocks ts' := by
  cases h with
  | startStrict _ parts => exact parts.flat
  | startPlain _ parts => exact parts.flat

/-- An expression is no declaration of variables. -/
theorem hasKind_variableDeclaration_of_isExpression {e : Tree} (h : e.isExpression = true) :
    e.hasKind .variableDeclaration = false := by
  cases kind : e.hasKind .variableDeclaration with
  | false => rfl
  | true =>
    obtain ⟨l, ds, k, rfl⟩ := eq_variableDeclaration kind
    cases h

/-! ## Rules of the walk -/

/-- A walk of a piece that stays when it is walked again, if no call was converted on the walk.
Calls are only ever added to those counted: if none is on the whole walk, none is on the walk of a
part (`Counts.halves`). -/
structure KeepsStays (n : Naming) (s : State) (edit : Edit) (s' : State) : Prop where
  walks : Walks n s edit s'
  stays {own : Option Text} {c : Targets} : s'.stats.calls ≤ s.stats.calls → s.scope.name = own →
    edit.Formed c → edit.Stays n own

-- There is one lemma for each rule of the walk.
namespace KeepsStays

variable {s s1 s2 s3 s' : State} {l lb lc ld le lf li ln : Option Location} {name op : Text}
  {kind : JumpKind} {domain : Domain} {isPrefix : Bool} {scope : Scope}
  {id value e e' t t' object object' property property' callee callee' argument argument' left left'
    right right' test test' consequent consequent' alternate alternate' init init' step step' body
    body' : Tree}
  {es es' ps ss ss1 ss' args args' ts ts' ts'' ds : List Tree}

theorem identifier :
    KeepsStays n s
      (.expression (.node l (.identifier (.text name))) (.node l (.identifier (.text name)))) s := by
  refine ⟨.identifier, fun unconverted name source => ?_⟩
  exact .identifier

theorem literal (plain : value.isPlain = true) :
    KeepsStays n s (.expression (.node l (.literal value)) (.node l (.literal value))) s := by
  refine ⟨.literal plain, fun unconverted name source => ?_⟩
  exact .node rfl (forall₁ (.atom plain))

theorem array (h : KeepsStays n s (.expressions es es') s') :
    KeepsStays n s
      (.expression (.node l (.array (.tuple es))) (.node l (.array (.tuple es')))) s' := by
  refine ⟨.array h.walks, fun unconverted name source => ?_⟩
  obtain ⟨-, wf⟩ := source
  cases wf with
  | array kinds wfs =>
    have es' := h.stays unconverted name fun e he => ⟨kinds e he, wfs e he⟩
    exact .node rfl (forall₁ (.row es' (noBlocks_of_expressions h.walks)))

/-- A function stays as its body does, in the scope that its parameters start. -/
theorem function
    (starts : Scope.ofFunction n id (.tuple ps) (.node lb (.block (.tuple ss))) = .ok scope)
    (h : KeepsStays n s (.body scope ss ss') s') :
    KeepsStays n s
      (.expression
        (.node l (.function .expression id (.tuple ps) (.node lb (.block (.tuple ss)))))
        (.node l (.function .expression id (.tuple ps) (.node lb (.block (.tuple ss')))))) s' := by
  refine ⟨.function starts h.walks, fun unconverted name source => ?_⟩
  obtain ⟨-, wf⟩ := source
  cases wf with
  | function named _ _ kinds wfs =>
    exact h.stays (c := {}) unconverted name (fun t ht => ⟨kinds t ht, wfs t ht⟩) starts named

/-- A function declaration stays as its body does. -/
theorem functionDeclaration
    (starts : Scope.ofFunction n id (.tuple ps) (.node lb (.block (.tuple ss))) = .ok scope)
    (h : KeepsStays n s (.body scope ss ss') s') :
    KeepsStays n s
      (.statement
        (.node l (.function .declaration id (.tuple ps) (.node lb (.block (.tuple ss)))))
        (.node l (.function .declaration id (.tuple ps) (.node lb (.block (.tuple ss')))))) s' := by
  refine ⟨.functionDeclaration starts h.walks, fun unconverted name source => ?_⟩
  obtain ⟨-, wf⟩ := source
  cases wf with
  | function named _ _ kinds wfs =>
    exact .of_hasKind rfl
      (h.stays (c := {}) unconverted name (fun t ht => ⟨kinds t ht, wfs t ht⟩) starts named) trivial

theorem call (h₁ : KeepsStays n s (.expression callee callee') s1)
    (h₂ : KeepsStays n s1 (.expressions args args') s') :
    KeepsStays n s
      (.expression (.node l (.call callee (.tuple args)))
        (.node l (.call callee' (.tuple args')))) s' := by
  refine ⟨.call h₁.walks h₂.walks, fun unconverted name source => ?_⟩
  obtain ⟨-, wf⟩ := source
  obtain ⟨u1, u2⟩ := h₁.walks.counts.halves h₂.walks.counts unconverted
  cases wf with
  | call kind wf kinds wfs =>
    have args' := h₂.stays u2 (h₁.walks.leads.name.trans name) fun e he => ⟨kinds e he, wfs e he⟩
    exact .node rfl (forall₂ (h₁.stays u1 name ⟨kind, wf⟩)
      (.row args' (noBlocks_of_expressions h₂.walks)))

theorem member (h : KeepsStays n s (.expression object object') s') (name : IsName property) :
    KeepsStays n s
      (.expression (.node l (.member object property (.bool false)))
        (.node l (.member object' property (.bool false)))) s' := by
  refine ⟨.member h.walks name, fun unconverted called source => ?_⟩
  obtain ⟨-, wf⟩ := source
  cases wf with
  | member kind wf =>
    obtain ⟨ln, name⟩ := name
    exact .node rfl (forall₃ (h.stays unconverted called ⟨kind, wf⟩) .identifier (.atom rfl))

theorem computedMember (h₁ : KeepsStays n s (.expression object object') s1)
    (h₂ : KeepsStays n s1 (.expression property property') s') :
    KeepsStays n s
      (.expression (.node l (.member object property (.bool true)))
        (.node l (.member object' property' (.bool true)))) s' := by
  refine ⟨.computedMember h₁.walks h₂.walks, fun unconverted name source => ?_⟩
  obtain ⟨-, wf⟩ := source
  obtain ⟨u1, u2⟩ := h₁.walks.counts.halves h₂.walks.counts unconverted
  cases wf with
  | computedMember kind wf keyKind keyWf =>
    exact .node rfl (forall₃ (h₁.stays u1 name ⟨kind, wf⟩)
      (h₂.stays u2 (h₁.walks.leads.name.trans name) ⟨keyKind, keyWf⟩) (.atom rfl))

theorem conditional (h₁ : KeepsStays n s (.expression test test') s1)
    (h₂ : KeepsStays n s1 (.expression consequent consequent') s2)
    (h₃ : KeepsStays n s2 (.expression alternate alternate') s') :
    KeepsStays n s
      (.expression (.node l (.conditional test consequent alternate))
        (.node l (.conditional test' consequent' alternate'))) s' := by
  refine ⟨.conditional h₁.walks h₂.walks h₃.walks, fun unconverted name source => ?_⟩
  obtain ⟨-, wf⟩ := source
  obtain ⟨u1, rest⟩ := h₁.walks.counts.halves (h₂.walks.counts.trans h₃.walks.counts) unconverted
  obtain ⟨u2, u3⟩ := h₂.walks.counts.halves h₃.walks.counts rest
  have name1 := h₁.walks.leads.name.trans name
  cases wf with
  | conditional testKind testWf kind wf elseKind elseWf =>
    exact .node rfl (forall₃ (h₁.stays u1 name ⟨testKind, testWf⟩) (h₂.stays u2 name1 ⟨kind, wf⟩)
      (h₃.stays u3 (h₂.walks.leads.name.trans name1) ⟨elseKind, elseWf⟩))

theorem assignment (h₁ : KeepsStays n s (.expression left left') s1)
    (h₂ : KeepsStays n s1 (.expression right right') s') :
    KeepsStays n s
      (.expression (.node l (.assignment (.text op) left right))
        (.node l (.assignment (.text op) left' right'))) s' := by
  refine ⟨.assignment h₁.walks h₂.walks, fun unconverted name source => ?_⟩
  obtain ⟨-, wf⟩ := source
  obtain ⟨u1, u2⟩ := h₁.walks.counts.halves h₂.walks.counts unconverted
  cases wf with
  | assignment _ target leftWf kind wf =>
    exact .node rfl (forall₃ (.atom rfl)
      (h₁.stays u1 name ⟨isExpression_of_isAssignable target, leftWf⟩)
      (h₂.stays u2 (h₁.walks.leads.name.trans name) ⟨kind, wf⟩))

theorem sequence (h : KeepsStays n s (.expressions es es') s') :
    KeepsStays n s (.expression (.node l (.sequence (.tuple es))) (.node l (.sequence (.tuple es'))))
      s' := by
  refine ⟨.sequence h.walks, fun unconverted name source => ?_⟩
  obtain ⟨-, wf⟩ := source
  cases wf with
  | sequence _ kinds wfs =>
    have es' := h.stays unconverted name fun e he => ⟨kinds e he, wfs e he⟩
    exact .node rfl (forall₁ (.row es' (noBlocks_of_expressions h.walks)))

theorem binary (h₁ : KeepsStays n s (.expression left left') s1)
    (h₂ : KeepsStays n s1 (.expression right right') s') :
    KeepsStays n s
      (.expression (.node l (.binary (.text op) left right))
        (.node l (.binary (.text op) left' right'))) s' := by
  refine ⟨.binary h₁.walks h₂.walks, fun unconverted name source => ?_⟩
  obtain ⟨-, wf⟩ := source
  obtain ⟨u1, u2⟩ := h₁.walks.counts.halves h₂.walks.counts unconverted
  cases wf with
  | binary _ leftKind leftWf kind wf =>
    exact .node rfl (forall₃ (.atom rfl) (h₁.stays u1 name ⟨leftKind, leftWf⟩)
      (h₂.stays u2 (h₁.walks.leads.name.trans name) ⟨kind, wf⟩))

theorem logical (h₁ : KeepsStays n s (.expression left left') s1)
    (h₂ : KeepsStays n s1 (.expression right right') s') :
    KeepsStays n s
      (.expression (.node l (.logical (.text op) left right))
        (.node l (.logical (.text op) left' right'))) s' := by
  refine ⟨.logical h₁.walks h₂.walks, fun unconverted name source => ?_⟩
  obtain ⟨-, wf⟩ := source
  obtain ⟨u1, u2⟩ := h₁.walks.counts.halves h₂.walks.counts unconverted
  cases wf with
  | logical _ leftKind leftWf kind wf =>
    exact .node rfl (forall₃ (.atom rfl) (h₁.stays u1 name ⟨leftKind, leftWf⟩)
      (h₂.stays u2 (h₁.walks.leads.name.trans name) ⟨kind, wf⟩))

theorem unary (h : KeepsStays n s (.expression argument argument') s') :
    KeepsStays n s
      (.expression (.node l (.unary (.text op) argument (.bool isPrefix)))
        (.node l (.unary (.text op) argument' (.bool isPrefix)))) s' := by
  refine ⟨.unary h.walks, fun unconverted name source => ?_⟩
  obtain ⟨-, wf⟩ := source
  cases wf with
  | unary _ kind wf =>
    exact .node rfl (forall₃ (.atom rfl) (h.stays unconverted name ⟨kind, wf⟩) (.atom rfl))

theorem update (h : KeepsStays n s (.expression argument argument') s') :
    KeepsStays n s
      (.expression (.node l (.update (.text op) argument (.bool isPrefix)))
        (.node l (.update (.text op) argument' (.bool isPrefix)))) s' := by
  refine ⟨.update h.walks, fun unconverted name source => ?_⟩
  obtain ⟨-, wf⟩ := source
  cases wf with
  | update _ target wf =>
    exact .node rfl (forall₃ (.atom rfl)
      (h.stays unconverted name ⟨isExpression_of_isAssignable target, wf⟩) (.atom rfl))

theorem absent : KeepsStays n s (.optional .null .null) s := by
  refine ⟨.absent, fun unconverted name source => ?_⟩
  exact .atom rfl

theorem noAlternate : KeepsStays n s (.optionalStatement .null .null) s := by
  refine ⟨.noAlternate, fun unconverted name source => ?_⟩
  exact .atom rfl

theorem present (h : KeepsStays n s (.expression e e') s') : KeepsStays n s (.optional e e') s' := by
  refine ⟨.present h.walks, fun unconverted name source => ?_⟩
  exact h.stays unconverted name (source (isNull_of_walks h.walks))

theorem noExpressions : KeepsStays n s (.expressions [] []) s := by
  refine ⟨.noExpressions, fun unconverted name source => ?_⟩
  exact nofun

theorem noStatements : KeepsStays n s (.statements [] []) s := by
  refine ⟨.noStatements, fun unconverted name source => ?_⟩
  exact nofun

theorem noDeclarators : KeepsStays n s (.declarators [] []) s := by
  refine ⟨.noDeclarators, fun unconverted name source => ?_⟩
  exact nofun

theorem moreExpressions (h₁ : KeepsStays n s (.expression e e') s1)
    (h₂ : KeepsStays n s1 (.expressions es es') s') :
    KeepsStays n s (.expressions (e :: es) (e' :: es')) s' := by
  refine ⟨.moreExpressions h₁.walks h₂.walks, fun unconverted name source => ?_⟩
  obtain ⟨u1, u2⟩ := h₁.walks.counts.halves h₂.walks.counts unconverted
  have source := List.forall_mem_cons.mp source
  exact List.forall_mem_cons.mpr ⟨h₁.stays u1 name source.1,
    h₂.stays u2 (h₁.walks.leads.name.trans name) source.2⟩

theorem returnNothing : KeepsStays n s (.returned l .null (.node l (.returnStatement .null))) s := by
  refine ⟨.returnNothing, fun unconverted name source => ?_⟩
  exact .of_hasKind rfl (.returnStatement (.atom rfl) nofun) trivial

/-- A converted call becomes assignments and a `continue`, which a second walk leaves alone. -/
theorem returnCall (own : s.scope.name = some name) (h : KeepsStays n s (.expressions args args') s1)
    (converted : convertCall n l lc args' s1 = .ok (t', s')) :
    KeepsStays n s
      (.returned l (.node lc (.call (.node lf (.identifier (.text name))) (.tuple args))) t') s' := by
  refine ⟨.returnCall own h.walks converted, fun unconverted name source => ?_⟩
  obtain ⟨-, -, rfl⟩ := convertCall_ok.mp converted
  exact absurd (Nat.lt_of_lt_of_le (Nat.lt_succ_of_le h.walks.counts.calls) unconverted)
    (Nat.lt_irrefl _)

/-- A returned choice becomes an `if` statement, where no choice is returned any more. -/
theorem returnConditional (h₁ : KeepsStays n (s.tally Stats.addTernary) (.expression test test') s1)
    (h₂ : KeepsStays n s1 (.branch consequent consequent') s2)
    (h₃ : KeepsStays n s2 (.branch alternate alternate') s') :
    KeepsStays n s
      (.returned l (.node lc (.conditional test consequent alternate))
        (.node l (.ifStatement test' consequent' alternate'))) s' := by
  refine ⟨.returnConditional h₁.walks h₂.walks h₃.walks, fun unconverted name source => ?_⟩
  obtain ⟨-, wf⟩ := source rfl
  obtain ⟨u1, rest⟩ := h₁.walks.counts.halves (h₂.walks.counts.trans h₃.walks.counts) unconverted
  obtain ⟨u2, u3⟩ := h₂.walks.counts.halves h₃.walks.counts rest
  have name1 := h₁.walks.leads.name.trans name
  cases wf with
  | conditional testKind testWf kind wf elseKind elseWf =>
    exact .of_hasKind rfl (.node rfl (forall₃ (h₁.stays u1 name ⟨testKind, testWf⟩)
      (h₂.stays u2 name1 ⟨kind, wf⟩).stays
      (h₃.stays u3 (h₂.walks.leads.name.trans name1) ⟨elseKind, elseWf⟩).stays)) trivial

/-- What is returned and not converted is still not converted the second time. -/
theorem returnValue (kept : s.scope.converts e = false) (h : KeepsStays n s (.expression e e') s') :
    KeepsStays n s (.returned l e (.node l (.returnStatement e'))) s' := by
  refine ⟨.returnValue kept h.walks, fun unconverted name source => ?_⟩
  have value := h.stays unconverted name (source (isNull_of_walks h.walks))
  refine .of_hasKind rfl (.returnStatement value fun _ => ⟨h.walks.flat, ?_⟩) trivial
  intro b fewer
  exact converts_again h.walks (by rw [name]; exact fewer) kept

/-- A branch that is one value becomes a `return` statement. -/
theorem branchValue (single : e.hasKind .sequenceExpression = false)
    (h : KeepsStays n s (.returned e.location? e t') s') :
    KeepsStays n s (.branch e t') s' := by
  refine ⟨.branchValue single h.walks, fun unconverted name source => ?_⟩
  exact h.stays unconverted name fun _ => source

/-- A branch that is a sequence becomes a block. -/
theorem branchSequence (h : KeepsStays n s (.branchItems es ts) s') :
    KeepsStays n s
      (.branch (.node l (.sequence (.tuple es))) (Tree.new (.block (.tuple ts)))) s' := by
  refine ⟨.branchSequence h.walks, fun unconverted name source => ?_⟩
  obtain ⟨-, wf⟩ := source
  cases wf with
  | sequence _ kinds wfs =>
    exact .block (h.stays unconverted name fun e he => ⟨kinds e he, wfs e he⟩) h.walks.flat

/-- The last item of a branch is what it returns. -/
theorem branchLast (h : KeepsStays n s (.returned e.location? e t') s')
    (spliced : t'.spliced = .ok ts) :
    KeepsStays n s (.branchItems [e] ts) s' := by
  refine ⟨.branchLast h.walks spliced, fun unconverted name source => ?_⟩
  exact (h.stays unconverted name fun _ => source _ List.mem_cons_self).spliced _ spliced

/-- The items before the last one become statements. -/
theorem branchMore (more : es ≠ []) (h₁ : KeepsStays n s (.expression e e') s1)
    (h₂ : KeepsStays n s1 (.branchItems es ts) s') :
    KeepsStays n s
      (.branchItems (e :: es) (.node e.location? (.expressionStatement e') :: ts)) s' := by
  refine ⟨.branchMore more h₁.walks h₂.walks, fun unconverted name source => ?_⟩
  obtain ⟨u1, u2⟩ := h₁.walks.counts.halves h₂.walks.counts unconverted
  have source := List.forall_mem_cons.mp source
  refine List.forall_mem_cons.mpr ⟨⟨.node rfl (forall₁ (h₁.stays u1 name source.1)), ?_⟩,
    h₂.stays u2 (h₁.walks.leads.name.trans name) source.2⟩
  exact filled_expression h₁.walks source.1.2

theorem block (h : KeepsStays n s (.statements ss ss') s') :
    KeepsStays n s
      (.statement (.node l (.block (.tuple ss))) (.node l (.block (.tuple ss')))) s' := by
  refine ⟨.block h.walks, fun unconverted name source => ?_⟩
  obtain ⟨-, wf⟩ := source
  cases wf with
  | block kinds wfs =>
    exact .block (h.stays unconverted name fun t ht => ⟨kinds t ht, wfs t ht⟩) h.walks.flat

theorem returnStatement (h : KeepsStays n s (.returned l argument t') s') :
    KeepsStays n s (.statement (.node l (.returnStatement argument)) t') s' := by
  refine ⟨.returnStatement h.walks, fun unconverted name source => ?_⟩
  obtain ⟨-, wf⟩ := source
  cases wf with
  | returnStatement kind wf => exact h.stays unconverted name fun hn => ⟨kind hn, wf hn⟩

/-- A declaration becomes a sequence of assignments, which declares nothing any more. -/
theorem variableDeclaration (h : KeepsStays n s (.declarators ds es) s') :
    KeepsStays n s
      (.statement (.node l (.variableDeclaration (.tuple ds) (.text Tree.varKind)))
        (.node l (.expressionStatement (Tree.new (.sequence (.tuple es))))))
      (s'.tally (Stats.addVars es.length)) := by
  refine ⟨.variableDeclaration h.walks, fun unconverted name source => ?_⟩
  obtain ⟨-, wf⟩ := source
  cases wf with
  | variableDeclaration some kinds wfs =>
    have es' := h.stays unconverted name fun d hd => ⟨kinds d hd, wfs d hd⟩
    refine .of_hasKind rfl (.node rfl (forall₁ (.node rfl
      (forall₁ (.row es' (noBlocks_of_declarators h.walks)))))) ?_
    cases h.walks with
    | noDeclarators => exact some rfl
    | moreDeclarators => trivial

theorem ifStatement (h₁ : KeepsStays n s (.expression test test') s1)
    (h₂ : KeepsStays n s1 (.statement consequent consequent') s2)
    (h₃ : KeepsStays n s2 (.optionalStatement alternate alternate') s') :
    KeepsStays n s
      (.statement (.node l (.ifStatement test consequent alternate))
        (.node l (.ifStatement test' consequent' alternate'))) s' := by
  refine ⟨.ifStatement h₁.walks h₂.walks h₃.walks, fun unconverted name source => ?_⟩
  obtain ⟨-, wf⟩ := source
  obtain ⟨u1, rest⟩ := h₁.walks.counts.halves (h₂.walks.counts.trans h₃.walks.counts) unconverted
  obtain ⟨u2, u3⟩ := h₂.walks.counts.halves h₃.walks.counts rest
  have name1 := h₁.walks.leads.name.trans name
  cases wf with
  | ifStatement testKind testWf kind wf elseKind elseWf =>
    exact .of_hasKind rfl (.node rfl (forall₃ (h₁.stays u1 name ⟨testKind, testWf⟩)
      (h₂.stays u2 name1 ⟨kind, wf⟩).stays
      (h₃.stays u3 (h₂.walks.leads.name.trans name1) fun hn => ⟨elseKind hn, elseWf hn⟩))) trivial

theorem forStatement (h₁ : KeepsStays n s (.loopStart init init') s1)
    (h₂ : KeepsStays n s1 (.optional test test') s2) (h₃ : KeepsStays n s2 (.optional step step') s3)
    (h₄ : KeepsStays n s3 (.statement body body') s') :
    KeepsStays n s
      (.statement (.node l (.forStatement init test step body))
        (.node l (.forStatement init' test' step' body'))) s' := by
  refine ⟨.forStatement h₁.walks h₂.walks h₃.walks h₄.walks, fun unconverted name source => ?_⟩
  obtain ⟨-, wf⟩ := source
  -- No part of the loop was converted, as the whole was not.
  obtain ⟨u1, rest⟩ := h₁.walks.counts.halves
    (h₂.walks.counts.trans (h₃.walks.counts.trans h₄.walks.counts)) unconverted
  obtain ⟨u2, rest⟩ := h₂.walks.counts.halves (h₃.walks.counts.trans h₄.walks.counts) rest
  obtain ⟨u3, u4⟩ := h₃.walks.counts.halves h₄.walks.counts rest
  -- The name of the function is the same before each part.
  have name1 := h₁.walks.leads.name.trans name
  have name2 := h₂.walks.leads.name.trans name1
  cases wf with
  | forStatement initKind initWf testKind testWf stepKind stepWf kind wf =>
    obtain ⟨init', settled⟩ := h₁.stays u1 name fun hn => ⟨initKind hn, initWf hn⟩
    have test' := h₂.stays u2 name1 fun hn => ⟨testKind hn, testWf hn⟩
    have step' := h₃.stays u3 name2 fun hn => ⟨stepKind hn, stepWf hn⟩
    have body' := h₄.stays u4 (h₃.walks.leads.name.trans name2) ⟨kind, wf⟩
    exact .of_hasKind rfl (.forStatement init' settled test' step' body'.stays) trivial

/-- A loop that declares its variable assigns to it afterwards. -/
theorem forEachDeclared (free : n.reserves name = false)
    (h₁ : KeepsStays n ((s.rescope (·.addLocal name)).tally (Stats.addVars 1))
        (.expression right right') s1)
    (h₂ : KeepsStays n s1 (.statement body body') s') :
    KeepsStays n s
      (.statement
        (.node l (.forEach domain
          (.node ld (.variableDeclaration
            (.tuple [.node le (.variableDeclarator (.node li (.identifier (.text name))) .null)])
            (.text Tree.varKind))) right body))
        (.node l (.forEach domain (.node li (.identifier (.text name))) right' body'))) s' := by
  refine ⟨.forEachDeclared free h₁.walks h₂.walks, fun unconverted called source => ?_⟩
  obtain ⟨-, wf⟩ := source
  obtain ⟨u1, u2⟩ := h₁.walks.counts.halves h₂.walks.counts unconverted
  -- The variable of the loop is declared before its parts are walked.
  have name0 := (Scope.Leads.addLocal _ name).name.trans called
  cases wf with
  | forEachDeclared _ rightKind rightWf kind wf =>
    have right' := h₁.stays u1 name0 ⟨rightKind, rightWf⟩
    have body' := h₂.stays u2 (h₁.walks.leads.name.trans name0) ⟨kind, wf⟩
    -- What is left in place of the declaration is the name.
    cases domain <;> exact .of_hasKind rfl (.forEach .identifier rfl right' body'.stays) trivial
  | forEach target => cases target

theorem forEach (target : left.isAssignable = true) (h₁ : KeepsStays n s (.expression left left') s1)
    (h₂ : KeepsStays n s1 (.expression right right') s2)
    (h₃ : KeepsStays n s2 (.statement body body') s') :
    KeepsStays n s
      (.statement (.node l (.forEach domain left right body))
        (.node l (.forEach domain left' right' body'))) s' := by
  refine ⟨.forEach target h₁.walks h₂.walks h₃.walks, fun unconverted name source => ?_⟩
  obtain ⟨-, wf⟩ := source
  obtain ⟨u1, rest⟩ := h₁.walks.counts.halves (h₂.walks.counts.trans h₃.walks.counts) unconverted
  obtain ⟨u2, u3⟩ := h₂.walks.counts.halves h₃.walks.counts rest
  -- The name of the function is the same before each part.
  have name1 := h₁.walks.leads.name.trans name
  cases wf with
  | forEachDeclared => cases target
  | forEach target leftWf rightKind rightWf kind wf =>
    have left' := h₁.stays u1 name ⟨isExpression_of_isAssignable target, leftWf⟩
    have right' := h₂.stays u2 name1 ⟨rightKind, rightWf⟩
    have body' := h₃.stays u3 (h₂.walks.leads.name.trans name1) ⟨kind, wf⟩
    have kept := hasKind_variableDeclaration_of_isExpression h₁.walks.flat
    cases domain <;> exact .of_hasKind rfl (.forEach left' kept right' body'.stays) trivial

theorem whileStatement (h₁ : KeepsStays n s (.expression test test') s1)
    (h₂ : KeepsStays n s1 (.statement body body') s') :
    KeepsStays n s
      (.statement (.node l (.whileStatement test body)) (.node l (.whileStatement test' body'))) s' :=
        by
  refine ⟨.whileStatement h₁.walks h₂.walks, fun unconverted name source => ?_⟩
  obtain ⟨-, wf⟩ := source
  obtain ⟨u1, u2⟩ := h₁.walks.counts.halves h₂.walks.counts unconverted
  cases wf with
  | whileStatement testKind testWf kind wf =>
    exact .of_hasKind rfl (.node rfl (forall₂ (h₁.stays u1 name ⟨testKind, testWf⟩)
      (h₂.stays u2 (h₁.walks.leads.name.trans name) ⟨kind, wf⟩).stays)) trivial

theorem doWhileStatement (h₁ : KeepsStays n s (.statement body body') s1)
    (h₂ : KeepsStays n s1 (.expression test test') s') :
    KeepsStays n s
      (.statement (.node l (.doWhileStatement body test)) (.node l (.doWhileStatement body' test')))
      s' := by
  refine ⟨.doWhileStatement h₁.walks h₂.walks, fun unconverted name source => ?_⟩
  obtain ⟨-, wf⟩ := source
  obtain ⟨u1, u2⟩ := h₁.walks.counts.halves h₂.walks.counts unconverted
  cases wf with
  | doWhileStatement testKind testWf kind wf =>
    exact .of_hasKind rfl (.node rfl (forall₂ (h₁.stays u1 name ⟨kind, wf⟩).stays
      (h₂.stays u2 (h₁.walks.leads.name.trans name) ⟨testKind, testWf⟩))) trivial

theorem expressionStatement (h : KeepsStays n s (.expression e e') s') :
    KeepsStays n s
      (.statement (.node l (.expressionStatement e)) (.node l (.expressionStatement e'))) s' := by
  refine ⟨.expressionStatement h.walks, fun unconverted name source => ?_⟩
  obtain ⟨-, wf⟩ := source
  cases wf with
  | expressionStatement kind wf =>
    exact .of_hasKind rfl (.node rfl (forall₁ (h.stays unconverted name ⟨kind, wf⟩)))
      (filled_expression h.walks wf)

theorem emptyStatement :
    KeepsStays n s (.statement (.node l .emptyStatement) (.node l .emptyStatement)) s := by
  refine ⟨.emptyStatement, fun unconverted name source => ?_⟩
  exact .of_hasKind rfl (.node rfl nofun) trivial

theorem bareJump :
    KeepsStays n s (.statement (.node l (.jump kind .null)) (.node l (.jump kind .null))) s := by
  refine ⟨.bareJump, fun unconverted name source => ?_⟩
  cases kind <;> exact .of_hasKind rfl (.node rfl (forall₁ (.atom rfl))) trivial

theorem jump :
    KeepsStays n s
      (.statement (.node l (.jump kind (.node ln (.identifier (.text name)))))
        (.node l (.jump kind (.node ln (.identifier (.text name)))))) s := by
  refine ⟨.jump, fun unconverted name source => ?_⟩
  cases kind <;> exact .of_hasKind rfl (.node rfl (forall₁ .identifier)) trivial

/-- A label that is not reserved stays in front of its statement. -/
theorem labeled (free : n.reserves name = false) (h : KeepsStays n s (.statement body body') s') :
    KeepsStays n s
      (.statement (.node l (.labeled (.node ln (.identifier (.text name))) body))
        (.node l (.labeled (.node ln (.identifier (.text name))) body'))) s' := by
  refine ⟨.labeled free h.walks, fun unconverted name source => ?_⟩
  obtain ⟨-, wf⟩ := source
  cases wf with
  | labeled _ _ kind wf =>
    exact .of_hasKind rfl (.labeled free (h.stays unconverted name ⟨kind, wf⟩).stays) trivial

theorem someAlternate (h : KeepsStays n s (.statement t t') s') :
    KeepsStays n s (.optionalStatement t t') s' := by
  refine ⟨.alternate h.walks, fun unconverted name source => ?_⟩
  exact (h.stays unconverted name (source (isNull_of_walks h.walks))).stays

/-- Statements in a row, the first of them spliced in. -/
theorem moreStatements (h₁ : KeepsStays n s (.statement t t') s1) (spliced : t'.spliced = .ok ts')
    (h₂ : KeepsStays n s1 (.statements ts ts'') s') :
    KeepsStays n s (.statements (t :: ts) (ts' ++ ts'')) s' := by
  refine ⟨.moreStatements h₁.walks spliced h₂.walks, fun unconverted name source => ?_⟩
  obtain ⟨u1, u2⟩ := h₁.walks.counts.halves h₂.walks.counts unconverted
  have source := List.forall_mem_cons.mp source
  exact List.forall_mem_append.mpr ⟨(h₁.stays u1 name source.1).spliced _ spliced,
    h₂.stays u2 (h₁.walks.leads.name.trans name) source.2⟩

/-- A directive at the start of a body is set aside, and stands in front again at the end. -/
theorem startStrict (strict : t.isStrictDirective = true)
    (h : KeepsStays n (s.rescope fun c => { c with directive := some t }) (.statements ts ts') s') :
    KeepsStays n s (.start (t :: ts) ts') s' := by
  refine ⟨.startStrict strict h.walks, fun unconverted name source => ?_⟩
  exact h.stays unconverted name fun t ht => source t (List.mem_cons_of_mem _ ht)

/-- A body that starts without a directive. -/
theorem startPlain (plain : ∀ t ∈ ts.head?, t.isStrictDirective = false)
    (h : KeepsStays n s (.statements ts ts') s') :
    KeepsStays n s (.start ts ts') s' := by
  refine ⟨.startPlain plain h.walks, fun unconverted name source => ?_⟩
  exact h.stays unconverted name source

theorem noStart : KeepsStays n s (.loopStart .null .null) s := by
  refine ⟨.noStart, fun unconverted name source => ?_⟩
  exact ⟨.atom rfl, rfl⟩

theorem startExpression (h : KeepsStays n s (.expression e e') s') :
    KeepsStays n s (.loopStart e e') s' := by
  refine ⟨.startExpression h.walks, fun unconverted name source => ?_⟩
  obtain ⟨-, wf⟩ := source (isNull_of_walks h.walks)
  exact ⟨h.stays unconverted name ⟨isExpression_of_walks h.walks, wf⟩, loopStart_of_isExpression
    h.walks.flat⟩

/-- A loop that starts with a declaration starts with assignments afterwards. -/
theorem startDeclaration (h : KeepsStays n s (.declarators ds es) s') :
    KeepsStays n s
      (.loopStart (.node l (.variableDeclaration (.tuple ds) (.text Tree.varKind)))
        (Tree.new (.sequence (.tuple es))))
      (s'.tally (Stats.addVars es.length)) := by
  refine ⟨.startDeclaration h.walks, fun unconverted name source => ?_⟩
  obtain ⟨-, wf⟩ := source rfl
  cases wf with
  | variableDeclaration _ kinds wfs =>
    have es' := h.stays unconverted name fun d hd => ⟨kinds d hd, wfs d hd⟩
    exact ⟨.node rfl (forall₁ (.row es' (noBlocks_of_declarators h.walks))), rfl⟩

theorem noInitial : KeepsStays n s (.initial .null .undefined) s := by
  refine ⟨.noInitial, fun unconverted name source => ?_⟩
  exact .identifier

theorem initial (h : KeepsStays n s (.expression e e') s') : KeepsStays n s (.initial e e') s' := by
  refine ⟨.initial h.walks, fun unconverted name source => ?_⟩
  exact h.stays unconverted name (source (isNull_of_walks h.walks))

/-- A declarator becomes an assignment to its name, which is declared in front. -/
theorem moreDeclarators (free : n.reserves name = false)
    (h₁ : KeepsStays n (s.rescope (·.addLocal name)) (.initial init init') s1)
    (h₂ : KeepsStays n s1 (.declarators ds es) s') :
    KeepsStays n s
      (.declarators (.node l (.variableDeclarator (.node li (.identifier (.text name))) init) :: ds)
        (.node l (.assignment (.text plainAssignment) (.node li (.identifier (.text name))) init')
          :: es)) s' := by
  refine ⟨.moreDeclarators free h₁.walks h₂.walks, fun unconverted called source => ?_⟩
  obtain ⟨⟨-, wf⟩, source⟩ := List.forall_mem_cons.mp source
  obtain ⟨u1, u2⟩ := h₁.walks.counts.halves h₂.walks.counts unconverted
  have name0 := (Scope.Leads.addLocal _ name).name.trans called
  cases wf with
  | variableDeclarator _ kind wf =>
    have init' := h₁.stays u1 name0 fun hn => ⟨kind hn, wf hn⟩
    exact List.forall_mem_cons.mpr ⟨.node rfl (forall₃ (.atom rfl) .identifier init'),
      h₂.stays u2 (h₁.walks.leads.name.trans name0) source⟩

/-- A whole body stays: its declarations, its directive and its loop are found as they are. -/
theorem wholeBody (h : KeepsStays n ⟨scope, s.stats⟩ (.start ss ss1) s1)
    (finished : finishBody n s1.scope ss1 = .ok ss') :
    KeepsStays n s (.body scope ss ss') ⟨s.scope, s1.stats.addFunction s1.scope⟩ := by
  refine ⟨.body h.walks finished, fun unconverted name source => ?_⟩
  intro l form id ps lb own' entered named
  have fresh := starts_ofFunction entered
  have counted : s1.stats.calls ≤ s.stats.calls := by
    rw [calls_addFunction] at unconverted
    exact unconverted
  have rows := h.stays (c := {}) counted rfl source
  have unlooped := h.walks.counts.unlooped counted fresh.tail
  exact .function entered named h.walks unlooped finished (fun t ht => (rows t ht).1)
    (noBlocks_of_start h.walks) fun t ht => (rows t ht).2

end KeepsStays

/-- Every walk without converted calls gives what stays: each rule does, given that the walks of the
parts do. -/
theorem Walks.keepsStays {s s' : State} {edit : Edit} (h : Walks n s edit s') :
    KeepsStays n s edit s' := by
  -- By induction on the walk, one rule after the other.
  induction h with
  | identifier => exact .identifier
  | literal plain => exact .literal plain
  | array _ ih => exact .array ih
  | function starts _ ih => exact .function starts ih
  | functionDeclaration starts _ ih => exact .functionDeclaration starts ih
  | call _ _ ih₁ ih₂ => exact .call ih₁ ih₂
  | member _ name ih => exact .member ih name
  | computedMember _ _ ih₁ ih₂ => exact .computedMember ih₁ ih₂
  | conditional _ _ _ ih₁ ih₂ ih₃ => exact .conditional ih₁ ih₂ ih₃
  | assignment _ _ ih₁ ih₂ => exact .assignment ih₁ ih₂
  | sequence _ ih => exact .sequence ih
  | binary _ _ ih₁ ih₂ => exact .binary ih₁ ih₂
  | logical _ _ ih₁ ih₂ => exact .logical ih₁ ih₂
  | unary _ ih => exact .unary ih
  | update _ ih => exact .update ih
  | absent => exact .absent
  | noAlternate => exact .noAlternate
  | present _ ih => exact .present ih
  | noExpressions => exact .noExpressions
  | noStatements => exact .noStatements
  | noDeclarators => exact .noDeclarators
  | moreExpressions _ _ ih₁ ih₂ => exact .moreExpressions ih₁ ih₂
  | returnNothing => exact .returnNothing
  | returnCall own _ converted ih => exact .returnCall own ih converted
  | returnConditional _ _ _ ih₁ ih₂ ih₃ => exact .returnConditional ih₁ ih₂ ih₃
  | returnValue kept _ ih => exact .returnValue kept ih
  | branchValue single _ ih => exact .branchValue single ih
  | branchSequence _ ih => exact .branchSequence ih
  | branchLast _ spliced ih => exact .branchLast ih spliced
  | branchMore more _ _ ih₁ ih₂ => exact .branchMore more ih₁ ih₂
  | block _ ih => exact .block ih
  | returnStatement _ ih => exact .returnStatement ih
  | variableDeclaration _ ih => exact .variableDeclaration ih
  | ifStatement _ _ _ ih₁ ih₂ ih₃ => exact .ifStatement ih₁ ih₂ ih₃
  | forStatement _ _ _ _ ih₁ ih₂ ih₃ ih₄ => exact .forStatement ih₁ ih₂ ih₃ ih₄
  | forEachDeclared free _ _ ih₁ ih₂ => exact .forEachDeclared free ih₁ ih₂
  | forEach target _ _ _ ih₁ ih₂ ih₃ => exact .forEach target ih₁ ih₂ ih₃
  | whileStatement _ _ ih₁ ih₂ => exact .whileStatement ih₁ ih₂
  | doWhileStatement _ _ ih₁ ih₂ => exact .doWhileStatement ih₁ ih₂
  | expressionStatement _ ih => exact .expressionStatement ih
  | emptyStatement => exact .emptyStatement
  | bareJump => exact .bareJump
  | jump => exact .jump
  | labeled free _ ih => exact .labeled free ih
  | alternate _ ih => exact .someAlternate ih
  | moreStatements _ spliced _ ih₁ ih₂ => exact .moreStatements ih₁ spliced ih₂
  | startStrict strict _ ih => exact .startStrict strict ih
  | startPlain plain _ ih => exact .startPlain plain ih
  | noStart => exact .noStart
  | startExpression _ ih => exact .startExpression ih
  | startDeclaration _ ih => exact .startDeclaration ih
  | noInitial => exact .noInitial
  | initial _ ih => exact .initial ih
  | moreDeclarators free _ _ ih₁ ih₂ => exact .moreDeclarators free ih₁ ih₂
  | body _ finished ih => exact .wholeBody ih finished

/-- Where no call is converted, what a walk gives stays when it is walked again. -/
theorem Walks.stays {s s' : State} {edit : Edit} (h : Walks n s edit s')
    (unconverted : s'.stats.calls ≤ s.stats.calls) (name : s.scope.name = own) {c : Targets}
    (source : edit.Formed c) : edit.Stays n own :=
  h.keepsStays.stays unconverted name source

/-! ## Programs -/

/-- A well-formed program is left as it is by a second elimination, where the first one converted no
call. Jumps aside, whatever is read from a text is a well-formed program. -/
theorem eliminateTailCalls_idempotent {n : Naming} {c : Targets} {l : Option Location}
    {ss : List Tree} {t' : Tree} {stats : Stats}
    (wf : WellFormed false c (.node l (.program (.tuple ss))))
    (eliminated : (Tree.node l (.program (.tuple ss))).eliminateTailCalls n = .ok (t', stats))
    (unconverted : stats.calls = 0) :
    ∃ stats', t'.eliminateTailCalls n = .ok (t', stats') ∧ stats'.functions = [] ∧
      stats'.calls = 0 ∧ stats'.ternaries = 0 := by
  cases eliminates_of_ok wf eliminated with
  | expression kind => cases kind
  | statement kind => cases kind
  | @program _ _ ss1 ss' startsStrict s1 starts finished =>
    have unlooped := starts.counts.unlooped (Nat.le_of_eq unconverted) rfl
    have rows : ∀ t ∈ ss1, Stays n none t ∧ Filled t := by
      -- Without conversions, all statements stay as the first run has left them.
      cases wf with
      | program kinds wfs =>
        exact starts.stays (Nat.le_of_eq unconverted) rfl fun t ht => ⟨kinds t ht, wfs t ht⟩
    obtain ⟨startsStrict', begins⟩ := exists_startsStrict ss'
    -- The second run is at the body that the first one has made.
    obtain ⟨us, s2, restarted, -, again, -, quiet⟩ :=
      finishBody_again { startsStrict := startsStrict' } {} rfl rfl rfl
        (fun _ named => absurd named (Option.not_mem_none _)) (declarable_of_start starts rfl)
          (strict_of_start starts rfl) unlooped
        (fun t ht => (rows t ht).1) (noBlocks_of_start starts) starts.plain
        (fun t ht => (rows t ht).2) finished
    refine ⟨s2.stats, run_ok.mpr ⟨⟨{}, s2.stats⟩, ?_, rfl⟩, quiet.functions, quiet.calls,
      quiet.ternaries⟩
    -- The program is walked in a scope of its own, which has no name.
    simp only [walk, walk_bind, walk_attempt, walk_pure, Position.restore, Prod.exists,
      walk_inScope]
    exact ⟨startsStrict', _, ⟨begins, rfl⟩, _, _, _, ⟨s2, restarted, rfl, rfl⟩, ss', _,
      ⟨again, rfl⟩, rfl, rfl⟩

/-- A strict function whose variable is declared in a block, and whose `return` has a branch with two
expressions. -/
def choosing : Tree :=
  Tree.new (.function .declaration (.identifier "f") (.tuple [.identifier "a"])
    (.block [
      Tree.new (.expressionStatement (Tree.new (.literal (.text Tree.strictDirective)))),
      .block [Tree.declaration [Tree.declarator "x" .null, Tree.declarator "y" (.identifier "a")]],
      Tree.new (.returnStatement (Tree.new (.conditional (.identifier "x") (.identifier "y")
        (Tree.new (.sequence (.tuple [.identifier "a", .identifier "f"]))))))]))

/-- The block goes away, the variables are declared at the top, and the `return` is split. After that
nothing more changes. -/
theorem eliminateTailCalls_idempotent_choosing :
    ∃ t' stats, (Tree.node none (.program (.tuple [choosing]))).eliminateTailCalls {} =
        .ok (t', stats) ∧ stats.ternaries = 1 ∧ stats.vars = 2 ∧
      ∃ stats', t'.eliminateTailCalls {} = .ok (t', stats') ∧ stats'.functions = [] ∧
        stats'.calls = 0 ∧ stats'.ternaries = 0 := by
  refine ⟨_, _, rfl, rfl, rfl, ?_⟩
  have wf : WellFormed true {} (.node none (.program (.tuple [choosing]))) :=
    wellFormed_of_validate rfl (by decide)
  exact eliminateTailCalls_idempotent (n := {}) wf.unchecked rfl rfl

end TailLoop.Elimination
