import TailLoop.Proofs.Elimination.Measures

/-!
# Transport along walks

What a walk leaves behind is often related to what it found, by an amount that the states before and
after tell: for each converted call there is one more jump, for each declared variable one
declaration less. `Transports` collects what such a relation between measures has to satisfy, one law
for each place where a walk does something to nodes that are not quiet. `Walks.transported` then
carries the relation through a whole walk: the induction over the rules is done here once.
-/

namespace TailLoop.Elimination

open Tree

variable {β γ : Type}

/-- A function with its statements. -/
def functionOf (l : Option Location) (form : FunctionForm) (id : Tree) (ps : List Tree)
    (lb : Option Location) (ss : List Tree) : Tree :=
  .node l (.function form id (.tuple ps) (.node lb (.block (.tuple ss))))

/-- The state after a call with walked arguments is converted. -/
def State.convert (s : State) (arguments : List Tree) : State :=
  ⟨(callTemporaries s.scope arguments).foldl Scope.use s.scope.markTailRecursive,
    { s.stats with calls := s.stats.calls + 1 }⟩

/-- What a relation between the states around a piece of a program and the measures of the piece
before and after has to satisfy to hold along walks. -/
structure Transports (n : Naming) (μ : Measure β) (ν : Measure γ)
    (R : State → State → List β → List γ → Prop) : Prop where
  nil : ∀ {s}, R s s [] []
  append : ∀ {s s1 s' xs xs' ys ys'}, R s s1 xs ys → R s1 s' xs' ys' →
    R s s' (xs ++ xs') (ys ++ ys')
  /-- Where a walk starts from a record with more variables, it ends with more. -/
  addVars : ∀ {s s' xs ys} (k : Nat), R s s' xs ys →
    R (s.tally (Stats.addVars k)) (s'.tally (Stats.addVars k)) xs ys
  addTernary : ∀ {s s' xs ys}, R (s.tally Stats.addTernary) s' xs ys → R s s' xs ys
  directive : ∀ {s t}, R s (s.rescope fun c => { c with directive := some t }) [] []
  /-- A declaration stands for its declarators. -/
  declaration : ∀ {s s' l ds ys}, R s s' (ds.flatMap μ.of) ys →
    R s s' (μ.of (.node l (.variableDeclaration (.tuple ds) (.text varKind)))) ys
  /-- A declarator goes, and its name is noted. -/
  declarator : ∀ {s s' l li x init ys}, n.reserves x = false →
    R (s.rescope (·.addLocal x)) s' (μ.of init) ys →
    R s (s'.tally (Stats.addVars 1))
      (μ.of (.node l (.variableDeclarator (.node li (.identifier (.text x))) init))) ys
  /-- A `return` stands for its value before, whatever becomes of it. -/
  returned : ∀ {s s' l e ys}, R s s' (μ.of e) ys →
    R s s' (μ.of (.node l (.returnStatement e))) ys
  returnNothing : ∀ {s l}, R s s [] (ν.of (.node l (.returnStatement .null)))
  returnValue : ∀ {s s' l e e'}, s.scope.converts e = false → Walks n s (.expression e e') s' →
    R s s' (μ.of e) (ν.of e') → R s s' (μ.of e) (ν.of (.node l (.returnStatement e')))
  /-- Besides assignments, a converted call leaves a jump behind. -/
  converted : ∀ {s : State} {arguments : List Tree}, s.scope.name ≠ none →
    arguments.length ≤ s.scope.params.length → R s (s.convert arguments) [] (ν.of (jumpBack n))
  bareJump : ∀ {s l kind},
    R s s (μ.of (.node l (.jump kind .null))) (ν.of (.node l (.jump kind .null)))
  jump : ∀ {s l kind ln x},
    R s s (μ.of (.node l (.jump kind (.node ln (.identifier (.text x))))))
      (ν.of (.node l (.jump kind (.node ln (.identifier (.text x))))))
  labeled : ∀ {s s' l ln x body body'}, n.reserves x = false → R s s' (μ.of body) (ν.of body') →
    R s s' (μ.of (.node l (.labeled (.node ln (.identifier (.text x))) body)))
      (ν.of (.node l (.labeled (.node ln (.identifier (.text x))) body')))
  /-- A function, from its statements. -/
  function : ∀ {s s1 : State} {l form id ps lb ss ss1 ss' scope},
    Scope.ofFunction n id (.tuple ps) (.node lb (.block (.tuple ss))) = .ok scope →
    Walks n ⟨scope, s.stats⟩ (.start ss ss1) s1 →
    R ⟨scope, s.stats⟩ s1 (ss.flatMap μ.of) (ss1.flatMap ν.of) →
    finishBody n s1.scope ss1 = .ok ss' →
    R s ⟨s.scope, s1.stats.addFunction s1.scope⟩ (μ.of (functionOf l form id ps lb ss))
      (ν.of (functionOf l form id ps lb ss'))

/-- Two rows whose measures are related. -/
def Related (μ : Measure β) (ν : Measure γ) (R : State → State → List β → List γ → Prop)
    (s s' : State) (ts ts' : List Tree) : Prop :=
  R s s' (ts.flatMap μ.of) (ts'.flatMap ν.of)

/-- What an edit does to measures. Declared variables are counted at the end of a declaration. -/
def Edit.Transported (n : Naming) (μ : Measure β) (ν : Measure γ)
    (R : State → State → List β → List γ → Prop) (s s' : State) : Edit → Prop
  | .body scope ss ss' => ∃ s1 ss1, Walks n ⟨scope, s.stats⟩ (.start ss ss1) s1 ∧
    Related μ ν R ⟨scope, s.stats⟩ s1 ss ss1 ∧ finishBody n s1.scope ss1 = .ok ss' ∧
    s' = ⟨s.scope, s1.stats.addFunction s1.scope⟩
  | .declarators ds es => Related μ ν R s (s'.tally (Stats.addVars es.length)) ds es
  | edit => Related μ ν R s s' edit.before edit.after

section Related

variable {n : Naming} {μ : Measure β} {ν : Measure γ} {R : State → State → List β → List γ → Prop}
  {s s1 s' : State} {ts ts' us us' : List Tree} {l l' : Option Location}
  {shape shape' : Shape Tree}

/-- Rows that measure the same are related alike. -/
theorem Related.same (h : Related μ ν R s s' us us') (source : μ.Same ts us)
    (result : ν.Same ts' us') : Related μ ν R s s' ts ts' := by
  unfold Related
  rw [source, result]
  exact h

/-- Rows as single trees are related alike. -/
theorem Related.row (h : Related μ ν R s s' ts ts') :
    Related μ ν R s s' [.tuple ts] [.tuple ts'] :=
  h.same (.row ts) (.row ts')

/-- A quiet node in the result is related by its parts. -/
theorem Related.result (h : Related μ ν R s s' ts shape.parts) (quiet : shape.isQuiet = true) :
    Related μ ν R s s' ts [.node l shape] :=
  h.same (.refl _) (.node quiet)

/-- Quiet nodes in both are related by their parts. -/
theorem Related.node (h : Related μ ν R s s' shape.parts shape'.parts)
    (quiet : shape.isQuiet = true) (quiet' : shape'.isQuiet = true) :
    Related μ ν R s s' [.node l shape] [.node l' shape'] :=
  h.same (.node quiet) (.node quiet')

/-- A sequence of what takes the place of trees. -/
theorem Related.sequence (h : Related μ ν R s s' ts ts') :
    Related μ ν R s s' ts [Tree.new (.sequence (.tuple ts'))] :=
  .result (h.same (.refl _) (.row ts')) rfl

/-- One tree and one tree. -/
theorem related_singleton {t t' : Tree} :
    Related μ ν R s s' [t] [t'] ↔ R s s' (μ.of t) (ν.of t') := by
  unfold Related
  rw [List.flatMap_singleton, List.flatMap_singleton]

namespace Transports

variable (laws : Transports n μ ν R)

include laws

/-- Rows are related one after the other. -/
theorem related_append (h1 : Related μ ν R s s1 ts ts') (h2 : Related μ ν R s1 s' us us') :
    Related μ ν R s s' (ts ++ us) (ts' ++ us') := by
  unfold Related
  rw [List.flatMap_append, List.flatMap_append]
  exact laws.append h1 h2

/-- Trees that hold nothing. -/
theorem blank (source : μ.Same ts []) (result : ν.Same ts' []) : Related μ ν R s s ts ts' := by
  have empty : Related μ ν R s s [] [] := laws.nil
  exact empty.same source result

/-- Plain data is related to itself. -/
theorem atom {t : Tree} (h : t.isPlain = true) : Related μ ν R s s [t] [t] :=
  laws.blank (.atom h) (.atom h)

/-- A name is related to itself. -/
theorem identifier {x : Text} :
    Related μ ν R s s [.node l (.identifier (.text x))] [.node l (.identifier (.text x))] :=
  laws.blank .identifier .identifier

/-- Two parts, one after the other. -/
theorem pair {a a' b b' : Tree} (h1 : Related μ ν R s s1 [a] [a'])
    (h2 : Related μ ν R s1 s' [b] [b']) : Related μ ν R s s' [a, b] [a', b'] :=
  laws.related_append h1 h2

/-- Three parts, one after the other. -/
theorem triple {s2 : State} {a a' b b' c c' : Tree} (h1 : Related μ ν R s s1 [a] [a'])
    (h2 : Related μ ν R s1 s2 [b] [b']) (h3 : Related μ ν R s2 s' [c] [c']) :
    Related μ ν R s s' [a, b, c] [a', b', c'] :=
  laws.related_append h1 (laws.pair h2 h3)

/-- A declaration, from its declarators. -/
theorem related_declaration (h : Related μ ν R s s' ts ts') :
    Related μ ν R s s' [.node l (.variableDeclaration (.tuple ts) (.text varKind))] ts' := by
  unfold Related
  rw [List.flatMap_singleton]
  exact laws.declaration h

/-- A declarator with what is assigned in its place. -/
theorem related_declarator {li : Option Location} {x : Text} {init init' : Tree} {op : Text}
    (free : n.reserves x = false) (h : Related μ ν R (s.rescope (·.addLocal x)) s' [init] [init']) :
    Related μ ν R s (s'.tally (Stats.addVars 1))
      [.node l (.variableDeclarator (.node li (.identifier (.text x))) init)]
      [.node l' (.assignment (.text op) (.node li (.identifier (.text x))) init')] := by
  have result : ν.Same
      [.node l' (.assignment (.text op) (.node li (.identifier (.text x))) init')] [init'] :=
    (Measure.Same.node rfl).trans (.cons (.atom rfl) (.cons .identifier (.refl _)))
  refine Related.same ?_ (.refl _) result
  exact related_singleton.mpr (laws.declarator free (related_singleton.mp h))

/-- The head of a loop over a collection that declares its variable. -/
theorem related_loopVariable {ld li : Option Location} {x : Text} (free : n.reserves x = false) :
    Related μ ν R s ((s.rescope (·.addLocal x)).tally (Stats.addVars 1))
      [.node l (.variableDeclaration
        (.tuple [.node ld (.variableDeclarator (.node li (.identifier (.text x))) .null)])
        (.text varKind))]
      [.node li (.identifier (.text x))] := by
  have initial : R (s.rescope (·.addLocal x)) (s.rescope (·.addLocal x)) (μ.of .null) [] := by
    rw [μ.plain rfl]
    exact laws.nil
  have declared : Related μ ν R s ((s.rescope (·.addLocal x)).tally (Stats.addVars 1))
      [.node ld (.variableDeclarator (.node li (.identifier (.text x))) .null)] [] := by
    unfold Related
    rw [List.flatMap_singleton]
    exact laws.declarator free initial
  exact (laws.related_declaration declared).same (.refl _) .identifier

/-- A call that is converted. -/
theorem related_converted {s0 : State} {args args' : List Tree} {t' : Tree} {lc lf : Option Location}
    {x : Text} (named : s.scope.name ≠ none) (parts : Walks n s0 (.expressions args args') s)
    (h : Related μ ν R s0 s args args') (converted : convertCall n l lc args' s = .ok (t', s')) :
    Related μ ν R s0 s'
      [.node lc (.call (.node lf (.identifier (.text x))) (.tuple args))] [t'] := by
  obtain ⟨few, rfl, rfl⟩ := convertCall_ok.mp converted
  -- The call holds what its arguments hold, and the assignments hold just that.
  have source : μ.Same [.node lc (.call (.node lf (.identifier (.text x))) (.tuple args))] args :=
    (Measure.Same.node rfl).trans (.cons .identifier (.row args))
  have assigned : ν.Same (callAssignments s.scope args') args' :=
    .callAssignments few (Measure.Same.constants parts)
  have result : ν.Same [.node l (.block (.tuple (callAssignments s.scope args' ++ [jumpBack n])))]
      (args' ++ [jumpBack n]) :=
    (Measure.Same.node rfl).trans ((Measure.Same.row _).trans (assigned.append (.refl _)))
  -- The jump is new, and it has no counterpart in the call.
  have jump : Related μ ν R s (s.convert args') [] [jumpBack n] := by
    unfold Related
    rw [List.flatMap_singleton]
    exact laws.converted named few
  have both := laws.related_append h jump
  rw [List.append_nil] at both
  exact both.same source result

end Transports

/-- A walk carries a relation that satisfies the laws from the measures of what it finds to those of
what it leaves behind. -/
theorem Walks.transported (laws : Transports n μ ν R) {edit : Edit} (h : Walks n s edit s') :
    edit.Transported n μ ν R s s' := by
  induction h with
  | identifier => exact laws.identifier
  | literal plain => exact laws.blank (.literal plain) (.literal plain)
  | array _ ih | sequence _ ih | branchSequence _ ih | block _ ih =>
    exact .node (.row ih) rfl rfl
  | function starts _ ih | functionDeclaration starts _ ih =>
    obtain ⟨s1, ss1, walked, inner, finished, rfl⟩ := ih
    exact related_singleton.mpr (laws.function starts walked inner finished)
  | call _ _ ih1 ih2 => exact .node (laws.pair ih1 (.row ih2)) rfl rfl
  | member _ name ih =>
    obtain ⟨li, spelled⟩ := name
    exact .node (laws.triple ih laws.identifier (laws.atom rfl)) rfl rfl
  | computedMember _ _ ih1 ih2 => exact .node (laws.triple ih1 ih2 (laws.atom rfl)) rfl rfl
  | conditional _ _ _ ih1 ih2 ih3 | ifStatement _ _ _ ih1 ih2 ih3 | forEach _ _ _ _ ih1 ih2 ih3 =>
    exact .node (laws.triple ih1 ih2 ih3) rfl rfl
  | assignment _ _ ih1 ih2 | binary _ _ ih1 ih2 | logical _ _ ih1 ih2 =>
    exact .node (laws.triple (laws.atom rfl) ih1 ih2) rfl rfl
  | unary _ ih | update _ ih => exact .node (laws.triple (laws.atom rfl) ih (laws.atom rfl)) rfl rfl
  | absent | noAlternate | noStart => exact laws.atom rfl
  | present _ ih | branchValue _ _ ih | alternate _ ih | startPlain _ _ ih | startExpression _ ih
  | initial _ ih => exact ih
  | noExpressions | noStatements | noDeclarators => exact laws.nil
  | moreExpressions _ _ ih1 ih2 => exact laws.related_append ih1 ih2
  | @returnNothing s l =>
    have value : Related μ ν R s s [] [.node l (.returnStatement .null)] := by
      unfold Related
      rw [List.flatMap_singleton]
      exact laws.returnNothing
    exact value.same (.atom rfl) (.refl _)
  | @returnCall s s1 _ _ _ _ _ _ _ _ own parts converted ih =>
    have named : s1.scope.name ≠ none := by
      rw [parts.leads.name, own]
      exact Option.some_ne_none _
    exact laws.related_converted named parts ih converted
  | returnConditional _ _ _ ih1 ih2 ih3 =>
    have parts := laws.triple ih1 ih2 ih3
    exact .node (laws.addTernary parts) rfl rfl
  | returnValue kept part ih =>
    exact related_singleton.mpr (laws.returnValue kept part (related_singleton.mp ih))
  | branchLast part spliced ih =>
    exact Related.same ih (.refl _) (.spliced (row_of_returned part) spliced)
  | @branchMore s s1 s' e e' es ts _ _ _ ih1 ih2 =>
    have first : Related μ ν R s s1 [e] [.node e.location? (.expressionStatement e')] :=
      .result ih1 rfl
    exact laws.related_append first ih2
  | returnStatement _ ih =>
    exact related_singleton.mpr (laws.returned (related_singleton.mp ih))
  | variableDeclaration _ ih => exact (laws.related_declaration ih).sequence.result rfl
  | forStatement _ _ _ _ ih1 ih2 ih3 ih4 =>
    exact .node (laws.related_append ih1 (laws.triple ih2 ih3 ih4)) rfl rfl
  | forEachDeclared free _ _ ih1 ih2 =>
    exact .node (laws.triple (laws.related_loopVariable free) ih1 ih2) rfl rfl
  | whileStatement _ _ ih1 ih2 | doWhileStatement _ _ ih1 ih2 =>
    exact .node (laws.pair ih1 ih2) rfl rfl
  | expressionStatement _ ih => exact .node ih rfl rfl
  | emptyStatement => exact .node laws.nil rfl rfl
  | bareJump => exact related_singleton.mpr laws.bareJump
  | jump => exact related_singleton.mpr laws.jump
  | labeled free _ ih =>
    exact related_singleton.mpr (laws.labeled free (related_singleton.mp ih))
  | moreStatements part spliced _ ih1 ih2 =>
    exact laws.related_append (.same ih1 (.refl _) (.spliced (row_of_statement part) spliced)) ih2
  | @startStrict s s' t ts ts' strict _ ih =>
    have empty : μ.Same [t] [] := by
      obtain ⟨l, le, rfl⟩ := eq_strictDirective strict
      exact (Measure.Same.node rfl).trans (.literal rfl)
    have noted : Related μ ν R s (s.rescope fun c => { c with directive := some t }) [] [] :=
      laws.directive
    exact laws.related_append (noted.same empty (.refl _)) ih
  | startDeclaration _ ih => exact (laws.related_declaration ih).sequence
  | noInitial => exact laws.blank (.atom rfl) .undefined
  | moreDeclarators free _ _ ih1 ih2 =>
    -- The variables are counted after the last declarator, so that the others start with one more.
    exact laws.related_append (laws.related_declarator free ih1) (laws.addVars 1 ih2)
  | body starts finished ih => exact ⟨_, _, starts, ih, finished, rfl⟩

/-- What a walk does to an expression. -/
theorem Walks.transported_expression (laws : Transports n μ ν R) {t t' : Tree}
    (h : Walks n s (.expression t t') s') : R s s' (μ.of t) (ν.of t') := by
  have related : Related μ ν R s s' [t] [t'] := h.transported laws
  exact related_singleton.mp related

/-- What a walk does to a field that may be empty. -/
theorem Walks.transported_optional (laws : Transports n μ ν R) {t t' : Tree}
    (h : Walks n s (.optional t t') s') : R s s' (μ.of t) (ν.of t') := by
  have related : Related μ ν R s s' [t] [t'] := h.transported laws
  exact related_singleton.mp related

/-- What a walk does to a statement. -/
theorem Walks.transported_statement (laws : Transports n μ ν R) {t t' : Tree}
    (h : Walks n s (.statement t t') s') : R s s' (μ.of t) (ν.of t') := by
  have related : Related μ ν R s s' [t] [t'] := h.transported laws
  exact related_singleton.mp related

/-- What a walk does to the start of a body. -/
theorem Walks.transported_start (laws : Transports n μ ν R) {ts ts' : List Tree}
    (h : Walks n s (.start ts ts') s') : R s s' (ts.flatMap μ.of) (ts'.flatMap ν.of) :=
  h.transported laws

end Related

end TailLoop.Elimination
