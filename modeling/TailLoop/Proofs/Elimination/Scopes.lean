import TailLoop.Proofs.Elimination.Preservation

/-!
# Scopes during a walk

What a walk does to the scope of the body it is in. Besides the directive at the start, the scope
changes in two ways only: a variable is added, or a call is converted (`Walks.preserves`). So the
directive that is noted is the first statement of the body (`directive_of_start`), and the
temporaries in use are among those of the parameters (`staged_of_start`).
-/

namespace TailLoop.Elimination

/-! ## Trees that are told apart -/

/-- Data that is the same as a text is the text. -/
theorem eq_text_of_same {t : Tree} {x : Text} (h : t.same (.text x) = true) : t = .text x := by
  cases t with
  | text y =>
    have : (y == x) = true := h
    rw [eq_of_beq this]
  | int n => cases h
  | _ => cases h

/-- A tree that is the same as a name is the name somewhere. -/
theorem eq_identifier_of_same {t : Tree} {x : Text} (h : t.same (.identifier x) = true) :
    ∃ l, t = .node l (.identifier (.text x)) := by
  cases t with
  | node l shape =>
    rw [Tree.same, Tree.fold_node] at h
    cases shape with
    | identifier name =>
      have parts : (Kind.identifier == Kind.identifier && true &&
          (Text.ofString "name" == Text.ofString "name" && name.same (.text x) && true)) = true := h
      simp only [Bool.and_eq_true, Bool.and_true] at parts
      rw [eq_text_of_same parts.2.2]
      exact ⟨l, rfl⟩
    | function form => cases form <;> cases h
    | jump kind => cases kind <;> cases h
    | forEach domain => cases domain <;> cases h
    | _ => cases h
  | _ => cases h

/-- A directive is the statement of its text. -/
theorem eq_strictDirective {t : Tree} (h : t.isStrictDirective = true) :
    ∃ l le, t = .node l
      (.expressionStatement (.node le (.literal (.text Tree.strictDirective)))) := by
  unfold Tree.isStrictDirective Tree.isDirective at h
  split at h
  · rw [eq_of_beq h]
    exact ⟨_, _, rfl⟩
  · cases h

/-! ## Edits -/

/-- What stands in an edit before elimination. -/
def Edit.before : Edit → List Tree
  | .expression t _ | .optional t _ | .returned _ t _ | .branch t _ | .statement t _
  | .optionalStatement t _ | .loopStart t _ | .initial t _ => [t]
  | .expressions ts _ | .branchItems ts _ | .statements ts _ | .start ts _ | .declarators ts _ => ts
  | .body .. => []

/-- What stands in an edit afterwards. -/
def Edit.after : Edit → List Tree
  | .expression _ t | .optional _ t | .returned _ _ t | .branch _ t | .statement _ t
  | .optionalStatement _ t | .loopStart _ t | .initial _ t => [t]
  | .expressions _ ts | .branchItems _ ts | .statements _ ts | .start _ ts | .declarators _ ts => ts
  | .body .. => []

/-- A `return` that becomes a block becomes one with a row. -/
theorem row_of_returned {n : Naming} {s s' : State} {lr : Option Location} {e t' : Tree}
    (h : Walks n s (.returned lr e t') s') : ∀ l body, t' = .node l (.block body) →
      ∃ ss, body = .tuple ss := by
  rintro l body rfl
  cases h with
  | returnCall own parts converted =>
    obtain ⟨-, same, -⟩ := convertCall_ok.mp converted
    cases same
    exact ⟨_, rfl⟩

/-- A statement that becomes a block becomes one with a row. -/
theorem row_of_statement {n : Naming} {s s' : State} {t t' : Tree}
    (h : Walks n s (.statement t t') s') : ∀ l body, t' = .node l (.block body) →
      ∃ ss, body = .tuple ss := by
  rintro l body rfl
  cases h with
  | block parts => exact ⟨_, rfl⟩
  | returnStatement part => exact row_of_returned part l body rfl

/-! ## The scope at the start of a body -/

/-- A scope when the body of a function with the given parameters is entered: nothing has been found
in the body yet. -/
structure Scope.Starts (n : Naming) (ps : List Tree) (a : Scope) : Prop where
  params : ps.mapM (declaredName n) = .ok a.params
  temporaries : a.temporaries = a.params.map (n.temporary ++ ·)
  used : a.used = []
  locals : a.locals = []
  tail : a.isTailRecursive = false
  directive : a.directive = none

/-- A function starts with its parameters, a temporary for each, and nothing found. -/
theorem starts_ofFunction {n : Naming} {id body : Tree} {ps : List Tree} {a : Scope}
    (h : Scope.ofFunction n id (.tuple ps) body = .ok a) : a.Starts n ps := by
  obtain ⟨names, hnames, hrest⟩ := bind_ok.mp h
  obtain ⟨name, -, hrest⟩ := bind_ok.mp hrest
  obtain ⟨own, -, hrest⟩ := bind_ok.mp hrest
  obtain ⟨statements, -, hrest⟩ := bind_ok.mp hrest
  obtain ⟨startsStrict, -, hrest⟩ := bind_ok.mp hrest
  cases hrest
  obtain ⟨items, hi, hnames⟩ := bind_ok.mp hnames
  obtain ⟨-, -, hnames⟩ := bind_ok.mp hnames
  cases hi
  exact ⟨hnames, rfl, rfl, rfl, rfl, rfl⟩

/-- The names that parameters declare are their names. -/
theorem eq_of_declaredNames {n : Naming} {ps : List Tree} {names : List Text}
    (named : ∀ p ∈ ps, Validity.IsName p) (h : ps.mapM (declaredName n) = .ok names) :
    names = ps.filterMap Tree.identifierName? := by
  induction ps generalizing names with
  | nil =>
    cases h
    rfl
  | cons p ps ih =>
    rw [List.forall_mem_cons] at named
    obtain ⟨⟨l, spelled⟩, rest⟩ := named
    rw [List.mapM_cons] at h
    obtain ⟨x, hx, h⟩ := bind_ok.mp h
    obtain ⟨xs, hxs, h⟩ := bind_ok.mp h
    cases h
    rw [(declaredName_ok.mp hx).2, ih rest hxs]
    rfl

/-! ## Changes of the scope -/

/-- Whether an edit is the start of a body. -/
def Edit.isStart : Edit → Bool
  | .start .. => true
  | _ => false

/-- Inside a body, the scope changes by variables that are declared and by calls that are
converted. -/
theorem Walks.preserves {n : Naming} {I : Scope → Prop}
    (declared : ∀ a x, n.reserves x = false → I a → I (a.addLocal x))
    (converted : ∀ a args, I a → I ((callTemporaries a args).foldl Scope.use a.markTailRecursive))
    {s s' : State} {edit : Edit} (h : Walks n s edit s') (inner : edit.isStart = false)
    (start : I s.scope) : I s'.scope := by
  -- By induction on the walk: the scope changes at declarations and conversions only.
  induction h with
  | identifier | literal | absent | noExpressions | returnNothing | emptyStatement | bareJump | jump
  | noAlternate | noStatements | noStart | noInitial | noDeclarators | body => exact start
  | array _ ih | function _ _ ih | member _ _ ih | sequence _ ih | unary _ ih | update _ ih
  | present _ ih | returnValue _ _ ih | branchValue _ _ ih | branchSequence _ ih
  | branchLast _ _ ih | functionDeclaration _ _ ih | block _ ih | returnStatement _ ih
  | variableDeclaration _ ih | expressionStatement _ ih | labeled _ _ ih | alternate _ ih
  | startExpression _ ih | startDeclaration _ ih | initial _ ih =>
    exact ih rfl start
  | call _ _ ih1 ih2 | computedMember _ _ ih1 ih2 | assignment _ _ ih1 ih2 | binary _ _ ih1 ih2
  | logical _ _ ih1 ih2 | moreExpressions _ _ ih1 ih2 | branchMore _ _ _ ih1 ih2
  | whileStatement _ _ ih1 ih2 | doWhileStatement _ _ ih1 ih2 | moreStatements _ _ _ ih1 ih2 =>
    exact ih2 rfl (ih1 rfl start)
  | conditional _ _ _ ih1 ih2 ih3 | returnConditional _ _ _ ih1 ih2 ih3
  | ifStatement _ _ _ ih1 ih2 ih3 | forEach _ _ _ _ ih1 ih2 ih3 =>
    exact ih3 rfl (ih2 rfl (ih1 rfl start))
  | forStatement _ _ _ _ ih1 ih2 ih3 ih4 => exact ih4 rfl (ih3 rfl (ih2 rfl (ih1 rfl start)))
  -- The names are declared before the parts are walked.
  | forEachDeclared free _ _ ih1 ih2 | moreDeclarators free _ _ ih1 ih2 =>
    exact ih2 rfl (ih1 rfl (declared _ _ free start))
  -- The arguments are walked before the call is converted.
  | returnCall _ _ success ih =>
    obtain ⟨-, -, rfl⟩ := convertCall_ok.mp success
    exact converted _ _ (ih rfl start)
  -- The start may set the directive; it is no part of an inner walk.
  | startStrict | startPlain => cases inner

/-- Using temporaries leaves the directive alone. -/
theorem directive_useAll (names : List Text) (a : Scope) :
    (names.foldl Scope.use a).directive = a.directive := by
  induction names generalizing a with
  | nil => rfl
  | cons name names ih =>
    rw [List.foldl_cons, ih, Scope.use]
    split <;> rfl

/-- Inside a body, no directive is noted. -/
theorem Walks.directive {n : Naming} {s s' : State} {edit : Edit} (h : Walks n s edit s')
    (inner : edit.isStart = false) : s'.scope.directive = s.scope.directive := by
  refine h.preserves (I := fun a => a.directive = s.scope.directive) ?_ ?_ inner rfl
  · intro a x _ same
    unfold Scope.addLocal
    split <;> exact same
  · intro a args same
    exact (directive_useAll _ _).trans same

/-- The directive that is noted is the first statement of the body, if that is one. -/
theorem directive_of_start {n : Naming} {s s' : State} {ts ts' : List Tree}
    (h : Walks n s (.start ts ts') s') (start : s.scope.directive = none) :
    s'.scope.directive = ts.head?.filter (·.isStrictDirective) := by
  cases h with
  | startStrict strict parts =>
    rw [parts.directive rfl]
    simp [State.rescope, Option.filter, strict]
  | startPlain plain parts =>
    rw [parts.directive rfl, start]
    cases ts with
    | nil => rfl
    | cons t ts => simp [Option.filter, plain t rfl]

/-- The directive that is noted makes the body strict. -/
theorem strict_of_start {n : Naming} {s s' : State} {ts ts' : List Tree}
    (h : Walks n s (.start ts ts') s') (start : s.scope.directive = none) :
    ∀ t ∈ s'.scope.directive, t.isStrictDirective = true := by
  intro t ht
  rw [directive_of_start h start] at ht
  exact (Option.filter_eq_some_iff.mp ht).2

/-- A temporary that is used was used before or is one of the new ones. -/
theorem mem_used_of_useAll {names : List Text} {a : Scope} {x : Text}
    (h : x ∈ (names.foldl Scope.use a).used) : x ∈ a.used ∨ x ∈ names := by
  induction names generalizing a with
  | nil => exact .inl h
  | cons name names ih =>
    rcases ih h with h | h
    · unfold Scope.use at h
      split at h
      · exact .inl h
      · rcases List.mem_append.mp h with h | h
        · exact .inl h
        · exact .inr (List.mem_singleton.mp h ▸ List.mem_cons_self)
    · exact .inr (List.mem_cons_of_mem name h)

/-- A scope uses no temporaries but those that stage its parameters. -/
structure Scope.Staged (ts ps : List Text) (a : Scope) : Prop where
  temporaries : a.temporaries = ts
  params : a.params = ps
  used : ∀ x ∈ a.used, x ∈ ts

/-- Calls use temporaries of the scope only. -/
theorem callTemporaries_subset {a : Scope} (paired : a.temporaries.length = a.params.length)
    (args : List Tree) : ∀ x ∈ callTemporaries a args, x ∈ a.temporaries := by
  intro x hx
  unfold callTemporaries at hx
  split at hx
  · obtain ⟨c, hc, rfl⟩ := List.mem_map.mp hx
    obtain ⟨hi, -⟩ := List.getElem?_eq_some_iff.mp (mem_changes hc).1
    rw [← paired] at hi
    rw [List.getElem?_eq_getElem hi, Option.getD_some]
    exact List.getElem_mem hi
  · cases hx

/-- A walk inside of a body keeps the parameters and uses their temporaries only. -/
theorem Walks.staged {n : Naming} {s s' : State} {edit : Edit} (h : Walks n s edit s')
    (inner : edit.isStart = false) {ts ps : List Text} (paired : ts.length = ps.length)
    (start : s.scope.Staged ts ps) : s'.scope.Staged ts ps := by
  refine h.preserves ?_ ?_ inner start
  · rintro a x - ⟨ht, hp, hu⟩
    unfold Scope.addLocal
    split <;> exact ⟨ht, hp, hu⟩
  · rintro a args ⟨ht, hp, hu⟩
    have leads := Scope.Leads.useAll (callTemporaries a args) a.markTailRecursive
    refine ⟨leads.temporaries.trans ht, leads.params.trans hp, fun x hx => ?_⟩
    rcases mem_used_of_useAll hx with hx | hx
    · exact hu x hx
    · exact ht ▸ callTemporaries_subset (by rw [ht, hp, paired]) args x hx

/-- The walk of a whole body keeps the parameters and uses their temporaries only. -/
theorem staged_of_start {n : Naming} {s s' : State} {ts ts' : List Tree}
    (h : Walks n s (.start ts ts') s') {us ps : List Text} (paired : us.length = ps.length)
    (start : s.scope.Staged us ps) : s'.scope.Staged us ps := by
  cases h with
  | startStrict strict parts =>
    exact parts.staged rfl paired ⟨start.temporaries, start.params, start.used⟩
  | startPlain plain parts => exact parts.staged rfl paired start

/-- A local that is added is found unless it is a parameter. -/
theorem mem_addLocal (a : Scope) (x y : Text) :
    x ∈ (a.addLocal y).locals ↔ x ∈ a.locals ∨ x = y ∧ x ∉ a.params := by
  unfold Scope.addLocal
  split
  · rename_i known
    rw [Bool.or_eq_true, List.contains_iff_mem, List.contains_iff_mem] at known
    grind
  · rename_i fresh
    rw [Bool.or_eq_true, List.contains_iff_mem, List.contains_iff_mem, not_or] at fresh
    rw [List.mem_append, List.mem_singleton]
    grind

/-- A local is no parameter. -/
theorem params_addLocal (a : Scope) (y : Text) : (a.addLocal y).params = a.params := by
  unfold Scope.addLocal
  split <;> rfl

/-- Using temporaries declares no local. -/
theorem locals_useAll (names : List Text) (a : Scope) :
    (names.foldl Scope.use a).locals = a.locals := by
  induction names generalizing a with
  | nil => rfl
  | cons name names ih =>
    rw [List.foldl_cons, ih, Scope.use]
    split <;> rfl

end TailLoop.Elimination
