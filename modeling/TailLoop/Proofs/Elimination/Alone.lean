import TailLoop.Proofs.Elimination.Conditions

/-!
# Programs and functions by themselves

What takes the place of a function does not depend on what stands around it: it is what elimination
makes of the function alone (`Eliminates.becomes`). The rules leave no choice about the result of a
walk, nor about the scope at its end, whatever is recorded on the way (`Walks.unique`). That the
function alone is not refused follows from what the walk of the whole tree has checked.
-/

namespace TailLoop.Elimination

open Tree Validity

variable {n : Naming}

/-! ## Walks are determined -/

/-- Two edits of the same piece of a program. -/
inductive Edit.SamePiece : Edit → Edit → Prop where
  | expression {e t u} : SamePiece (.expression e t) (.expression e u)
  | optional {e t u} : SamePiece (.optional e t) (.optional e u)
  | expressions {es ts us} : SamePiece (.expressions es ts) (.expressions es us)
  | returned {l e t u} : SamePiece (.returned l e t) (.returned l e u)
  | branch {e t u} : SamePiece (.branch e t) (.branch e u)
  | branchItems {es ts us} : SamePiece (.branchItems es ts) (.branchItems es us)
  | statement {e t u} : SamePiece (.statement e t) (.statement e u)
  | optionalStatement {e t u} : SamePiece (.optionalStatement e t) (.optionalStatement e u)
  | statements {es ts us} : SamePiece (.statements es ts) (.statements es us)
  | start {es ts us} : SamePiece (.start es ts) (.start es us)
  | loopStart {e t u} : SamePiece (.loopStart e t) (.loopStart e u)
  | initial {e t u} : SamePiece (.initial e t) (.initial e u)
  | declarators {es ts us} : SamePiece (.declarators es ts) (.declarators es us)
  | body {scope es ts us} : SamePiece (.body scope es ts) (.body scope es us)

/-- A call of the function itself is converted. -/
theorem converts_own {a : Scope} {lc lf : Option Location} {x : Text} {arguments : Tree}
    (own : a.name = some x) :
    a.converts (.node lc (.call (.node lf (.identifier (.text x))) arguments)) = true := by
  rw [Scope.converts, own]
  exact beq_self_eq_true (some x)

/-- All walks of a piece from a scope have the same result and end in the same scope, whatever was
recorded before. -/
structure IsOnly (n : Naming) (s : State) (edit : Edit) (s' : State) : Prop where
  only {u u' : State} {edit' : Edit} : Walks n u edit' u' → edit.SamePiece edit' →
    u.scope = s.scope → edit' = edit ∧ u'.scope = s'.scope

-- Where two rules are about the same piece, what the piece is or the scope tells them apart: there
-- is one lemma for each rule that has such a neighbour, and for those that look at more than their
-- parts.
namespace IsOnly

variable {s s1 s2 s3 s' : State} {l lb lc ld le lf li ln : Option Location} {name op : Text}
  {kind : JumpKind} {domain : Domain} {isPrefix : Bool} {scope : Scope}
  {id value e e' t t' object object' property property' callee callee' argument argument' left left'
    right right' test test' consequent consequent' alternate alternate' init init' step step' body
    body' : Tree}
  {es es' ps ss ss1 ss' args args' ts ts' ts'' ds : List Tree}

theorem absent : IsOnly n s (.optional .null .null) s := by
  refine ⟨fun h' piece scope => ?_⟩
  cases piece
  cases h' with
  | absent => exact ⟨rfl, scope⟩
  | present part => cases part

theorem present (part : Walks n s (.expression e e') s') (ih : IsOnly n s (.expression e e') s') :
    IsOnly n s (.optional e e') s' := by
  refine ⟨fun h' piece scope => ?_⟩
  cases piece
  cases h' with
  | absent => cases part
  | present part' =>
    obtain ⟨⟨⟩, kept⟩ := ih.only part' .expression scope
    exact ⟨rfl, kept⟩

theorem returnNothing : IsOnly n s (.returned l .null (.node l (.returnStatement .null))) s := by
  refine ⟨fun h' piece scope => ?_⟩
  cases piece
  cases h' with
  | returnNothing => exact ⟨rfl, scope⟩
  | returnValue _ part => cases part

/-- A converted call is the only outcome, as it is not returned as it stands. -/
theorem returnCall (own : s.scope.name = some name)
    (converted : convertCall n l lc args' s1 = .ok (t', s'))
    (ih : IsOnly n s (.expressions args args') s1) :
    IsOnly n s
      (.returned l (.node lc (.call (.node lf (.identifier (.text name))) (.tuple args))) t') s' := by
  refine ⟨fun h' piece scope => ?_⟩
  cases piece
  cases h' with
  | returnCall _ parts converted' =>
    obtain ⟨⟨⟩, kept⟩ := ih.only parts .expressions scope
    -- The statements for a call depend on the scope alone, not on what was recorded.
    obtain ⟨-, rfl, rfl⟩ := convertCall_ok.mp converted
    obtain ⟨-, rfl, rfl⟩ := convertCall_ok.mp converted'
    rw [kept]
    exact ⟨rfl, rfl⟩
  | returnValue kept =>
    rw [scope, converts_own own] at kept
    cases kept

/-- A returned choice is walked as one: no other rule is about a conditional. -/
theorem returnConditional (ih1 : IsOnly n (s.tally Stats.addTernary) (.expression test test') s1)
    (ih2 : IsOnly n s1 (.branch consequent consequent') s2)
    (ih3 : IsOnly n s2 (.branch alternate alternate') s') :
    IsOnly n s
      (.returned l (.node lc (.conditional test consequent alternate))
        (.node l (.ifStatement test' consequent' alternate'))) s' := by
  refine ⟨fun h' piece scope => ?_⟩
  cases piece
  cases h' with
  | returnConditional first second third =>
    obtain ⟨⟨⟩, kept⟩ := ih1.only first .expression scope
    obtain ⟨⟨⟩, kept⟩ := ih2.only second .branch kept
    obtain ⟨⟨⟩, kept⟩ := ih3.only third .branch kept
    exact ⟨rfl, kept⟩
  | returnValue kept => cases kept

/-- A value that is returned as it stands is no call that could be converted. -/
theorem returnValue (kept : s.scope.converts e = false) (part : Walks n s (.expression e e') s')
    (ih : IsOnly n s (.expression e e') s') :
    IsOnly n s (.returned l e (.node l (.returnStatement e'))) s' := by
  refine ⟨fun h' piece scope => ?_⟩
  cases piece
  cases h' with
  | returnNothing => cases part
  | returnCall own =>
    rw [scope] at own
    rw [converts_own own] at kept
    cases kept
  | returnConditional => cases kept
  | returnValue _ part' =>
    obtain ⟨⟨⟩, kept⟩ := ih.only part' .expression scope
    exact ⟨rfl, kept⟩

/-- A branch that is no sequence is returned. -/
theorem branchValue (single : e.hasKind .sequenceExpression = false)
    (ih : IsOnly n s (.returned e.location? e t') s') :
    IsOnly n s (.branch e t') s' := by
  refine ⟨fun h' piece scope => ?_⟩
  cases piece
  cases h' with
  | branchValue _ part' =>
    obtain ⟨⟨⟩, kept⟩ := ih.only part' .returned scope
    exact ⟨rfl, kept⟩
  | branchSequence => cases single

/-- A branch that is a sequence becomes a block. -/
theorem branchSequence (ih : IsOnly n s (.branchItems es ts) s') :
    IsOnly n s (.branch (.node l (.sequence (.tuple es))) (Tree.new (.block (.tuple ts)))) s' := by
  refine ⟨fun h' piece scope => ?_⟩
  cases piece
  cases h' with
  | branchValue single => cases single
  | branchSequence parts =>
    obtain ⟨⟨⟩, kept⟩ := ih.only parts .branchItems scope
    exact ⟨rfl, kept⟩

/-- The last item of a branch is what it returns. -/
theorem branchLast (spliced : t'.spliced = .ok ts) (ih : IsOnly n s (.returned e.location? e t') s') :
    IsOnly n s (.branchItems [e] ts) s' := by
  refine ⟨fun h' piece scope => ?_⟩
  cases piece
  cases h' with
  | branchLast part spliced' =>
    obtain ⟨⟨⟩, kept⟩ := ih.only part .returned scope
    cases Except.ok.inj (spliced.symm.trans spliced')
    exact ⟨rfl, kept⟩
  | branchMore more => exact (more rfl).elim

/-- An item that others follow becomes a statement. -/
theorem branchMore (more : es ≠ []) (ih1 : IsOnly n s (.expression e e') s1)
    (ih2 : IsOnly n s1 (.branchItems es ts) s') :
    IsOnly n s (.branchItems (e :: es) (.node e.location? (.expressionStatement e') :: ts)) s' := by
  refine ⟨fun h' piece scope => ?_⟩
  cases piece
  cases h' with
  | branchLast => exact (more rfl).elim
  | branchMore _ first second =>
    obtain ⟨⟨⟩, kept⟩ := ih1.only first .expression scope
    obtain ⟨⟨⟩, kept⟩ := ih2.only second .branchItems kept
    exact ⟨rfl, kept⟩

theorem forStatement (ih1 : IsOnly n s (.loopStart init init') s1)
    (ih2 : IsOnly n s1 (.optional test test') s2) (ih3 : IsOnly n s2 (.optional step step') s3)
    (ih4 : IsOnly n s3 (.statement body body') s') :
    IsOnly n s
      (.statement (.node l (.forStatement init test step body))
        (.node l (.forStatement init' test' step' body'))) s' := by
  refine ⟨fun h' piece scope => ?_⟩
  cases piece
  cases h' with
  | forStatement first second third fourth =>
    obtain ⟨⟨⟩, kept⟩ := ih1.only first .loopStart scope
    obtain ⟨⟨⟩, kept⟩ := ih2.only second .optional kept
    obtain ⟨⟨⟩, kept⟩ := ih3.only third .optional kept
    obtain ⟨⟨⟩, kept⟩ := ih4.only fourth .statement kept
    exact ⟨rfl, kept⟩

/-- A loop that declares its variable is walked as one that does. -/
theorem forEachDeclared
    (ih1 : IsOnly n ((s.rescope (·.addLocal name)).tally (Stats.addVars 1))
        (.expression right right') s1)
    (ih2 : IsOnly n s1 (.statement body body') s') :
    IsOnly n s
      (.statement
        (.node l (.forEach domain
          (.node ld (.variableDeclaration
            (.tuple [.node le (.variableDeclarator (.node li (.identifier (.text name))) .null)])
            (.text Tree.varKind))) right body))
        (.node l (.forEach domain (.node li (.identifier (.text name))) right' body'))) s' := by
  refine ⟨fun h' piece scope => ?_⟩
  -- The target is a declaration, so that no other rule reads this loop.
  cases piece
  cases h' with
  | forEachDeclared _ first second =>
    obtain ⟨⟨⟩, kept⟩ := ih1.only first .expression (congrArg (Scope.addLocal · _) scope)
    obtain ⟨⟨⟩, kept⟩ := ih2.only second .statement kept
    exact ⟨rfl, kept⟩
  | forEach target => cases target

/-- A loop that assigns to a target is walked as one that does. -/
theorem forEach (target : left.isAssignable = true) (ih1 : IsOnly n s (.expression left left') s1)
    (ih2 : IsOnly n s1 (.expression right right') s2) (ih3 : IsOnly n s2 (.statement body body') s') :
    IsOnly n s
      (.statement (.node l (.forEach domain left right body))
        (.node l (.forEach domain left' right' body'))) s' := by
  refine ⟨fun h' piece scope => ?_⟩
  cases piece
  cases h' with
  | forEachDeclared => cases target
  | forEach _ first second third =>
    obtain ⟨⟨⟩, kept⟩ := ih1.only first .expression scope
    obtain ⟨⟨⟩, kept⟩ := ih2.only second .expression kept
    obtain ⟨⟨⟩, kept⟩ := ih3.only third .statement kept
    exact ⟨rfl, kept⟩

theorem noAlternate : IsOnly n s (.optionalStatement .null .null) s := by
  refine ⟨fun h' piece scope => ?_⟩
  cases piece
  cases h' with
  | noAlternate => exact ⟨rfl, scope⟩
  | alternate part => cases part

theorem someAlternate (part : Walks n s (.statement t t') s') (ih : IsOnly n s (.statement t t') s') :
    IsOnly n s (.optionalStatement t t') s' := by
  refine ⟨fun h' piece scope => ?_⟩
  cases piece
  cases h' with
  | noAlternate => cases part
  | alternate part' =>
    obtain ⟨⟨⟩, kept⟩ := ih.only part' .statement scope
    exact ⟨rfl, kept⟩

/-- Statements in a row: the state after the first is known, and so is what it is spliced into. -/
theorem moreStatements (spliced : t'.spliced = .ok ts') (ih1 : IsOnly n s (.statement t t') s1)
    (ih2 : IsOnly n s1 (.statements ts ts'') s') :
    IsOnly n s (.statements (t :: ts) (ts' ++ ts'')) s' := by
  refine ⟨fun h' piece scope => ?_⟩
  cases piece
  cases h' with
  | moreStatements first spliced' second =>
    obtain ⟨⟨⟩, kept⟩ := ih1.only first .statement scope
    cases Except.ok.inj (spliced.symm.trans spliced')
    obtain ⟨⟨⟩, kept⟩ := ih2.only second .statements kept
    exact ⟨rfl, kept⟩

/-- A row that starts with a directive starts strictly only. -/
theorem startStrict (strict : t.isStrictDirective = true)
    (ih : IsOnly n (s.rescope fun c => { c with directive := some t }) (.statements ts ts') s') :
    IsOnly n s (.start (t :: ts) ts') s' := by
  refine ⟨fun h' piece scope => ?_⟩
  cases piece
  cases h' with
  | startStrict _ parts =>
    have noted := congrArg (fun c : Scope => { c with directive := some t }) scope
    obtain ⟨⟨⟩, kept⟩ := ih.only parts .statements noted
    exact ⟨rfl, kept⟩
  | startPlain plain => cases strict.symm.trans (plain _ rfl)

/-- A row that starts without a directive does not start strictly. -/
theorem startPlain (plain : ∀ t ∈ ts.head?, t.isStrictDirective = false)
    (ih : IsOnly n s (.statements ts ts') s') :
    IsOnly n s (.start ts ts') s' := by
  refine ⟨fun h' piece scope => ?_⟩
  cases piece
  cases h' with
  | startStrict strict => cases strict.symm.trans (plain _ rfl)
  | startPlain _ parts =>
    obtain ⟨⟨⟩, kept⟩ := ih.only parts .statements scope
    exact ⟨rfl, kept⟩

theorem noStart : IsOnly n s (.loopStart .null .null) s := by
  refine ⟨fun h' piece scope => ?_⟩
  cases piece
  cases h' with
  | noStart => exact ⟨rfl, scope⟩
  | startExpression part => cases part

theorem startExpression (part : Walks n s (.expression e e') s')
    (ih : IsOnly n s (.expression e e') s') :
    IsOnly n s (.loopStart e e') s' := by
  refine ⟨fun h' piece scope => ?_⟩
  cases piece
  cases h' with
  | noStart => cases part
  | startExpression part' =>
    obtain ⟨⟨⟩, kept⟩ := ih.only part' .expression scope
    exact ⟨rfl, kept⟩
  | startDeclaration => cases part

/-- A loop that starts with a declaration has one outcome, its declarators. -/
theorem startDeclaration (ih : IsOnly n s (.declarators ds es) s') :
    IsOnly n s
      (.loopStart (.node l (.variableDeclaration (.tuple ds) (.text Tree.varKind)))
        (Tree.new (.sequence (.tuple es))))
      (s'.tally (Stats.addVars es.length)) := by
  refine ⟨fun h' piece scope => ?_⟩
  cases piece
  cases h' with
  | startExpression part => cases part
  | startDeclaration parts =>
    obtain ⟨⟨⟩, kept⟩ := ih.only parts .declarators scope
    exact ⟨rfl, kept⟩

theorem noInitial : IsOnly n s (.initial .null .undefined) s := by
  refine ⟨fun h' piece scope => ?_⟩
  cases piece
  cases h' with
  | noInitial => exact ⟨rfl, scope⟩
  | initial part => cases part

theorem initial (part : Walks n s (.expression e e') s') (ih : IsOnly n s (.expression e e') s') :
    IsOnly n s (.initial e e') s' := by
  refine ⟨fun h' piece scope => ?_⟩
  cases piece
  cases h' with
  | noInitial => cases part
  | initial part' =>
    obtain ⟨⟨⟩, kept⟩ := ih.only part' .expression scope
    exact ⟨rfl, kept⟩

/-- A declarator has one outcome, an assignment to its name. -/
theorem moreDeclarators (ih1 : IsOnly n (s.rescope (·.addLocal name)) (.initial init init') s1)
    (ih2 : IsOnly n s1 (.declarators ds es) s') :
    IsOnly n s
      (.declarators (.node l (.variableDeclarator (.node li (.identifier (.text name))) init) :: ds)
        (.node l (.assignment (.text plainAssignment) (.node li (.identifier (.text name))) init')
          :: es)) s' := by
  refine ⟨fun h' piece scope => ?_⟩
  cases piece
  cases h' with
  | moreDeclarators _ first second =>
    obtain ⟨⟨⟩, kept⟩ := ih1.only first .initial (congrArg (Scope.addLocal · _) scope)
    obtain ⟨⟨⟩, kept⟩ := ih2.only second .declarators kept
    exact ⟨rfl, kept⟩

/-- A body has one outcome, as it is finished in one way. -/
theorem wholeBody (finished : finishBody n s1.scope ss1 = .ok ss')
    (ih : IsOnly n ⟨scope, s.stats⟩ (.start ss ss1) s1) :
    IsOnly n s (.body scope ss ss') ⟨s.scope, s1.stats.addFunction s1.scope⟩ := by
  refine ⟨fun h' piece scope => ?_⟩
  cases piece
  cases h' with
  | body starts finished' =>
    obtain ⟨⟨⟩, kept⟩ := ih.only starts .start rfl
    rw [kept] at finished'
    cases Except.ok.inj (finished.symm.trans finished')
    exact ⟨rfl, scope⟩

end IsOnly

/-- Every walk is the only one of its piece from its scope. -/
theorem Walks.isOnly {s s' : State} {edit : Edit} (h : Walks n s edit s') :
    IsOnly n s edit s' := by
  -- The parts are compared from left to right, each from the scope in which the one before ended.
  induction h with
  | identifier | literal | noExpressions | emptyStatement | bareJump | jump | noStatements
  | noDeclarators =>
    refine ⟨fun h' piece scope => ?_⟩
    cases piece
    cases h'
    exact ⟨rfl, scope⟩
  | array _ ih | sequence _ ih | unary _ ih | update _ ih | block _ ih | returnStatement _ ih
  | variableDeclaration _ ih | expressionStatement _ ih | labeled _ _ ih =>
    refine ⟨fun h' piece scope => ?_⟩
    cases piece
    cases h'
    rename_i part
    obtain ⟨⟨⟩, kept⟩ := ih.only part (by constructor) scope
    exact ⟨rfl, kept⟩
  | member _ _ ih =>
    refine ⟨fun h' piece scope => ?_⟩
    cases piece
    cases h' with
    | member part name =>
      obtain ⟨⟨⟩, kept⟩ := ih.only part .expression scope
      exact ⟨rfl, kept⟩
  | function starts _ ih | functionDeclaration starts _ ih =>
    refine ⟨fun h' piece scope => ?_⟩
    cases piece
    cases h'
    rename_i entered inner
    cases Except.ok.inj (starts.symm.trans entered)
    obtain ⟨⟨⟩, kept⟩ := ih.only inner .body scope
    exact ⟨rfl, kept⟩
  | call _ _ ih1 ih2 | computedMember _ _ ih1 ih2 | assignment _ _ ih1 ih2 | binary _ _ ih1 ih2
  | logical _ _ ih1 ih2 | moreExpressions _ _ ih1 ih2 | whileStatement _ _ ih1 ih2
  | doWhileStatement _ _ ih1 ih2 =>
    refine ⟨fun h' piece scope => ?_⟩
    cases piece
    cases h'
    rename_i first second
    obtain ⟨⟨⟩, kept⟩ := ih1.only first (by constructor) scope
    obtain ⟨⟨⟩, kept⟩ := ih2.only second (by constructor) kept
    exact ⟨rfl, kept⟩
  | conditional _ _ _ ih1 ih2 ih3 | ifStatement _ _ _ ih1 ih2 ih3 =>
    refine ⟨fun h' piece scope => ?_⟩
    cases piece
    cases h'
    rename_i first second third
    obtain ⟨⟨⟩, kept⟩ := ih1.only first (by constructor) scope
    obtain ⟨⟨⟩, kept⟩ := ih2.only second (by constructor) kept
    obtain ⟨⟨⟩, kept⟩ := ih3.only third (by constructor) kept
    exact ⟨rfl, kept⟩
  | absent => exact .absent
  | present part ih => exact .present part ih
  | returnNothing => exact .returnNothing
  | returnCall own _ converted ih => exact .returnCall own converted ih
  | returnConditional _ _ _ ih1 ih2 ih3 => exact .returnConditional ih1 ih2 ih3
  | returnValue kept part ih => exact .returnValue kept part ih
  | branchValue single _ ih => exact .branchValue single ih
  | branchSequence _ ih => exact .branchSequence ih
  | branchLast _ spliced ih => exact .branchLast spliced ih
  | branchMore more _ _ ih1 ih2 => exact .branchMore more ih1 ih2
  | forStatement _ _ _ _ ih1 ih2 ih3 ih4 => exact .forStatement ih1 ih2 ih3 ih4
  | forEachDeclared _ _ _ ih1 ih2 => exact .forEachDeclared ih1 ih2
  | forEach target _ _ _ ih1 ih2 ih3 => exact .forEach target ih1 ih2 ih3
  | noAlternate => exact .noAlternate
  | alternate part ih => exact .someAlternate part ih
  | moreStatements _ spliced _ ih1 ih2 => exact .moreStatements spliced ih1 ih2
  | startStrict strict _ ih => exact .startStrict strict ih
  | startPlain plain _ ih => exact .startPlain plain ih
  | noStart => exact .noStart
  | startExpression part ih => exact .startExpression part ih
  | startDeclaration _ ih => exact .startDeclaration ih
  | noInitial => exact .noInitial
  | initial part ih => exact .initial part ih
  | moreDeclarators _ _ _ ih1 ih2 => exact .moreDeclarators ih1 ih2
  | body _ finished ih => exact .wholeBody finished ih

/-- Walks of the same piece from the same scope end with the same result and in the same scope,
whatever was recorded before. -/
theorem Walks.unique {s s' u u' : State} {edit edit' : Edit} (h : Walks n s edit s')
    (h' : Walks n u edit' u') (piece : edit.SamePiece edit') (scope : u.scope = s.scope) :
    edit' = edit ∧ u'.scope = s'.scope :=
  h.isOnly.only h' piece scope

/-! ## Functions alone -/

/-- The second tree is what elimination makes of the first. -/
def Becomes (n : Naming) (f f' : Tree) : Prop := ∃ stats, f.eliminateTailCalls n = .ok (f', stats)

section Rewrites

variable {checked : Bool} {c : Targets} {t t' f f' : Tree} {stats : Stats}

/-- A function that was walked is fine with all its nodes. -/
theorem Rewrites.fine (wf : WellFormed checked c f) (function : f.isFunction = true)
    (h : Rewrites n f f') : ∀ u ∈ f.nodes, u.Fine n := by
  obtain ⟨head, enters, walked, -⟩ := h
  cases head with
  | program => cases function
  | @function l form id ps lb ss =>
    cases enters with
    | function starts =>
      have inner : AllFine n (ss.flatMap marks) := walked.transported_start transports_fine
      have marks : AllFine n (functionOf l form id ps lb ss).marks := by
        rw [marks_function]
        exact List.forall_mem_cons.mpr ⟨fun _ => fine_function wf starts walked, inner⟩
      exact marks.nodes wf

/-- A function that was walked is not refused when it stands alone. -/
theorem Rewrites.accepted (wf : WellFormed checked c f) (function : f.isFunction = true)
    (h : Rewrites n f f') : ∃ t, Becomes n f t := by
  have fine := h.fine wf function
  have all : f.declaringNodes = f.nodes :=
    declaringNodes_eq (by rintro _ _ _ rfl; cases function)
  -- A refusal blames a node of the function, and all its nodes are fine.
  cases result : f.eliminateTailCalls n with
  | ok r => exact ⟨r.1, r.2, result⟩
  | error e =>
    cases blames_of_refused wf result with
    | reservedName mem name reserved =>
      rw [all] at mem
      cases ((fine _ mem).names _ name).symm.trans reserved
    | tooManyArguments mem call many =>
      have few := (fine _ mem).calls _ call
      omega

/-- What takes the place of a function is what elimination makes of it alone. -/
theorem Rewrites.becomes (wf : WellFormed checked c f) (function : f.isFunction = true)
    (h : Rewrites n f f') : Becomes n f f' := by
  obtain ⟨t, stats, eliminated⟩ := h.accepted wf function
  have same : t = f' := by
    obtain ⟨head, enters, walked, finished⟩ := h
    cases head with
    | program => cases function
    | function =>
      cases enters with
      | function starts =>
        -- Both walks enter the body with the same scope, which the head of the function gives.
        have body := Walks.body (s := ⟨{}, _⟩) walked finished
        cases eliminates_of_ok wf eliminated with
        | expression _ part =>
          cases part with
          | function starts' inner =>
            cases Except.ok.inj (starts.symm.trans starts')
            obtain ⟨⟨⟩, -⟩ := body.unique inner .body rfl
            rfl
        | statement _ part =>
          cases part with
          | functionDeclaration starts' inner =>
            cases Except.ok.inj (starts.symm.trans starts')
            obtain ⟨⟨⟩, -⟩ := body.unique inner .body rfl
            rfl
  rw [← same]
  exact ⟨stats, eliminated⟩

/-- Elimination rewrites the programs and functions of a tree one by one, each as if it were the
whole tree. -/
theorem becomes_of_ok (wf : WellFormed checked c t)
    (eliminated : t.eliminateTailCalls n = .ok (t', stats)) :
    List.Forall₂ (fun f f' => (∃ c, WellFormed checked c f) ∧ Becomes n f f' ∧ Rewrites n f f')
      t.scopes t'.scopes := by
  have rewritten := (eliminates_of_ok wf eliminated).rewrites wf
  refine ((List.forall₂_and_left _ _).mpr ⟨wf.scopes, rewritten⟩).imp ?_
  rintro f f' ⟨⟨c', valid⟩, function | ⟨rfl, rfl⟩, step⟩
  · exact ⟨⟨c', valid⟩, step.becomes valid function, step⟩
  · exact ⟨⟨c', valid⟩, ⟨stats, eliminated⟩, step⟩

end Rewrites

end TailLoop.Elimination
