import TailLoop.Elimination.Basic
import TailLoop.Proofs.WellFormed

/-!
# Elimination by rules

`Walks n s edit s'` says what `walk` of `Elimination/Basic.lean` does to a well-formed tree: an edit
is a piece of a program together with what takes its place, and the states around it are those
before and after. There is one rule for each form of node and each position that treats the form in
its own way. The rules for a converted call and for a finished body refer to `convertCall` and
`finishBody`, which have their own specifications.

A walked row of statements holds no block, because a block in a row is replaced by its statements
when the row is put together (`Walks.flat`).
-/

namespace TailLoop.Elimination

open Validity

/-- The state with a change to the record of what was done. -/
def State.tally (s : State) (f : Stats → Stats) : State := { s with stats := f s.stats }

/-- The state with a change to the current scope. -/
def State.rescope (s : State) (f : Scope → Scope) : State := { s with scope := f s.scope }

/-- One more returned conditional was split. -/
def Stats.addTernary (t : Stats) : Stats := { t with ternaries := t.ternaries + 1 }

/-- Some more declared variables became assignments. -/
def Stats.addVars (count : Nat) (t : Stats) : Stats := { t with vars := t.vars + count }

/-- A function was finished in this scope: it counts if it became a loop. -/
def Stats.addFunction (scope : Scope) (t : Stats) : Stats :=
  if scope.isTailRecursive then { t with functions := t.functions ++ scope.name.toList } else t

/-- Whether a returned value is turned into something else than a `return`: a conditional, or a call
of the own function. -/
def Scope.converts (s : Scope) : Tree → Bool
  | .node _ (.conditional ..) => true
  | .node _ (.call callee _) => s.name.any fun name => isIdentifier name callee
  | _ => false

/-- A piece of a program and what takes its place. -/
inductive Edit where
  /-- An expression inside something else. -/
  | expression (e e' : Tree)
  /-- An expression that may be absent. -/
  | optional (e e' : Tree)
  /-- The expressions of a row. -/
  | expressions (es es' : List Tree)
  /-- The value of a `return` with a location, and the statement that comes of it. -/
  | returned (l : Option Location) (e t' : Tree)
  /-- A branch of the value of a `return`, and the statement that comes of it. -/
  | branch (e t' : Tree)
  /-- The expressions of a sequence that is such a branch, and the statements that come of them. -/
  | branchItems (es ts : List Tree)
  /-- A statement. -/
  | statement (t t' : Tree)
  /-- A statement that may be absent. -/
  | optionalStatement (t t' : Tree)
  /-- The statements of a row. -/
  | statements (ts ts' : List Tree)
  /-- The statements at the start of a function or program. -/
  | start (ts ts' : List Tree)
  /-- What stands first in the head of a `for`. -/
  | loopStart (t t' : Tree)
  /-- The initial value of a declarator, which may be absent, and the value that is assigned. -/
  | initial (e e' : Tree)
  /-- Declarators and the assignments that come of them. -/
  | declarators (ds es : List Tree)
  /-- The statements of a function with a scope. -/
  | body (scope : Scope) (ts ts' : List Tree)

/-- What a walk makes of a piece of a program, by rules. -/
inductive Walks (n : Naming) : State → Edit → State → Prop where
  | identifier {s l name} :
    Walks n s
      (.expression (.node l (.identifier (.text name))) (.node l (.identifier (.text name)))) s
  | literal {s l value} (plain : value.isPlain = true) :
    Walks n s (.expression (.node l (.literal value)) (.node l (.literal value))) s
  | array {s s' l es es'} (parts : Walks n s (.expressions es es') s') :
    Walks n s (.expression (.node l (.array (.tuple es))) (.node l (.array (.tuple es')))) s'
  | function {s s' l id ps lb ss ss' scope}
      (starts : Scope.ofFunction n id (.tuple ps) (.node lb (.block (.tuple ss))) = .ok scope)
      (inner : Walks n s (.body scope ss ss') s') :
    Walks n s
      (.expression
        (.node l (.function .expression id (.tuple ps) (.node lb (.block (.tuple ss)))))
        (.node l (.function .expression id (.tuple ps) (.node lb (.block (.tuple ss')))))) s'
  | call {s s1 s' l callee callee' args args'} (part : Walks n s (.expression callee callee') s1)
      (parts : Walks n s1 (.expressions args args') s') :
    Walks n s
      (.expression (.node l (.call callee (.tuple args)))
        (.node l (.call callee' (.tuple args')))) s'
  | member {s s' l object object' property} (part : Walks n s (.expression object object') s')
      (name : IsName property) :
    Walks n s
      (.expression (.node l (.member object property (.bool false)))
        (.node l (.member object' property (.bool false)))) s'
  | computedMember {s s1 s' l object object' property property'}
      (part : Walks n s (.expression object object') s1)
      (keyPart : Walks n s1 (.expression property property') s') :
    Walks n s
      (.expression (.node l (.member object property (.bool true)))
        (.node l (.member object' property' (.bool true)))) s'
  | conditional {s s1 s2 s' l test test' consequent consequent' alternate alternate'}
      (testPart : Walks n s (.expression test test') s1)
      (part : Walks n s1 (.expression consequent consequent') s2)
      (elsePart : Walks n s2 (.expression alternate alternate') s') :
    Walks n s
      (.expression (.node l (.conditional test consequent alternate))
        (.node l (.conditional test' consequent' alternate'))) s'
  | assignment {s s1 s' l op left left' right right'}
      (leftPart : Walks n s (.expression left left') s1)
      (part : Walks n s1 (.expression right right') s') :
    Walks n s
      (.expression (.node l (.assignment (.text op) left right))
        (.node l (.assignment (.text op) left' right'))) s'
  | sequence {s s' l es es'} (parts : Walks n s (.expressions es es') s') :
    Walks n s (.expression (.node l (.sequence (.tuple es))) (.node l (.sequence (.tuple es')))) s'
  | binary {s s1 s' l op left left' right right'} (leftPart : Walks n s (.expression left left') s1)
      (part : Walks n s1 (.expression right right') s') :
    Walks n s
      (.expression (.node l (.binary (.text op) left right))
        (.node l (.binary (.text op) left' right'))) s'
  | logical {s s1 s' l op left left' right right'}
      (leftPart : Walks n s (.expression left left') s1)
      (part : Walks n s1 (.expression right right') s') :
    Walks n s
      (.expression (.node l (.logical (.text op) left right))
        (.node l (.logical (.text op) left' right'))) s'
  | unary {s s' l op argument argument' isPrefix}
      (part : Walks n s (.expression argument argument') s') :
    Walks n s
      (.expression (.node l (.unary (.text op) argument (.bool isPrefix)))
        (.node l (.unary (.text op) argument' (.bool isPrefix)))) s'
  | update {s s' l op argument argument' isPrefix}
      (part : Walks n s (.expression argument argument') s') :
    Walks n s
      (.expression (.node l (.update (.text op) argument (.bool isPrefix)))
        (.node l (.update (.text op) argument' (.bool isPrefix)))) s'
  | absent {s} : Walks n s (.optional .null .null) s
  | present {s s' e e'} (part : Walks n s (.expression e e') s') : Walks n s (.optional e e') s'
  | noExpressions {s} : Walks n s (.expressions [] []) s
  | moreExpressions {s s1 s' e e' es es'} (part : Walks n s (.expression e e') s1)
      (parts : Walks n s1 (.expressions es es') s') :
    Walks n s (.expressions (e :: es) (e' :: es')) s'
  | returnNothing {s l} : Walks n s (.returned l .null (.node l (.returnStatement .null))) s
  | returnCall {s s1 s' l lc lf name args args' t'} (own : s.scope.name = some name)
      (parts : Walks n s (.expressions args args') s1)
      (converted : convertCall n l lc args' s1 = .ok (t', s')) :
    Walks n s
      (.returned l (.node lc (.call (.node lf (.identifier (.text name))) (.tuple args))) t') s'
  | returnConditional {s s1 s2 s' l lc test test' consequent consequent' alternate alternate'}
      (testPart : Walks n (s.tally Stats.addTernary) (.expression test test') s1)
      (part : Walks n s1 (.branch consequent consequent') s2)
      (elsePart : Walks n s2 (.branch alternate alternate') s') :
    Walks n s
      (.returned l (.node lc (.conditional test consequent alternate))
        (.node l (.ifStatement test' consequent' alternate'))) s'
  | returnValue {s s' l e e'} (kept : s.scope.converts e = false)
      (part : Walks n s (.expression e e') s') :
    Walks n s (.returned l e (.node l (.returnStatement e'))) s'
  | branchValue {s s' e t'} (single : e.hasKind .sequenceExpression = false)
      (part : Walks n s (.returned e.location? e t') s') : Walks n s (.branch e t') s'
  | branchSequence {s s' l es ts} (parts : Walks n s (.branchItems es ts) s') :
    Walks n s (.branch (.node l (.sequence (.tuple es))) (Tree.new (.block (.tuple ts)))) s'
  | branchLast {s s' e t' ts} (part : Walks n s (.returned e.location? e t') s')
      (spliced : t'.spliced = .ok ts) : Walks n s (.branchItems [e] ts) s'
  | branchMore {s s1 s' e e' es ts} (more : es ≠ []) (part : Walks n s (.expression e e') s1)
      (parts : Walks n s1 (.branchItems es ts) s') :
    Walks n s (.branchItems (e :: es) (.node e.location? (.expressionStatement e') :: ts)) s'
  | functionDeclaration {s s' l id ps lb ss ss' scope}
      (starts : Scope.ofFunction n id (.tuple ps) (.node lb (.block (.tuple ss))) = .ok scope)
      (inner : Walks n s (.body scope ss ss') s') :
    Walks n s
      (.statement
        (.node l (.function .declaration id (.tuple ps) (.node lb (.block (.tuple ss)))))
        (.node l (.function .declaration id (.tuple ps) (.node lb (.block (.tuple ss')))))) s'
  | block {s s' l ss ss'} (parts : Walks n s (.statements ss ss') s') :
    Walks n s (.statement (.node l (.block (.tuple ss))) (.node l (.block (.tuple ss')))) s'
  | returnStatement {s s' l argument t'} (part : Walks n s (.returned l argument t') s') :
    Walks n s (.statement (.node l (.returnStatement argument)) t') s'
  | variableDeclaration {s s' l ds es} (parts : Walks n s (.declarators ds es) s') :
    Walks n s
      (.statement (.node l (.variableDeclaration (.tuple ds) (.text Tree.varKind)))
        (.node l (.expressionStatement (Tree.new (.sequence (.tuple es))))))
      (s'.tally (Stats.addVars es.length))
  | ifStatement {s s1 s2 s' l test test' consequent consequent' alternate alternate'}
      (testPart : Walks n s (.expression test test') s1)
      (part : Walks n s1 (.statement consequent consequent') s2)
      (elsePart : Walks n s2 (.optionalStatement alternate alternate') s') :
    Walks n s
      (.statement (.node l (.ifStatement test consequent alternate))
        (.node l (.ifStatement test' consequent' alternate'))) s'
  | forStatement {s s1 s2 s3 s' l init init' test test' step step' body body'}
      (initPart : Walks n s (.loopStart init init') s1)
      (testPart : Walks n s1 (.optional test test') s2)
      (stepPart : Walks n s2 (.optional step step') s3)
      (part : Walks n s3 (.statement body body') s') :
    Walks n s
      (.statement (.node l (.forStatement init test step body))
        (.node l (.forStatement init' test' step' body'))) s'
  | forEachDeclared {s s1 s' l domain ld le li name right right' body body'}
      (free : n.reserves name = false)
      (rightPart : Walks n ((s.rescope (·.addLocal name)).tally (Stats.addVars 1))
        (.expression right right') s1)
      (part : Walks n s1 (.statement body body') s') :
    Walks n s
      (.statement
        (.node l (.forEach domain
          (.node ld (.variableDeclaration
            (.tuple [.node le (.variableDeclarator (.node li (.identifier (.text name))) .null)])
            (.text Tree.varKind))) right body))
        (.node l (.forEach domain (.node li (.identifier (.text name))) right' body'))) s'
  | forEach {s s1 s2 s' l domain left left' right right' body body'}
      (target : left.isAssignable = true) (leftPart : Walks n s (.expression left left') s1)
      (rightPart : Walks n s1 (.expression right right') s2)
      (part : Walks n s2 (.statement body body') s') :
    Walks n s
      (.statement (.node l (.forEach domain left right body))
        (.node l (.forEach domain left' right' body'))) s'
  | whileStatement {s s1 s' l test test' body body'}
      (testPart : Walks n s (.expression test test') s1)
      (part : Walks n s1 (.statement body body') s') :
    Walks n s
      (.statement (.node l (.whileStatement test body)) (.node l (.whileStatement test' body'))) s'
  | doWhileStatement {s s1 s' l test test' body body'} (part : Walks n s (.statement body body') s1)
      (testPart : Walks n s1 (.expression test test') s') :
    Walks n s
      (.statement (.node l (.doWhileStatement body test)) (.node l (.doWhileStatement body' test')))
      s'
  | expressionStatement {s s' l e e'} (part : Walks n s (.expression e e') s') :
    Walks n s
      (.statement (.node l (.expressionStatement e)) (.node l (.expressionStatement e'))) s'
  | emptyStatement {s l} :
    Walks n s (.statement (.node l .emptyStatement) (.node l .emptyStatement)) s
  | bareJump {s l kind} :
    Walks n s (.statement (.node l (.jump kind .null)) (.node l (.jump kind .null))) s
  | jump {s l kind ln name} :
    Walks n s
      (.statement (.node l (.jump kind (.node ln (.identifier (.text name)))))
        (.node l (.jump kind (.node ln (.identifier (.text name)))))) s
  | labeled {s s' l ln name body body'} (free : n.reserves name = false)
      (part : Walks n s (.statement body body') s') :
    Walks n s
      (.statement (.node l (.labeled (.node ln (.identifier (.text name))) body))
        (.node l (.labeled (.node ln (.identifier (.text name))) body'))) s'
  | noAlternate {s} : Walks n s (.optionalStatement .null .null) s
  | alternate {s s' t t'} (part : Walks n s (.statement t t') s') :
    Walks n s (.optionalStatement t t') s'
  | noStatements {s} : Walks n s (.statements [] []) s
  | moreStatements {s s1 s' t t' ts ts' ts''} (part : Walks n s (.statement t t') s1)
      (spliced : t'.spliced = .ok ts') (parts : Walks n s1 (.statements ts ts'') s') :
    Walks n s (.statements (t :: ts) (ts' ++ ts'')) s'
  | startStrict {s s' t ts ts'} (strict : t.isStrictDirective = true)
      (parts :
        Walks n (s.rescope fun c => { c with directive := some t }) (.statements ts ts') s') :
    Walks n s (.start (t :: ts) ts') s'
  | startPlain {s s' ts ts'} (plain : ∀ t ∈ ts.head?, t.isStrictDirective = false)
      (parts : Walks n s (.statements ts ts') s') : Walks n s (.start ts ts') s'
  | noStart {s} : Walks n s (.loopStart .null .null) s
  | startExpression {s s' e e'} (part : Walks n s (.expression e e') s') :
    Walks n s (.loopStart e e') s'
  | startDeclaration {s s' l ds es} (parts : Walks n s (.declarators ds es) s') :
    Walks n s
      (.loopStart (.node l (.variableDeclaration (.tuple ds) (.text Tree.varKind)))
        (Tree.new (.sequence (.tuple es))))
      (s'.tally (Stats.addVars es.length))
  | noInitial {s} : Walks n s (.initial .null .undefined) s
  | initial {s s' e e'} (part : Walks n s (.expression e e') s') : Walks n s (.initial e e') s'
  | noDeclarators {s} : Walks n s (.declarators [] []) s
  | moreDeclarators {s s1 s' l li name init init' ds es} (free : n.reserves name = false)
      (part : Walks n (s.rescope (·.addLocal name)) (.initial init init') s1)
      (parts : Walks n s1 (.declarators ds es) s') :
    Walks n s
      (.declarators (.node l (.variableDeclarator (.node li (.identifier (.text name))) init) :: ds)
        (.node l (.assignment (.text plainAssignment) (.node li (.identifier (.text name))) init')
          :: es)) s'
  | body {s s1 scope ss ss1 ss'} (starts : Walks n ⟨scope, s.stats⟩ (.start ss ss1) s1)
      (finished : finishBody n s1.scope ss1 = .ok ss') :
    Walks n s (.body scope ss ss') ⟨s.scope, s1.stats.addFunction s1.scope⟩

/-! ## Steps of a walk -/

section Steps

variable {ε α β : Type} {s s' : State}

/-- Two steps succeed if the first does and the second does on its result. -/
theorem bind_ok {x : Except ε α} {f : α → Except ε β} {b : β} :
    x >>= f = .ok b ↔ ∃ a, x = .ok a ∧ f a = .ok b := by
  cases x with
  | error e => exact ⟨nofun, nofun⟩
  | ok a =>
    constructor
    · intro h
      exact ⟨a, rfl, h⟩
    · rintro ⟨_, h, hb⟩
      cases h
      exact hb

/-- Two walks succeed one after the other. -/
theorem walk_bind {x : Walk α} {f : α → Walk β} {r : β × State} :
    (x >>= f) s = .ok r ↔ ∃ a s1, x s = .ok (a, s1) ∧ f a s1 = .ok r := by
  change (x s >>= fun p => f p.1 p.2) = .ok r ↔ _
  cases x s with
  | error e => simp [bind, Except.bind]
  | ok p => simp [bind, Except.bind, Prod.ext_iff]

/-- A computed value leaves the state alone. -/
theorem walk_pure {a b : α} : (pure a : Walk α) s = .ok (b, s') ↔ b = a ∧ s' = s := by
  change Except.ok (a, s) = .ok (b, s') ↔ _
  simp [eq_comm]

/-- A refusable computation leaves the state alone. -/
theorem walk_lift {e : Except Refusal α} {a : α} :
    (liftM e : Walk α) s = .ok (a, s') ↔ e = .ok a ∧ s' = s := by
  cases e with
  | error e => exact ⟨nofun, nofun⟩
  | ok b =>
    change Except.ok (b, s) = .ok (a, s') ↔ _
    simp [eq_comm]

/-- Refusing what is not expected changes no success. -/
theorem refuseFault_ok {e : Except Fault α} {a : α} : refuseFault e = .ok a ↔ e = .ok a := by
  cases e <;> simp [refuseFault, Except.mapError]

/-- A computation that must not fail leaves the state alone. -/
theorem walk_attempt {e : Except Fault α} {a : α} :
    attempt e s = .ok (a, s') ↔ e = .ok a ∧ s' = s := by
  rw [attempt, walk_lift, refuseFault_ok]

/-- Reading the state leaves it alone. -/
theorem walk_get {a : State} : (get : Walk State) s = .ok (a, s') ↔ a = s ∧ s' = s := by
  change Except.ok (s, s) = .ok (a, s') ↔ _
  simp [eq_comm]

/-- Changing the scope does so. -/
theorem walk_modifyScope {f : Scope → Scope} {u : Unit} :
    modifyScope f s = .ok (u, s') ↔ s' = s.rescope f := by
  change Except.ok ((), s.rescope f) = .ok (u, s') ↔ _
  simp [eq_comm]

/-- Counting does so. -/
theorem walk_modifyStats {f : Stats → Stats} {u : Unit} :
    modifyStats f s = .ok (u, s') ↔ s' = s.tally f := by
  change Except.ok ((), s.tally f) = .ok (u, s') ↔ _
  simp [eq_comm]

/-- A refusal is no success. -/
theorem walk_throw {e : Refusal} {r : α × State} : (throw e : Walk α) s = .ok r ↔ False :=
  ⟨nofun, nofun⟩

/-- A walk in a scope of its own keeps the record of what it did and nothing else. -/
theorem walk_inScope {scope inner : Scope} {x : Walk α} {a : α} :
    inScope scope x s = .ok ((a, inner), s') ↔
      ∃ s1, x ⟨scope, s.stats⟩ = .ok (a, s1) ∧ inner = s1.scope ∧ s' = ⟨s.scope, s1.stats⟩ := by
  simp only [inScope, walk_bind, walk_get, walk_modifyScope, walk_pure, Prod.mk.injEq]
  constructor
  · rintro ⟨_, _, ⟨rfl, rfl⟩, _, _, rfl, b, s1, hx, _, _, ⟨rfl, rfl⟩, _, _, rfl, ⟨rfl, rfl⟩, rfl⟩
    exact ⟨_, hx, rfl, rfl⟩
  · rintro ⟨s1, hx, rfl, rfl⟩
    exact ⟨_, _, ⟨rfl, rfl⟩, (), _, rfl, a, s1, hx, _, _, ⟨rfl, rfl⟩, (), _, rfl, ⟨rfl, rfl⟩, rfl⟩

end Steps

/-! ## Converted calls -/

/-- The temporaries that a tail call with walked arguments uses. -/
def callTemporaries (s : Scope) (arguments : List Tree) : List Text :=
  if needsTemporaries (changes s.params arguments) then
    temporariesOf s (changes s.params arguments)
  else []

/-- The assignments that take the place of a tail call with walked arguments. -/
def callAssignments (s : Scope) (arguments : List Tree) : List Tree :=
  if needsTemporaries (changes s.params arguments) then
    stagedAssignments (callTemporaries s arguments) (changes s.params arguments)
  else directAssignments (changes s.params arguments)

/-- The jump back to the start of the loop around a body. -/
def jumpBack (n : Naming) : Tree := Tree.new (.jump .continues (.identifier n.loop))

/-- A call is converted when it passes no more arguments than there are parameters. -/
theorem convertCall_ok {n : Naming} {l call : Option Location} {arguments : List Tree}
    {s s' : State} {t' : Tree} :
    convertCall n l call arguments s = .ok (t', s') ↔
      arguments.length ≤ s.scope.params.length ∧
      t' = .node l (.block (.tuple (callAssignments s.scope arguments ++ [jumpBack n]))) ∧
      s' = ⟨(callTemporaries s.scope arguments).foldl Scope.use s.scope.markTailRecursive,
        { s.stats with calls := s.stats.calls + 1 }⟩ := by
  simp only [convertCall, walk_bind, walk_get]
  constructor
  -- More arguments than parameters are refused before anything is changed.
  · rintro ⟨_, _, ⟨rfl, rfl⟩, h⟩
    split at h
    · rw [walk_bind] at h
      obtain ⟨_, _, h, _⟩ := h
      exact (walk_throw.mp h).elim
    · simp only [walk_bind, walk_modifyScope, walk_modifyStats, walk_pure] at h
      obtain ⟨_, _, rfl, _, _, rfl, rfl, rfl⟩ := h
      exact ⟨by omega, rfl, rfl⟩
  · rintro ⟨few, rfl, rfl⟩
    refine ⟨s, s, ⟨rfl, rfl⟩, ?_⟩
    rw [if_neg (by omega)]
    simp only [walk_bind, walk_modifyScope, walk_modifyStats, walk_pure]
    exact ⟨(), _, rfl, (), _, rfl, rfl, rfl⟩

/-! ## Finished bodies -/

/-- A tail recursive body is put into its loop. -/
theorem finishBody_loop {n : Naming} {s : Scope} (h : s.isTailRecursive = true) (ts : List Tree) :
    finishBody n s ts =
      .ok (s.directive.toList ++ Tree.declareAll s.locals ++
        (Tree.declareEach s.used [] ++ [loopAround n s.locals ts])) := by
  unfold finishBody
  rw [if_pos h]
  rfl

/-- Any other body only loses the resets at its start. -/
theorem finishBody_plain {n : Naming} {s : Scope} (h : s.isTailRecursive = false)
    {ts ts' : List Tree} :
    finishBody n s ts = .ok ts' ↔ ∃ rest, dropResets s.locals ts = .ok rest ∧
      ts' = s.directive.toList ++ Tree.declareAll s.locals ++ rest := by
  unfold finishBody
  rw [if_neg (by simp [h])]
  cases dropResets s.locals ts with
  | error e => exact ⟨nofun, nofun⟩
  | ok rest =>
    constructor
    · intro h
      cases h
      exact ⟨rest, rfl, rfl⟩
    · rintro ⟨_, h, rfl⟩
      cases h
      rfl

/-! ## Rows without blocks -/

/-- No tree of a row is a block. -/
def NoBlocks (ts : List Tree) : Prop := ∀ t ∈ ts, t.hasKind .blockStatement = false

/-- What takes the place of a tree in a row holds no block. -/
def Splices (t : Tree) : Prop := ∀ ts, t.spliced = .ok ts → NoBlocks ts

/-- A block has a body. -/
theorem eq_block {t : Tree} (h : t.hasKind .blockStatement = true) :
    ∃ l body, t = .node l (.block body) := by
  cases t with
  | node l shape =>
    cases shape with
    | block body => exact ⟨l, body, rfl⟩
    | function form => cases form <;> cases h
    | jump kind => cases kind <;> cases h
    | forEach domain => cases domain <;> cases h
    | _ => cases h
  | _ => cases h

/-- What is no block is put in a row as it is. -/
theorem spliced_of_hasKind {t : Tree} (h : t.hasKind .blockStatement = false) :
    t.spliced = .ok [t] := by
  cases t with
  | node l shape =>
    cases shape with
    | block body => cases h
    | _ => rfl
  | _ => rfl

/-- A row of one tree that is no block. -/
theorem noBlocks_singleton {t : Tree} (h : t.hasKind .blockStatement = false) : NoBlocks [t] := by
  intro u hu
  rw [List.mem_singleton.mp hu]
  exact h

/-- Rows without blocks, one after the other. -/
theorem NoBlocks.append {ts us : List Tree} (ht : NoBlocks ts) (hu : NoBlocks us) :
    NoBlocks (ts ++ us) := by
  intro t h
  rcases List.mem_append.mp h with h | h
  · exact ht t h
  · exact hu t h

/-- What is no block can be put in a row. -/
theorem splices_of_hasKind {t : Tree} (h : t.hasKind .blockStatement = false) : Splices t := by
  intro ts hs
  rw [spliced_of_hasKind h] at hs
  cases hs
  exact noBlocks_singleton h

/-- A block without blocks among its statements can be put in a row. -/
theorem splices_block {l : Option Location} {ts : List Tree} (h : NoBlocks ts) :
    Splices (.node l (.block (.tuple ts))) := by
  intro us hs
  cases hs
  exact h

/-- There are no blocks among assignments. -/
theorem noBlocks_assignAll (names : List Text) (values : List Tree) :
    NoBlocks (Tree.assignAll names values) := by
  intro t h
  obtain ⟨i, hi, rfl⟩ := List.mem_mapIdx.mp h
  rfl

/-- There are no blocks among the assignments of a converted call. -/
theorem noBlocks_callAssignments (s : Scope) (arguments : List Tree) :
    NoBlocks (callAssignments s arguments) := by
  unfold callAssignments
  split
  · exact (noBlocks_assignAll _ _).append (noBlocks_assignAll _ _)
  · exact noBlocks_assignAll _ _

/-- A row that holds no block is not unwrapped. -/
theorem unwrapBlock_tuple {ts : List Tree} (h : NoBlocks ts) :
    unwrapBlock (.tuple ts) = .ok (.tuple ts) := by
  match ts with
  | [] => rfl
  | [t] =>
    have ht := h t (List.mem_singleton_self t)
    cases t with
    | node l shape =>
      cases shape with
      | block body => cases ht
      | _ => rfl
    | _ => rfl
  | _ :: _ :: rest =>
    simp [unwrapBlock, Tree.length, Tree.items, Except.map, bind, Except.bind, pure, Except.pure]

/-- What an edit puts into a row holds no block. -/
def Edit.Flat : Edit → Prop
  | .statement _ t' => Splices t'
  | .returned _ _ t' => Splices t'
  | .branch _ t' => Splices t'
  | .statements _ ts' => NoBlocks ts'
  | .branchItems _ ts' => NoBlocks ts'
  | .expression _ e' => e'.isExpression = true
  | _ => True

/-- What a walk leaves in rows holds no blocks. -/
theorem Walks.flat {n : Naming} {s s' : State} {edit : Edit} (h : Walks n s edit s') :
    edit.Flat := by
  -- By induction on the walk: what is spliced into a list is spliced at once, so that no block is
  -- left.
  induction h with
  | returnCall own parts converted ih =>
    obtain ⟨_, rfl, _⟩ := convertCall_ok.mp converted
    apply splices_block
    exact (noBlocks_callAssignments _ _).append (noBlocks_singleton rfl)
  | branchValue single part ih => exact ih
  | branchSequence parts ih => exact splices_block ih
  | branchLast part spliced ih => exact ih _ spliced
  -- A branch with a list becomes a block.
  | branchMore more part parts _ ih => exact (noBlocks_singleton rfl).append ih
  | block parts ih => exact splices_block ih
  -- Statements are spliced one after the other.
  | returnStatement part ih => exact ih
  | noStatements => exact nofun
  | moreStatements part spliced parts ih ihs => exact (ih _ spliced).append ihs
  | returnNothing | returnConditional | returnValue | functionDeclaration | variableDeclaration
  | ifStatement | forStatement | whileStatement | doWhileStatement | expressionStatement
  | emptyStatement | labeled => exact splices_of_hasKind rfl
  | @bareJump _ _ kind => cases kind <;> exact splices_of_hasKind rfl
  | @jump _ _ kind => cases kind <;> exact splices_of_hasKind rfl
  | @forEach _ _ _ _ _ domain => cases domain <;> exact splices_of_hasKind rfl
  | @forEachDeclared _ _ _ _ domain => cases domain <;> exact splices_of_hasKind rfl
  | _ => first | exact rfl | exact trivial

/-! ## What a walk does to the scope -/

/-- A scope later in the same body: what it knows about the function is the same, what was found in
the body has grown. Only a scope that can call its function can become tail recursive. -/
structure Scope.Leads (a b : Scope) : Prop where
  name : b.name = a.name
  params : b.params = a.params
  temporaries : b.temporaries = a.temporaries
  locals : a.locals <+: b.locals
  used : a.used <+: b.used
  tail : a.isTailRecursive = true → b.isTailRecursive = true
  own : b.isTailRecursive = true → a.isTailRecursive = true ∨ a.name ≠ none

namespace Scope.Leads

variable {a b c : Scope}

/-- A scope leads to itself. -/
theorem refl (a : Scope) : a.Leads a :=
  ⟨rfl, rfl, rfl, List.prefix_rfl, List.prefix_rfl, id, .inl⟩

/-- What is found in two stretches is found in one. -/
theorem trans (h1 : a.Leads b) (h2 : b.Leads c) : a.Leads c where
  name := h2.name.trans h1.name
  params := h2.params.trans h1.params
  temporaries := h2.temporaries.trans h1.temporaries
  locals := h1.locals.trans h2.locals
  used := h1.used.trans h2.used
  tail h := h2.tail (h1.tail h)
  own h := by
    rcases h2.own h with h | h
    · exact h1.own h
    · exact .inr (h1.name ▸ h)

/-- A local is found. -/
theorem addLocal (a : Scope) (name : Text) : a.Leads (a.addLocal name) := by
  unfold Scope.addLocal
  split
  · exact refl a
  · exact { refl a with locals := List.prefix_append _ _ }

/-- A temporary is used. -/
theorem use (a : Scope) (name : Text) : a.Leads (a.use name) := by
  unfold Scope.use
  split
  · exact refl a
  · exact { refl a with used := List.prefix_append _ _ }

/-- Temporaries are used one after the other. -/
theorem useAll (names : List Text) (a : Scope) : a.Leads (names.foldl Scope.use a) := by
  induction names generalizing a with
  | nil => exact refl a
  | cons name names ih => exact (use a name).trans (ih _)

/-- A scope with a name can be marked as a loop. -/
theorem markTailRecursive (h : a.name ≠ none) : a.Leads a.markTailRecursive :=
  { refl a with tail := fun _ => rfl, own := fun _ => .inr h }

/-- A directive is noted. -/
theorem withDirective (a : Scope) (t : Option Tree) : a.Leads { a with directive := t } :=
  ⟨rfl, rfl, rfl, List.prefix_rfl, List.prefix_rfl, id, .inl⟩

end Scope.Leads

/-- A walk only adds to what is known about the body it is in. -/
theorem Walks.leads {n : Naming} {s s' : State} {edit : Edit} (h : Walks n s edit s') :
    s.scope.Leads s'.scope := by
  -- By induction on the walk: the scope is only led on by declarations, conversions and the
  -- directive.
  induction h with
  | identifier | literal | absent | noExpressions | returnNothing | emptyStatement | bareJump | jump
  | noAlternate | noStatements | noStart | noInitial | noDeclarators | body => exact .refl _
  | array _ ih | function _ _ ih | member _ _ ih | sequence _ ih | unary _ ih | update _ ih
  | present _ ih | returnValue _ _ ih | branchValue _ _ ih | branchSequence _ ih
  | branchLast _ _ ih | functionDeclaration _ _ ih | block _ ih | returnStatement _ ih
  | variableDeclaration _ ih | expressionStatement _ ih | labeled _ _ ih | alternate _ ih
  | startPlain _ _ ih | startExpression _ ih | startDeclaration _ ih | initial _ ih => exact ih
  | call _ _ ih1 ih2 | computedMember _ _ ih1 ih2 | assignment _ _ ih1 ih2 | binary _ _ ih1 ih2
  | logical _ _ ih1 ih2 | moreExpressions _ _ ih1 ih2 | branchMore _ _ _ ih1 ih2
  | whileStatement _ _ ih1 ih2 | doWhileStatement _ _ ih1 ih2 | moreStatements _ _ _ ih1 ih2 =>
    exact ih1.trans ih2
  | conditional _ _ _ ih1 ih2 ih3 | returnConditional _ _ _ ih1 ih2 ih3
  | ifStatement _ _ _ ih1 ih2 ih3 | forEach _ _ _ _ ih1 ih2 ih3 =>
    exact ih1.trans (ih2.trans ih3)
  | forStatement _ _ _ _ ih1 ih2 ih3 ih4 => exact ih1.trans (ih2.trans (ih3.trans ih4))
  | forEachDeclared _ _ _ ih1 ih2 => exact (Scope.Leads.addLocal _ _).trans (ih1.trans ih2)
  | moreDeclarators _ _ _ ih1 ih2 => exact (Scope.Leads.addLocal _ _).trans (ih1.trans ih2)
  | startStrict _ _ ih => exact (Scope.Leads.withDirective _ _).trans ih
  -- The call is one of the function itself, so that the function has a name.
  | returnCall own _ converted ih =>
    obtain ⟨_, _, rfl⟩ := convertCall_ok.mp converted
    have named := ih.name.trans own
    exact ih.trans ((Scope.Leads.markTailRecursive (by simp [named])).trans (.useAll _ _))

/-- A walk only adds to the list of functions that became loops. -/
theorem Walks.functions {n : Naming} {s s' : State} {edit : Edit} (h : Walks n s edit s') :
    s.stats.functions <+: s'.stats.functions := by
  -- By induction on the walk: counters are only added to, and a name is only appended.
  induction h with
  | identifier | literal | absent | noExpressions | returnNothing | emptyStatement | bareJump | jump
  | noAlternate | noStatements | noStart | noInitial | noDeclarators => exact List.prefix_rfl
  | array _ ih | function _ _ ih | member _ _ ih | sequence _ ih | unary _ ih | update _ ih
  | present _ ih | returnValue _ _ ih | branchValue _ _ ih | branchSequence _ ih
  | branchLast _ _ ih | functionDeclaration _ _ ih | block _ ih | returnStatement _ ih
  | variableDeclaration _ ih | expressionStatement _ ih | labeled _ _ ih | alternate _ ih
  | startPlain _ _ ih | startExpression _ ih | startDeclaration _ ih | initial _ ih
  | startStrict _ _ ih => exact ih
  | call _ _ ih1 ih2 | computedMember _ _ ih1 ih2 | assignment _ _ ih1 ih2 | binary _ _ ih1 ih2
  | logical _ _ ih1 ih2 | moreExpressions _ _ ih1 ih2 | branchMore _ _ _ ih1 ih2
  | whileStatement _ _ ih1 ih2 | doWhileStatement _ _ ih1 ih2 | moreStatements _ _ _ ih1 ih2
  | forEachDeclared _ _ _ ih1 ih2 | moreDeclarators _ _ _ ih1 ih2 => exact ih1.trans ih2
  | conditional _ _ _ ih1 ih2 ih3 | returnConditional _ _ _ ih1 ih2 ih3
  | ifStatement _ _ _ ih1 ih2 ih3 | forEach _ _ _ _ ih1 ih2 ih3 => exact ih1.trans (ih2.trans ih3)
  | forStatement _ _ _ _ ih1 ih2 ih3 ih4 => exact ih1.trans (ih2.trans (ih3.trans ih4))
  | returnCall _ _ converted ih =>
    obtain ⟨_, _, rfl⟩ := convertCall_ok.mp converted
    exact ih
  -- The function's own name is noted at the end, if it was converted.
  | body _ _ ih =>
    refine ih.trans ?_
    unfold Stats.addFunction
    split
    · exact List.prefix_append _ _
    · exact List.prefix_rfl

end TailLoop.Elimination
