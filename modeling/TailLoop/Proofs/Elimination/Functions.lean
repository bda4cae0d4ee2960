import Mathlib.Data.List.Forall2
import TailLoop.Proofs.Elimination.Measures

/-!
# Functions before and after elimination

Elimination neither adds nor drops a function, and keeps their order: the programs and functions of
a tree and of what takes its place correspond one by one (`Eliminates.scopes`). Any relation between
two functions that follows from a walk through the body carries over to all of them. Along the way
the names of each body are followed: what the body declared is declared by its statements, noted in
the scope or a parameter afterwards, and nothing else is (`Tracks.names`).
-/

namespace TailLoop

namespace Elimination

open Tree

/-- The own names of a block are those of its statements. -/
theorem ownNames_block (l : Option Location) (ss : List Tree) :
    (Tree.node l (.block (.tuple ss))).ownNames = ss.flatMap ownNames := by
  rw [ownNames_inert rfl, Shape.parts, Shape.children, List.map_singleton, List.flatMap_singleton,
    ownNames_tuple]

/-- What is looked through by each measure is looked through for names. -/
theorem isInert_of_isQuiet {shape : Shape Tree} (h : shape.isQuiet = true) :
    shape.isInert = true := by
  cases shape with
  | program | function | variableDeclarator => cases h
  | _ => rfl

/-- There are no names in plain data. -/
theorem ownNames_of_isPlain {t : Tree} (h : t.isPlain = true) : t.ownNames = [] := by
  cases t with
  | null | bool | int | num | text => rfl
  | _ => cases h

/-- The programs and functions of a tree. -/
def scopeMeasure : Measure Tree where
  of := scopes
  plain h := Validity.scopes_of_isPlain h
  row := scopes_tuple
  quiet h := scopes_inert (isInert_of_isQuiet h)

/-- The names that a tree declares in the scope that it stands in. -/
def nameMeasure : Measure Text where
  of := ownNames
  plain h := ownNames_of_isPlain h
  row := ownNames_tuple
  quiet h := ownNames_inert (isInert_of_isQuiet h)

/-- Two rows with the same functions and the same declared names. -/
structure Same (ts us : List Tree) : Prop where
  scopes : ts.flatMap scopes = us.flatMap scopes
  names : ts.flatMap ownNames = us.flatMap ownNames

namespace Same

variable {l : Option Location} {shape : Shape Tree} {ts us vs ws : List Tree}

/-- Rows have the functions of themselves. -/
theorem refl (ts : List Tree) : Same ts ts := ⟨rfl, rfl⟩

/-- Having the same functions goes both ways. -/
theorem symm (h : Same ts us) : Same us ts := ⟨h.scopes.symm, h.names.symm⟩

/-- Having the same functions carries over. -/
theorem trans (h : Same ts us) (h' : Same us vs) : Same ts vs :=
  ⟨h.scopes.trans h'.scopes, h.names.trans h'.names⟩

/-- Rows with the same functions, one after the other. -/
theorem append (h : Same ts us) (h' : Same vs ws) : Same (ts ++ vs) (us ++ ws) :=
  ⟨Measure.Same.append (μ := scopeMeasure) h.scopes h'.scopes,
    Measure.Same.append (μ := nameMeasure) h.names h'.names⟩

/-- What is the same to every measure holds the same functions and declared names. -/
theorem of_measures (h : ∀ {β : Type} (μ : Measure β), μ.Same ts us) : Same ts us :=
  ⟨h scopeMeasure, h nameMeasure⟩

/-- A node stands for its fields. -/
theorem node (h : shape.isInert = true) : Same [.node l shape] shape.parts := by
  constructor
  · rw [List.flatMap_singleton, scopes_inert h]
  · rw [List.flatMap_singleton, ownNames_inert h]

/-- A row stands for its items. -/
theorem row (ts : List Tree) : Same [.tuple ts] ts := of_measures fun _ => .row ts

/-- Trees without nodes hold no functions and declare nothing. -/
theorem atom {t : Tree} (h : t.isPlain = true) : Same [t] [] := of_measures fun _ => .atom h

/-- One tree and a row. -/
theorem cons {t : Tree} (h : Same [t] vs) (h' : Same ts us) : Same (t :: ts) (vs ++ us) :=
  append h h'

/-- A name has no functions in it. -/
theorem identifier {name : Text} : Same [.node l (.identifier (.text name))] [] :=
  of_measures fun _ => .identifier

/-- A literal has no functions in it. -/
theorem literal {value : Tree} (h : value.isPlain = true) : Same [.node l (.literal value)] [] :=
  of_measures fun _ => .literal h

/-- `undefined` has no functions in it. -/
theorem undefined : Same [Tree.undefined] [] := identifier

/-- Assignments hold what their values hold. -/
theorem assignAll (names : List Text) (values : List Tree) (h : values.length ≤ names.length) :
    Same (Tree.assignAll names values) values := of_measures fun _ => .assignAll names values h

/-- Resets that are dropped had no functions in them. -/
theorem dropResets {names : List Text} {ts rest : List Tree} (plain : ∀ t ∈ ts, PlainStatement t)
    (h : dropResets names ts = .ok rest) : Same ts rest := of_measures fun _ => .dropResets plain h

end Same

/-! ## Finished bodies -/

/-- Statements that hold no functions and declare the given names. -/
structure Announces (ts : List Tree) (names : List Text) : Prop where
  scopes : ts.flatMap scopes = []
  names : ts.flatMap ownNames = names

/-- What rows announce one after the other. -/
theorem Announces.append {ts us : List Tree} {xs ys : List Text} (h : Announces ts xs)
    (h' : Announces us ys) : Announces (ts ++ us) (xs ++ ys) := by
  constructor
  · rw [List.flatMap_append, h.scopes, h'.scopes]
    rfl
  · rw [List.flatMap_append, h.names, h'.names]

/-- What a row announces depends on its names and scopes alone. -/
theorem Announces.of_same {ts us : List Tree} {xs : List Text} (h : Announces us xs)
    (same : Same ts us) : Announces ts xs :=
  ⟨same.scopes.trans h.scopes, same.names.trans h.names⟩

/-- Bare declarators announce their names. -/
theorem announces_declarators (names : List Text) :
    Announces (names.map (Tree.declarator · .null)) names := by
  induction names with
  | nil => exact ⟨rfl, rfl⟩
  | cons name names ih =>
    have first : Announces [Tree.declarator name .null] [name] := by
      constructor
      · rw [List.flatMap_singleton, Tree.declarator, Tree.new, scopes_declarator]
        rfl
      · rw [List.flatMap_singleton, Tree.declarator, Tree.new, ownNames_declarator]
        rfl
    exact first.append ih

/-- A declaration of bare declarators announces their names. -/
theorem announces_declaration (names : List Text) :
    Announces [Tree.declaration (names.map (Tree.declarator · .null))] names := by
  refine (announces_declarators names).of_same ((Same.node rfl).trans ?_)
  have parts : Same [.tuple (names.map (Tree.declarator · .null)), .text varKind]
      (names.map (Tree.declarator · .null) ++ []) := Same.cons (Same.row _) (Same.atom rfl)
  rwa [List.append_nil] at parts

/-- One declaration of all names announces them. -/
theorem announces_declareAll (names : List Text) : Announces (Tree.declareAll names) names := by
  unfold Tree.declareAll
  split
  · rename_i empty
    rw [List.isEmpty_iff.mp empty]
    exact ⟨rfl, rfl⟩
  · exact announces_declaration names

/-- A declaration for each name announces them. -/
theorem announces_declareEach (names : List Text) :
    Announces (Tree.declareEach names []) names := by
  have each : Tree.declareEach names [] =
      names.map fun name => Tree.declaration [Tree.declarator name .null] :=
    List.ext_getElem (by simp [Tree.declareEach]) (by simp [Tree.declareEach])
  rw [each]
  clear each
  induction names with
  | nil => exact ⟨rfl, rfl⟩
  | cons name names ih => exact (announces_declaration [name]).append ih

/-- A directive has no functions in it. -/
theorem same_directive {directive : Option Tree}
    (h : ∀ t ∈ directive, t.isStrictDirective = true) : Same directive.toList [] := by
  cases directive with
  | none => exact .refl _
  | some t =>
    obtain ⟨l, le, rfl⟩ := eq_strictDirective (h t rfl)
    exact (Same.node rfl).trans (.literal rfl)

/-- The loop around statements has the functions of the statements. -/
theorem same_loopAround (n : Naming) (locals : List Text) (ts : List Tree) :
    Same [loopAround n locals ts] ts := by
  have resets : Same (Tree.assignAll locals [] ++ ts) ts :=
    Same.append (.assignAll locals [] (Nat.zero_le _)) (.refl ts)
  have ended : Same (endWithReturn (Tree.assignAll locals [] ++ ts)) ts := by
    unfold endWithReturn
    split
    · exact resets
    · have ending : Same [Tree.new (.returnStatement .null)] [] := (Same.node rfl).trans (.atom rfl)
      simpa using resets.append ending
  have block : Same [Tree.block (endWithReturn (Tree.assignAll locals [] ++ ts))] ts :=
    (Same.node rfl).trans ((Same.row _).trans ended)
  have loop : Same [Tree.new (.whileStatement (Tree.new (.literal (.bool true)))
      (Tree.block (endWithReturn (Tree.assignAll locals [] ++ ts))))] ts :=
    (Same.node rfl).trans (.cons (.literal rfl) block)
  exact (Same.node rfl).trans (.cons .identifier loop)

/-- A finished body holds the functions of its statements, and declares what they declare, the
variables of the scope, and its temporaries if it became a loop. -/
theorem scopes_finishBody {n : Naming} {s : Scope} {ts ts' : List Tree}
    (strict : ∀ t ∈ s.directive, t.isStrictDirective = true)
    (plain : ∀ t ∈ ts, PlainStatement t) (h : finishBody n s ts = .ok ts') :
    ts'.flatMap scopes = ts.flatMap scopes ∧
      ∀ x, x ∈ ts'.flatMap ownNames ↔ x ∈ s.locals ∨
        (s.isTailRecursive = true ∧ x ∈ s.used) ∨ x ∈ ts.flatMap ownNames := by
  -- What is put in front announces just the names that it declares.
  have locals := announces_declareAll s.locals
  have head : Announces (s.directive.toList ++ Tree.declareAll s.locals) s.locals :=
    locals.of_same (Same.append (same_directive strict) (.refl _))
  cases tail : s.isTailRecursive with
  | true =>
    -- The temporaries are declared in front of the loop.
    rw [finishBody_loop tail] at h
    cases h
    have loop := same_loopAround n s.locals ts
    have used := announces_declareEach s.used
    constructor
    · rw [List.flatMap_append, head.scopes, List.flatMap_append, used.scopes, loop.scopes]
      rfl
    · intro x
      rw [List.flatMap_append, head.names, List.flatMap_append, used.names, loop.names]
      simp
  | false =>
    -- Without a loop the resets in front of the body are dropped, which declare nothing.
    obtain ⟨rest, dropped, rfl⟩ := (finishBody_plain tail).mp h
    have kept := Same.dropResets plain dropped
    constructor
    · rw [List.flatMap_append, head.scopes, ← kept.scopes]
      rfl
    · intro x
      rw [List.flatMap_append, head.names, ← kept.names]
      simp

/-! ## Walks -/

/-- What takes the place of trees holds functions that are related to theirs one by one, and what
the trees declared is afterwards declared, noted in the scope or a parameter. -/
structure Tracks (R : Tree → Tree → Prop) (a b : Scope) (ts ts' : List Tree) : Prop where
  params : b.params = a.params
  scopes : List.Forall₂ R (ts.flatMap scopes) (ts'.flatMap scopes)
  names : ∀ x, x ∈ b.locals ∨ x ∈ ts'.flatMap ownNames ∨ x ∈ a.params ↔
    x ∈ a.locals ∨ x ∈ ts.flatMap ownNames ∨ x ∈ a.params

namespace Tracks

variable {R : Tree → Tree → Prop} {a b c : Scope} {ts ts' us us' : List Tree}
  {l l' : Option Location} {shape shape' : Shape Tree}

/-- Functions are tracked through rows that have the same ones. -/
theorem same (h : Tracks R a b us us') (source : Same ts us) (result : Same ts' us') :
    Tracks R a b ts ts' where
  params := h.params
  scopes := by
    rw [source.scopes, result.scopes]
    exact h.scopes
  names x := by
    rw [source.names, result.names]
    exact h.names x

/-- There is nothing to track in no statements. -/
theorem nil : Tracks R a a [] [] := ⟨rfl, .nil, fun _ => .rfl⟩

/-- Trees that hold no functions and declare nothing. -/
theorem blank (source : Same ts []) (result : Same ts' []) : Tracks R a a ts ts' :=
  nil.same source result

/-- There is nothing to track in plain data. -/
theorem atom {t : Tree} (h : t.isPlain = true) : Tracks R a a [t] [t] :=
  blank (.atom h) (.atom h)

/-- Functions are tracked through two rows, one after the other. -/
theorem append (h1 : Tracks R a b ts ts') (h2 : Tracks R b c us us') :
    Tracks R a c (ts ++ us) (ts' ++ us') where
  params := h2.params.trans h1.params
  scopes := by
    rw [List.flatMap_append, List.flatMap_append]
    exact List.rel_append h1.scopes h2.scopes
  names x := by
    have first := h1.names x
    have second := h2.names x
    rw [h1.params] at second
    rw [List.flatMap_append, List.flatMap_append, List.mem_append, List.mem_append]
    grind

/-- A row as one tree. -/
theorem row (h : Tracks R a b ts ts') : Tracks R a b [.tuple ts] [.tuple ts'] :=
  h.same (.row ts) (.row ts')

/-- A scope with the same parameters and variables is as good. -/
theorem rescope (h : Tracks R a b ts ts') (params : c.params = b.params)
    (locals : c.locals = b.locals) : Tracks R a c ts ts' :=
  ⟨params.trans h.params, h.scopes, locals ▸ h.names⟩

/-- A node that is looked through, in the source. -/
theorem source (h : Tracks R a b shape.parts ts') (inert : shape.isInert = true) :
    Tracks R a b [.node l shape] ts' :=
  h.same (.node inert) (.refl _)

/-- A node that is looked through, in the result. -/
theorem result (h : Tracks R a b ts shape.parts) (inert : shape.isInert = true) :
    Tracks R a b ts [.node l shape] :=
  h.same (.refl _) (.node inert)

/-- A node that is looked through, in both. -/
theorem node (h : Tracks R a b shape.parts shape'.parts) (inert : shape.isInert = true)
    (inert' : shape'.isInert = true) : Tracks R a b [.node l shape] [.node l' shape'] :=
  h.same (.node inert) (.node inert')

/-- There is nothing to track in a name. -/
theorem identifier {x : Text} :
    Tracks R a a [.node l (.identifier (.text x))] [.node l (.identifier (.text x))] :=
  blank .identifier .identifier

/-- A declaration, from its declarators. -/
theorem declaration (h : Tracks R a b ts ts') (kind : Text) :
    Tracks R a b [.node l (.variableDeclaration (.tuple ts) (.text kind))] ts' := by
  have parts : Tracks R a b [.tuple ts, .text kind] (ts' ++ []) :=
    .append (h.same (.row ts) (.refl _)) (.blank (.atom rfl) (.refl _))
  rw [List.append_nil] at parts
  exact source parts rfl

/-- A sequence of what takes the place of trees. -/
theorem sequence (h : Tracks R a b ts ts') : Tracks R a b ts [Tree.new (.sequence (.tuple ts'))] :=
  result (h.same (.refl _) (.row ts')) rfl

/-- A declarator with what is assigned in its place. -/
theorem declarator {li : Option Location} {x : Text} {init init' : Tree} {op : Text}
    (h : Tracks R (a.addLocal x) b [init] [init']) :
    Tracks R a b [.node l (.variableDeclarator (.node li (.identifier (.text x))) init)]
      [.node l' (.assignment (.text op) (.node li (.identifier (.text x))) init')] where
  params := h.params.trans (params_addLocal a x)
  scopes := by
    -- The assignment in place of the declarator reads its name and its value.
    have result : Same [.node l' (.assignment (.text op) (.node li (.identifier (.text x))) init')]
        [init'] := (Same.node rfl).trans (.cons (.atom rfl) (.cons .identifier (.refl _)))
    rw [result.scopes, List.flatMap_singleton, scopes_declarator]
    have name : (Tree.node li (.identifier (.text x))).scopes = [] := rfl
    rw [name, List.nil_append, ← List.flatMap_singleton Tree.scopes init]
    exact h.scopes
  -- The name moves from the tree into the scope's locals.
  names y := by
    have result : Same [.node l' (.assignment (.text op) (.node li (.identifier (.text x))) init')]
        [init'] := (Same.node rfl).trans (.cons (.atom rfl) (.cons .identifier (.refl _)))
    have inner := h.names y
    rw [params_addLocal, mem_addLocal] at inner
    rw [result.names, List.flatMap_singleton Tree.ownNames (.node l _), ownNames_declarator]
    have name : (Tree.node li (.identifier (.text x))).ownNames = [] := rfl
    have declared : (Tree.node li (.identifier (.text x))).nameText? = some x := rfl
    rw [name, declared]
    simp only [List.flatMap_singleton, Option.toList, List.nil_append, List.cons_append,
      List.mem_cons] at inner ⊢
    tauto

/-- The head of a loop over a collection that declares its variable. -/
theorem loopVariable {ld li : Option Location} {x kind : Text} :
    Tracks R a (a.addLocal x)
      [.node l (.variableDeclaration
        (.tuple [.node ld (.variableDeclarator (.node li (.identifier (.text x))) .null)])
        (.text kind))]
      [.node li (.identifier (.text x))] := by
  have declarator : Tracks R a (a.addLocal x)
      [.node ld (.variableDeclarator (.node li (.identifier (.text x))) .null)]
      [.node ld (.assignment (.text plainAssignment) (.node li (.identifier (.text x))) .null)] :=
    .declarator (.atom rfl)
  have assigned : Same
      [.node ld (.assignment (.text plainAssignment) (.node li (.identifier (.text x))) .null)] [] :=
    (Same.node rfl).trans (.cons (.atom rfl) (.cons .identifier (.atom rfl)))
  exact (declarator.declaration kind).same (.refl _) (Same.identifier.trans assigned.symm)

end Tracks

/-- A body with what takes its place: its statements are walked, then put together. -/
inductive Finishes (n : Naming) (R : Tree → Tree → Prop) (a : Scope) (ss ss' : List Tree) : Prop
  | mk {stats : Stats} {s1 : State} {ss1 : List Tree}
      (starts : Walks n ⟨a, stats⟩ (.start ss ss1) s1) (tracks : Tracks R a s1.scope ss ss1)
      (finished : finishBody n s1.scope ss1 = .ok ss')

/-- What an edit does to functions and names. -/
def Edit.Tracked (n : Naming) (R : Tree → Tree → Prop) (a b : Scope) : Edit → Prop
  | .body scope ss ss' => b = a ∧ Finishes n R scope ss ss'
  | edit => Tracks R a b edit.before edit.after

section Walks

variable {n : Naming} {R : Tree → Tree → Prop}

/-- The functions of a body correspond to those of what takes its place. -/
theorem Finishes.scopes {a : Scope} {ss ss' : List Tree} (h : Finishes n R a ss ss')
    (fresh : a.directive = none) : List.Forall₂ R (ss.flatMap scopes) (ss'.flatMap scopes) := by
  obtain @⟨stats, s1, ss1, starts, tracks, finished⟩ := h
  rw [(scopes_finishBody (strict_of_start starts fresh) starts.plain finished).1]
  exact tracks.scopes

/-- A function with what takes its place. -/
theorem Tracks.function {a : Scope} {l : Option Location} {form : FunctionForm} {id : Tree}
    {ps : List Tree} {lb : Option Location} {ss ss' : List Tree} {scope : Scope}
    (starts : scope.Starts n ps) (inner : Finishes n R scope ss ss')
    (related : R (.node l (.function form id (.tuple ps) (.node lb (.block (.tuple ss)))))
      (.node l (.function form id (.tuple ps) (.node lb (.block (.tuple ss')))))) :
    Tracks R a a
      [.node l (.function form id (.tuple ps) (.node lb (.block (.tuple ss))))]
      [.node l (.function form id (.tuple ps) (.node lb (.block (.tuple ss'))))] where
  params := rfl
  scopes := by
    rw [List.flatMap_singleton, List.flatMap_singleton, scopes_function, scopes_function]
    exact .cons related (inner.scopes starts.directive)
  names x := by
    cases form <;> exact .rfl

/-- A relation between functions that follows from what a walk does to their bodies. -/
def FollowsFromWalks (n : Naming) (R : Tree → Tree → Prop) : Prop :=
  ∀ {l form id ps lb ss ss' scope}, scope.Starts n ps → Finishes n R scope ss ss' →
    R (.node l (.function form id (.tuple ps) (.node lb (.block (.tuple ss)))))
      (.node l (.function form id (.tuple ps) (.node lb (.block (.tuple ss')))))

/-- What a statement is spliced into has the functions of the statement. -/
theorem same_spliced {t' : Tree} {ts : List Tree}
    (rows : ∀ l body, t' = .node l (.block body) → ∃ ss, body = .tuple ss)
    (spliced : t'.spliced = .ok ts) : Same ts [t'] :=
  .of_measures fun _ => .spliced rows spliced

/-- A call that is converted. -/
theorem Tracks.converted {a : Scope} {s0 s s' : State} {args args' : List Tree} {t' : Tree}
    {l lc lf : Option Location} {name : Text} (parts : Walks n s0 (.expressions args args') s)
    (h : Tracks R a s.scope args args') (converted : convertCall n l lc args' s = .ok (t', s')) :
    Tracks R a s'.scope
      [.node lc (.call (.node lf (.identifier (.text name))) (.tuple args))] [t'] := by
  obtain ⟨few, rfl, rfl⟩ := convertCall_ok.mp converted
  have source : Same [.node lc (.call (.node lf (.identifier (.text name))) (.tuple args))] args :=
    (Same.node rfl).trans (.cons .identifier (.row args))
  have assigned : Same (callAssignments s.scope args') args' :=
    .of_measures fun _ => .callAssignments few (Measure.Same.constants parts)
  have jump : Same [jumpBack n] [] := (Same.node rfl).trans .identifier
  have result : Same
      [.node l (.block (.tuple (callAssignments s.scope args' ++ [jumpBack n])))] args' := by
    refine (Same.node rfl).trans ((Same.row _).trans ?_)
    simpa using assigned.append jump
  exact (h.same source result).rescope (Scope.Leads.useAll _ _).params (locals_useAll _ _)

/-- A walk relates functions one by one and follows the names of the body. -/
theorem Walks.tracked (follows : FollowsFromWalks n R) {s s' : State} {edit : Edit}
    (h : Walks n s edit s') : edit.Tracked n R s.scope s'.scope := by
  -- By induction on the walk: names and functions are found in the parts, and only declarations
  -- move them.
  induction h with
  | identifier => exact Tracks.identifier
  | literal plain => exact .blank (.literal plain) (.literal plain)
  | array _ ih | sequence _ ih => exact .node (.row ih) rfl rfl
  -- An inner function is a scope of its own, so that what follows from its walk is recorded.
  | function starts _ ih | functionDeclaration starts _ ih =>
    obtain ⟨same, inner⟩ := ih
    rw [same]
    exact .function (starts_ofFunction starts) inner (follows (starts_ofFunction starts) inner)
  | call _ _ ih1 ih2 => exact .node (.append ih1 (.row ih2)) rfl rfl
  | member _ name ih =>
    cases name with
    | mk _ spelled => exact .node (.append ih (.append .identifier (.atom rfl))) rfl rfl
  | computedMember _ _ ih1 ih2 => exact .node (.append ih1 (.append ih2 (.atom rfl))) rfl rfl
  | conditional _ _ _ ih1 ih2 ih3 | returnConditional _ _ _ ih1 ih2 ih3
  | ifStatement _ _ _ ih1 ih2 ih3 => exact .node (.append ih1 (.append ih2 ih3)) rfl rfl
  | assignment _ _ ih1 ih2 | binary _ _ ih1 ih2 | logical _ _ ih1 ih2 =>
    exact .node (.append (.atom rfl) (.append ih1 ih2)) rfl rfl
  | unary _ ih | update _ ih =>
    exact .node (.append (.atom rfl) (.append ih (.atom rfl))) rfl rfl
  | absent | noAlternate | noStart => exact Tracks.atom rfl
  | present _ ih | branchValue _ _ ih | alternate _ ih | startPlain _ _ ih | startExpression _ ih
  | initial _ ih => exact ih
  | noExpressions | noStatements | noDeclarators => exact Tracks.nil
  | moreExpressions _ _ ih1 ih2 => exact Tracks.append ih1 ih2
  | returnNothing => exact (Tracks.atom rfl).result rfl
  -- What the call leaves are assignments of the arguments and a jump.
  | returnCall _ parts converted ih => exact Tracks.converted parts ih converted
  | returnValue _ _ ih => exact Tracks.result ih rfl
  | branchSequence _ ih => exact .node (.row ih) rfl rfl
  | branchLast part spliced ih =>
    exact Tracks.same ih (.refl _) (same_spliced (row_of_returned part) spliced)
  | @branchMore s s1 s' e e' es ts _ _ _ ih1 ih2 =>
    have first : Tracks R s.scope s1.scope [e] [.node e.location? (.expressionStatement e')] :=
      .result ih1 rfl
    exact first.append ih2
  | block _ ih => exact .node (.row ih) rfl rfl
  | returnStatement _ ih => exact Tracks.source ih rfl
  | variableDeclaration _ ih => exact ((Tracks.declaration ih varKind).sequence).result rfl
  | forStatement _ _ _ _ ih1 ih2 ih3 ih4 =>
    exact .node (.append ih1 (.append ih2 (.append ih3 ih4))) rfl rfl
  | forEachDeclared _ _ _ ih1 ih2 =>
    exact .node (.append .loopVariable (.append ih1 ih2)) rfl rfl
  | forEach _ _ _ _ ih1 ih2 ih3 => exact .node (.append ih1 (.append ih2 ih3)) rfl rfl
  | whileStatement _ _ ih1 ih2 | doWhileStatement _ _ ih1 ih2 =>
    exact .node (.append ih1 ih2) rfl rfl
  | expressionStatement _ ih => exact .node ih rfl rfl
  | emptyStatement => exact .node .nil rfl rfl
  | bareJump => exact .node (.atom rfl) rfl rfl
  | jump => exact .node .identifier rfl rfl
  | labeled _ _ ih => exact .node (.append .identifier ih) rfl rfl
  | moreStatements part spliced _ ih1 ih2 =>
    exact Tracks.append (.same ih1 (.refl _) (same_spliced (row_of_statement part) spliced)) ih2
  -- The directive is neither a declaration nor a function, and it is put aside.
  | @startStrict s s' t ts ts' strict _ ih =>
    have blank : Same [t] [] := by
      obtain ⟨l, le, rfl⟩ := eq_strictDirective strict
      exact (Same.node rfl).trans (.literal rfl)
    have directive : Tracks R s.scope { s.scope with directive := some t } [t] [] :=
      (Tracks.blank blank (.refl _)).rescope rfl rfl
    exact directive.append ih
  | startDeclaration _ ih => exact (Tracks.declaration ih varKind).sequence
  | noInitial => exact .blank (.atom rfl) .undefined
  | moreDeclarators _ _ _ ih1 ih2 => exact Tracks.append (.declarator ih1) ih2
  | body starts finished ih => exact ⟨rfl, .mk starts ih finished⟩

/-- A program and all its functions correspond to those after elimination. A program has the scope of
a function without parameters. -/
theorem Eliminates.scopes (follows : FollowsFromWalks n R)
    (program : ∀ {l ss ss' scope}, scope.Starts n [] → Finishes n R scope ss ss' →
      R (.node l (.program (.tuple ss))) (.node l (.program (.tuple ss'))))
    {l : Option Location} {ss : List Tree} {t' : Tree} {stats : Stats}
    (h : Eliminates n (.node l (.program (.tuple ss))) t' stats) :
    List.Forall₂ R (Tree.node l (.program (.tuple ss))).scopes t'.scopes := by
  cases h with
  | expression kind => cases kind
  | statement kind => cases kind
  | @program _ _ ss1 ss' startsStrict s' starts finished =>
    have begins : Scope.Starts n [] { startsStrict } := ⟨rfl, rfl, rfl, rfl, rfl, rfl⟩
    have inner : Finishes n R _ ss ss' := .mk starts (starts.tracked follows) finished
    rw [scopes_program, scopes_program]
    exact .cons (program begins inner) (inner.scopes rfl)

end Walks

end Elimination

end TailLoop
