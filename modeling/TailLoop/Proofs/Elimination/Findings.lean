import Mathlib.Data.List.Induction
import TailLoop.Proofs.Elimination.OwnNodes

/-!
# What a walk finds in a body

The scope at the end of a walk, said in terms of the body it went through (`ends_of_start`): its
variables are those that the body declares, in the order of their first declaration and without the
parameters; the temporaries in use are those that the calls of the own function need whose value the
body returns, in the order of first use; the body is tail recursive if there is such a call, and none
of these calls has more arguments than there are parameters.

What counts as a returned call depends on where a tree stands (`Edit.calls`). The arguments of a call
are walked before it is converted, but this changes nothing about the temporaries that it needs
(`callTemporaries_alike`).
-/

namespace TailLoop.Elimination

open Tree

/-! ## Temporaries of walked arguments -/

/-- Two values that a converted call treats alike. -/
structure Alike (e e' : Tree) : Prop where
  identifier : ∀ x, isIdentifier x e = isIdentifier x e'
  constant : isConstant e = isConstant e'

/-- An expression is like itself. -/
theorem Alike.refl (e : Tree) : Alike e e := ⟨fun _ => rfl, rfl⟩

/-- What a walk makes of an expression is like it. -/
theorem alike_of_walks {n : Naming} {s s' : State} {e e' : Tree}
    (h : Walks n s (.expression e e') s') : Alike e e' := by
  cases h with
  | identifier => exact .refl _
  | literal => exact .refl _
  | _ => exact ⟨fun _ => rfl, rfl⟩

/-- What walks make of expressions in a row is like them, one by one. -/
theorem alike_of_expressions {n : Naming} {s s' : State} {es es' : List Tree}
    (h : Walks n s (.expressions es es') s') : List.Forall₂ Alike es es' := by
  induction es generalizing s es' with
  | nil =>
    cases h
    exact .nil
  | cons e es ih =>
    cases h with
    | moreExpressions part parts => exact .cons (alike_of_walks part) (ih parts)

/-- What decides about temporaries: the positions of the changed parameters, and which of the new
values are constants. -/
def Change.key (c : Change) : Nat × Bool := (c.index, isConstant c.value)

/-- Whether temporaries are needed depends on the keys of the changes alone. -/
theorem needsTemporaries_eq {cs cs' : List Change} (h : cs.map Change.key = cs'.map Change.key) :
    needsTemporaries cs = needsTemporaries cs' := by
  have length : cs.length = cs'.length := by
    have := congrArg List.length h
    rwa [List.length_map, List.length_map] at this
  have constant (cs : List Change) : (cs.dropLast.all fun c => isConstant c.value) =
      (cs.map Change.key).dropLast.all Prod.snd := by
    rw [← List.map_dropLast, List.all_map]
    rfl
  rw [needsTemporaries, needsTemporaries, length, constant, constant, h]

/-- The temporaries of changes are found by their keys. -/
theorem temporariesOf_key (a : Scope) (cs : List Change) : temporariesOf a cs =
    (cs.map Change.key).map fun k => a.temporaries[k.1]?.getD [] := by
  rw [temporariesOf, List.map_map]
  rfl

/-- Filters by what is changed keep changes whose keys agree. -/
theorem filter_keys {α : Type} {f g : α → Change} {as : List α}
    (h : ∀ a ∈ as, (f a).key = (g a).key ∧
      isIdentifier (f a).param (f a).value = isIdentifier (g a).param (g a).value) :
    ((as.map f).filter fun c => !isIdentifier c.param c.value).map Change.key =
      ((as.map g).filter fun c => !isIdentifier c.param c.value).map Change.key := by
  induction as with
  | nil => rfl
  | cons a as ih =>
    rw [List.forall_mem_cons] at h
    obtain ⟨⟨key, kept⟩, rest⟩ := h
    rw [List.map_cons, List.map_cons, List.filter_cons, List.filter_cons, kept]
    split
    · rw [List.map_cons, List.map_cons, key, ih rest]
    · exact ih rest

/-- Missing arguments are alike as well. -/
theorem alike_getD {args args' : List Tree} (h : List.Forall₂ Alike args args') (i : Nat) :
    Alike (args[i]?.getD .undefined) (args'[i]?.getD .undefined) := by
  induction h generalizing i with
  | nil => exact .refl _
  | cons first _ ih =>
    cases i with
    | zero => exact first
    | succ i => exact ih i

/-- The keys of the changes are those of arguments that are alike. -/
theorem changes_key (params : List Text) {args args' : List Tree}
    (h : List.Forall₂ Alike args args') :
    (changes params args).map Change.key = (changes params args').map Change.key := by
  have value := alike_getD h
  unfold changes
  rw [List.mapIdx_eq_zipIdx_map, List.mapIdx_eq_zipIdx_map]
  refine filter_keys fun a _ => ⟨?_, (value a.2).identifier _⟩
  exact Prod.ext rfl (value a.2).constant

/-- Arguments that are alike need the same temporaries. -/
theorem callTemporaries_alike (a : Scope) {args args' : List Tree}
    (h : List.Forall₂ Alike args args') : callTemporaries a args = callTemporaries a args' := by
  have keys := changes_key a.params h
  rw [callTemporaries, callTemporaries, needsTemporaries_eq keys, temporariesOf_key,
    temporariesOf_key, keys]

/-! ## Measures of a scope -/

/-- A node that is looked through is no function. -/
theorem isFunction_of_isQuiet {l : Option Location} {shape : Shape Tree}
    (h : shape.isQuiet = true) : (Tree.node l shape).isFunction = false := by
  cases shape with
  | function => cases h
  | _ => rfl

/-- The calls handed on in a row are those of its items. -/
theorem handedOn_tuple (ts : List Tree) : (Tree.tuple ts).handedOn = ts.flatMap handedOn := by
  rw [handedOn, ownNodes_tuple, List.flatMap_assoc]
  rfl

/-- The calls handed on in a node are those that it returns and those of its parts. -/
theorem handedOn_node {l : Option Location} {shape : Shape Tree}
    (h : (Tree.node l shape).isFunction = false) :
    (Tree.node l shape).handedOn =
      returnedCalls (.node l shape) ++ shape.parts.flatMap handedOn := by
  rw [handedOn, ownNodes_node h, List.flatMap_cons, List.flatMap_assoc]
  rfl

/-- No call is handed on out of a function. -/
theorem handedOn_function (l : Option Location) (form : FunctionForm) (id params body : Tree) :
    (Tree.node l (.function form id params body)).handedOn = [] := by
  rw [handedOn, ownNodes_function rfl]
  rfl

/-- The returned calls of a scope. -/
def handedMeasure : Measure Tree where
  of := handedOn
  plain h := by rw [handedOn, ownNodes_of_isPlain h, List.flatMap_nil]
  row := handedOn_tuple
  quiet {l shape} h := by
    have none : returnedCalls (.node l shape) = [] := by
      cases shape with
      | returnStatement => cases h
      | _ => rfl
    rw [handedOn_node (isFunction_of_isQuiet h), none, List.nil_append]

/-- The variables of a scope. -/
def varMeasure : Measure Text where
  of := ownVars
  plain h := by rw [ownVars, ownNodes_of_isPlain h, List.filterMap_nil]
  row := ownVars_tuple
  quiet {l shape} h := by
    have none : declaratorName? (.node l shape) = none := by
      cases shape with
      | variableDeclarator => cases h
      | _ => rfl
    rw [ownVars_node (isFunction_of_isQuiet h), none, Option.toList_none, List.nil_append]

section Declarations

variable {l li : Option Location} {x : Text} {init : Tree} {ds : List Tree}

/-- A declaration hands on what its declarators do. -/
theorem handed_declaration :
    handedMeasure.Same [.node l (.variableDeclaration (.tuple ds) (.text varKind))] ds := by
  have parts : handedMeasure.Same [.tuple ds, .text varKind] (ds ++ []) := .cons (.row ds) (.atom rfl)
  rw [List.append_nil] at parts
  exact (List.flatMap_singleton handedOn _).trans ((handedOn_node rfl).trans parts)

/-- A declarator hands on what its initial value does. -/
theorem handed_declarator :
    handedMeasure.Same [.node l (.variableDeclarator (.node li (.identifier (.text x))) init)]
      [init] := by
  have parts : handedMeasure.Same [.node li (.identifier (.text x)), init] [init] :=
    .cons .identifier (.refl _)
  exact (List.flatMap_singleton handedOn _).trans ((handedOn_node rfl).trans parts)

/-- A declarator declares its name, and what its initial value declares. -/
theorem ownVars_declarator :
    (Tree.node l (.variableDeclarator (.node li (.identifier (.text x))) init)).ownVars =
      x :: init.ownVars := by
  have parts : varMeasure.Same [.node li (.identifier (.text x)), init] [init] :=
    .cons .identifier (.refl _)
  rw [ownVars_node rfl]
  exact congrArg (x :: ·) (Eq.trans parts (List.flatMap_singleton ownVars init))

end Declarations

/-! ## Expressions return nothing -/

/-- The expressions of an edit hold no `return`. -/
def Edit.Calm : Edit → Prop
  | .statement .. | .optionalStatement .. | .statements .. | .start .. | .body .. => True
  | edit => handedMeasure.Same edit.before []

/-- A `return` is a statement: outside of nested functions, expressions hold none. -/
theorem Walks.calm {n : Naming} {s s' : State} {edit : Edit} (h : Walks n s edit s') :
    edit.Calm := by
  -- By induction on the walk of expressions: what is handed on is what the parts hand on, in their
  -- order.
  induction h with
  | identifier => exact .identifier
  | literal plain => exact .literal plain
  | array _ ih | sequence _ ih | branchSequence _ ih =>
    exact (Measure.Same.node rfl).trans ((Measure.Same.row _).trans ih)
  -- A function is handed on as a whole.
  | function => exact (List.flatMap_singleton handedOn _).trans (handedOn_function ..)
  | call _ _ ih1 ih2 =>
    exact (Measure.Same.node rfl).trans (.cons ih1 ((Measure.Same.row _).trans ih2))
  | member _ name ih =>
    obtain ⟨li, spelled⟩ := name
    exact (Measure.Same.node rfl).trans (.cons ih (.cons .identifier (.atom rfl)))
  | computedMember _ _ ih1 ih2 =>
    exact (Measure.Same.node rfl).trans (.cons ih1 (.cons ih2 (.atom rfl)))
  | conditional _ _ _ ih1 ih2 ih3 | returnConditional _ _ _ ih1 ih2 ih3 =>
    exact (Measure.Same.node rfl).trans (.cons ih1 (.cons ih2 ih3))
  | assignment _ _ ih1 ih2 | binary _ _ ih1 ih2 | logical _ _ ih1 ih2 =>
    exact (Measure.Same.node rfl).trans (.cons (.atom rfl) (.cons ih1 ih2))
  | unary _ ih | update _ ih =>
    exact (Measure.Same.node rfl).trans (.cons (.atom rfl) (.cons ih (.atom rfl)))
  | absent | noStart | noInitial | returnNothing => exact .atom rfl
  -- The rewritten parts are in the places of the parts.
  | noExpressions | noDeclarators => exact .refl _
  | present _ ih | returnValue _ _ ih | branchValue _ _ ih | branchLast _ _ ih
  | startExpression _ ih | initial _ ih => exact ih
  | moreExpressions _ _ ih1 ih2 | branchMore _ _ _ ih1 ih2 => exact Measure.Same.cons ih1 ih2
  | returnCall _ _ _ ih =>
    exact (Measure.Same.node rfl).trans (.cons .identifier ((Measure.Same.row _).trans ih))
  | startDeclaration _ ih => exact handed_declaration.trans ih
  | moreDeclarators _ _ _ ih1 ih2 => exact Measure.Same.cons (handed_declarator.trans ih1) ih2
  | _ => trivial

/-! ## What is found -/

/-- The names in the order of their first occurrence, without the parameters. -/
def freshNames (params names : List Text) : List Text :=
  (names.filter fun x => !params.contains x).eraseDups

/-- The first occurrences, as a name is added at the end. -/
theorem eraseDups_concat (names : List Text) (x : Text) : (names ++ [x]).eraseDups =
    if x ∈ names then names.eraseDups else names.eraseDups ++ [x] := by
  rw [List.eraseDups_append]
  by_cases known : x ∈ names
  · simp [List.removeAll, known]
  · simp [List.removeAll, known, List.eraseDups_cons]

/-- The first occurrences are distinct. -/
theorem nodup_eraseDups (names : List Text) : names.eraseDups.Nodup := by
  induction names using List.reverseRecOn with
  | nil => exact List.nodup_nil
  | append_singleton names x ih =>
    rw [eraseDups_concat]
    split
    · exact ih
    · rename_i new
      refine List.nodup_append.mpr ⟨ih, List.nodup_cons.mpr ⟨nofun, List.nodup_nil⟩, ?_⟩
      rintro y known z hz rfl
      rw [List.mem_singleton.mp hz] at known
      exact new (List.mem_eraseDups.mp known)

/-- The names that are new to a scope, as a name is added at the end. -/
theorem freshNames_concat (params names : List Text) (x : Text) :
    freshNames params (names ++ [x]) =
      if x ∈ params ∨ x ∈ freshNames params names then freshNames params names
      else freshNames params names ++ [x] := by
  unfold freshNames
  rw [List.filter_append]
  by_cases param : x ∈ params
  · simp [param]
  · have single : [x].filter (fun x => !params.contains x) = [x] := by simp [param]
    rw [single, eraseDups_concat]
    simp only [List.mem_eraseDups, param, false_or]

/-- What a walk finds in the scope between two states: variables that are declared, and calls whose
value is returned. Those of them that call the own function are converted. -/
structure Scope.Finds (a b : Scope) (vars : List Text) (calls : List Tree) : Prop where
  name : b.name = a.name
  params : b.params = a.params
  temporaries : b.temporaries = a.temporaries
  locals : ∀ names, a.locals = freshNames a.params names →
    b.locals = freshNames a.params (names ++ vars)
  used : ∀ names, a.used = names.eraseDups →
    b.used = (names ++ (calls.filterMap (argumentsOf? a.name)).flatMap (callTemporaries a)).eraseDups
  tail : b.isTailRecursive = (a.isTailRecursive || !(calls.filterMap (argumentsOf? a.name)).isEmpty)
  few : ∀ args ∈ calls.filterMap (argumentsOf? a.name), args.length ≤ a.params.length

namespace Scope.Finds

variable {a b c : Scope} {vars vars' : List Text} {calls calls' : List Tree}

/-- Nothing is found where nothing happens. -/
theorem refl (a : Scope) : a.Finds a [] [] where
  name := rfl
  params := rfl
  temporaries := rfl
  locals names h := by rwa [List.append_nil]
  used names h := by simpa using h
  tail := by simp
  few := nofun

/-- A directive declares no variable and calls nothing. -/
theorem withDirective (a : Scope) (t : Option Tree) : a.Finds { a with directive := t } [] [] :=
  { refl a with }

/-- The temporaries of a call depend on what stays the same throughout a body. -/
theorem callTemporaries (h : a.Finds b vars calls) :
    Elimination.callTemporaries b = Elimination.callTemporaries a := by
  funext args
  unfold Elimination.callTemporaries temporariesOf
  rw [h.params, h.temporaries]

/-- What is found in two stretches is found in order. -/
theorem trans (h1 : a.Finds b vars calls) (h2 : b.Finds c vars' calls') :
    a.Finds c (vars ++ vars') (calls ++ calls') where
  name := h2.name.trans h1.name
  params := h2.params.trans h1.params
  temporaries := h2.temporaries.trans h1.temporaries
  locals names h := by
    -- Names found later are added to those that are known by then.
    have first := h1.locals names h
    rw [← h1.params] at first
    have second := h2.locals _ first
    rwa [h1.params, List.append_assoc] at second
  used names h := by
    have second := h2.used _ (h1.used names h)
    rwa [h1.callTemporaries, h1.name, List.append_assoc, ← List.flatMap_append,
      ← List.filterMap_append] at second
  tail := by
    rw [h2.tail, h1.tail, h1.name, List.filterMap_append, Bool.or_assoc]
    cases calls.filterMap (argumentsOf? a.name) <;> rfl
  few := by
    rw [List.filterMap_append]
    have second := h2.few
    rw [h1.name, h1.params] at second
    exact List.forall_mem_append.mpr ⟨h1.few, second⟩

/-- A local that is added is found. -/
theorem addLocal (a : Scope) (x : Text) : a.Finds (a.addLocal x) [x] [] where
  name := (Leads.addLocal a x).name
  params := (Leads.addLocal a x).params
  temporaries := (Leads.addLocal a x).temporaries
  locals names h := by
    -- A name that is known already is not added again.
    rw [freshNames_concat, ← h, Scope.addLocal]
    simp only [Bool.or_eq_true, List.contains_iff_mem]
    split <;> rfl
  used names h := by
    have same : (a.addLocal x).used = a.used := by
      unfold Scope.addLocal
      split <;> rfl
    rw [same]
    simpa using h
  tail := by
    unfold Scope.addLocal
    split <;> simp
  few := nofun

/-- Temporaries come in the order of their first use. -/
theorem used_useAll {names : List Text} (h : a.used = names.eraseDups) (ts : List Text) :
    (ts.foldl Scope.use a).used = (names ++ ts).eraseDups := by
  induction ts generalizing a names with
  | nil => simpa using h
  | cons t ts ih =>
    have one : (a.use t).used = (names ++ [t]).eraseDups := by
      rw [eraseDups_concat, Scope.use, h]
      simp only [List.contains_iff_mem, List.mem_eraseDups]
      split
      · exact h
      · rfl
    rw [List.foldl_cons, ih one, List.append_assoc]
    rfl

/-- A call of the own function is converted. -/
theorem convert {lc lf : Option Location} {name : Text} {args args' : List Tree}
    (own : a.name = some name) (alike : List.Forall₂ Alike args args')
    (few : args'.length ≤ a.params.length) :
    a.Finds ((Elimination.callTemporaries a args').foldl Scope.use a.markTailRecursive) []
      [.node lc (.call (.node lf (.identifier (.text name))) (.tuple args))] := by
  -- The call itself is the only finding.
  have found : [Tree.node lc (.call (.node lf (.identifier (.text name))) (.tuple args))].filterMap
      (argumentsOf? a.name) = [args] := by
    simp [own, argumentsOf?, identifierName?]
  have leads := Leads.useAll (Elimination.callTemporaries a args') a.markTailRecursive
  refine ⟨leads.name, leads.params, leads.temporaries, ?_, ?_, ?_, ?_⟩
  · intro names h
    rw [locals_useAll, List.append_nil]
    exact h
  · intro names h
    rw [found, List.flatMap_singleton, callTemporaries_alike a alike]
    exact used_useAll (a := a.markTailRecursive) h _
  · rw [found, leads.tail rfl]
    exact (Bool.or_true _).symm
  · rw [found]
    exact List.forall_mem_singleton.mpr (alike.length_eq ▸ few)

/-- Where the own function is not called, nothing is converted. -/
theorem ignore (h : a.Finds b vars [])
    (foreign : calls.filterMap (argumentsOf? a.name) = []) : a.Finds b vars calls := by
  refine ⟨h.name, h.params, h.temporaries, h.locals, ?_, ?_, ?_⟩
  · rw [foreign]
    exact h.used
  · rw [foreign]
    exact h.tail
  · rw [foreign]
    exact nofun

/-- The variables of other trees, where these are the same. -/
theorem of_same {ts us : List Tree} (h : a.Finds b (us.flatMap ownVars) calls)
    (same : varMeasure.Same ts us) : a.Finds b (ts.flatMap ownVars) calls := by
  have vars : ts.flatMap ownVars = us.flatMap ownVars := same
  rwa [vars]

end Scope.Finds

/-- A returned value that is kept is no call of the own function. -/
theorem callless_of_kept {a : Scope} {e : Tree} (kept : a.converts e = false) :
    (e.tailCalls false).filterMap (argumentsOf? a.name) = [] := by
  cases e with
  | node l shape =>
    cases shape with
    | conditional => cases kept
    | call callee arguments =>
      have foreign : argumentsOf? a.name (.node l (.call callee arguments)) = none := by
        unfold argumentsOf?
        split
        · rename_i same
          cases same
          exact if_neg (by simpa [Scope.converts, isIdentifier] using kept)
        · rfl
      simp [tailCalls, foreign]
    | _ => simp [tailCalls]
  | _ => simp [tailCalls]

/-- What a walk finds in a row. -/
def Found (a b : Scope) (ts : List Tree) : Prop :=
  a.Finds b (ts.flatMap ownVars) (ts.flatMap handedOn)

namespace Found

variable {a b c : Scope} {l : Option Location} {shape : Shape Tree} {ts us : List Tree}

/-- What is found depends on what the measures see alone. -/
theorem same (h : Found a b us) (same : ∀ {β : Type} (μ : Measure β), μ.Same ts us) :
    Found a b ts := by
  have vars : ts.flatMap ownVars = us.flatMap ownVars := same varMeasure
  have calls : ts.flatMap handedOn = us.flatMap handedOn := same handedMeasure
  unfold Found
  rw [vars, calls]
  exact h

/-- Nothing is found in no statements. -/
theorem nil : Found a a [] := Scope.Finds.refl a

/-- Nothing is found where no measure sees anything. -/
theorem blank (h : ∀ {β : Type} (μ : Measure β), μ.Same ts []) : Found a a ts := nil.same h

/-- Nothing is found in plain data. -/
theorem atom {t : Tree} (h : t.isPlain = true) : Found a a [t] := blank fun _ => .atom h

/-- Nothing is found in a name. -/
theorem identifier {x : Text} : Found a a [.node l (.identifier (.text x))] :=
  blank fun _ => .identifier

/-- What is found in a row and in what follows it. -/
theorem append (h1 : Found a b ts) (h2 : Found b c us) : Found a c (ts ++ us) := by
  unfold Found
  rw [List.flatMap_append, List.flatMap_append]
  exact h1.trans h2

/-- A row as one tree. -/
theorem row (h : Found a b ts) : Found a b [.tuple ts] := h.same fun _ => .row ts

/-- A node that is looked through: what is found in its parts. -/
theorem node (h : Found a b shape.parts) (quiet : shape.isQuiet = true) :
    Found a b [.node l shape] :=
  h.same fun _ => .node quiet

/-- Trees that return nothing. -/
theorem calm (h : Found a b ts) (calm : handedMeasure.Same ts []) :
    a.Finds b (ts.flatMap ownVars) [] := by
  have calls : ts.flatMap handedOn = [] := calm
  unfold Found at h
  rwa [calls] at h

/-- A node that is no function, declares nothing and returns nothing stands for its fields. -/
theorem inert (h : Found a b shape.parts) (function : (Tree.node l shape).isFunction = false)
    (nameless : (Tree.node l shape).declaratorName? = none)
    (callless : (Tree.node l shape).returnedCalls = []) : Found a b [.node l shape] := by
  unfold Found
  rw [List.flatMap_singleton, List.flatMap_singleton, ownVars_node function, handedOn_node function,
    nameless, callless]
  exact h

/-- A declaration: what is found in its declarators. -/
theorem declaration (h : Found a b ts) :
    Found a b [.node l (.variableDeclaration (.tuple ts) (.text varKind))] := by
  have parts := h.row.append (.atom (t := .text varKind) rfl)
  exact inert parts rfl rfl rfl

/-- Nothing is found in a function, whose scope is its own. -/
theorem function {form : FunctionForm} {id params body : Tree} :
    Found a a [.node l (.function form id params body)] := by
  unfold Found
  rw [List.flatMap_singleton, List.flatMap_singleton, handedOn_function, ownVars,
    ownNodes_function rfl]
  exact .refl a

/-- A declarator: its name, and what is found in its initial value. -/
theorem declarator {li : Option Location} {x : Text} {init : Tree}
    (h : Found (a.addLocal x) b [init]) :
    Found a b [.node l (.variableDeclarator (.node li (.identifier (.text x))) init)] := by
  have both := (Scope.Finds.addLocal a x).trans h
  have calls : List.flatMap handedOn
      [.node l (.variableDeclarator (.node li (.identifier (.text x))) init)] =
        [init].flatMap handedOn := handed_declarator
  rw [List.flatMap_singleton ownVars] at both
  unfold Found
  rwa [List.flatMap_singleton ownVars, ownVars_declarator, calls]

end Found

/-- The calls whose value is returned where an edit stands. -/
def Edit.calls : Edit → List Tree
  | .returned _ e _ => e.tailCalls false
  | .branch e _ => e.tailCalls true
  | .branchItems es _ => lastTailCalls es
  | edit => edit.before.flatMap handedOn

/-- A walk finds the variables and the returned calls of what it goes through. -/
theorem Walks.finds {n : Naming} {s s' : State} {edit : Edit} (h : Walks n s edit s') :
    s.scope.Finds s'.scope (edit.before.flatMap ownVars) edit.calls := by
  -- Nodes that neither declare nor return stand for their fields. Where a value is returned, its
  -- parts are expressions that return nothing themselves, and only the calls at its tails count.
  induction h with
  | identifier => exact Found.identifier
  | literal plain => exact Found.blank fun _ => .literal plain
  | array _ ih | sequence _ ih | block _ ih => exact Found.node (.row ih) rfl
  | function starts inner ih | functionDeclaration starts inner ih =>
    cases inner
    exact Found.function
  | call _ _ ih1 ih2 => exact Found.node (.append ih1 (.row ih2)) rfl
  | member _ name ih =>
    obtain ⟨li, spelled⟩ := name
    exact Found.node (.append ih (.append .identifier (.atom rfl))) rfl
  | computedMember _ _ ih1 ih2 => exact Found.node (.append ih1 (.append ih2 (.atom rfl))) rfl
  | conditional _ _ _ ih1 ih2 ih3 | ifStatement _ _ _ ih1 ih2 ih3 | forEach _ _ _ _ ih1 ih2 ih3 =>
    exact Found.node (.append ih1 (.append ih2 ih3)) rfl
  | assignment _ _ ih1 ih2 | binary _ _ ih1 ih2 | logical _ _ ih1 ih2 =>
    exact Found.node (.append (.atom rfl) (.append ih1 ih2)) rfl
  | unary _ ih | update _ ih => exact Found.node (.append (.atom rfl) (.append ih (.atom rfl))) rfl
  | absent | noAlternate | noStart | noInitial => exact Found.atom rfl
  | present _ ih | alternate _ ih | startPlain _ _ ih | startExpression _ ih
  | initial _ ih => exact ih
  | noExpressions | noStatements | noDeclarators | body => exact .refl _
  | moreExpressions _ _ ih1 ih2 => exact Found.append ih1 ih2
  | returnNothing => exact Found.atom rfl
  | @returnCall s s1 s' l lc lf name args args' t' own parts converted ih =>
    obtain ⟨few, rfl, rfl⟩ := convertCall_ok.mp converted
    have one : s1.scope.Finds _ []
        [.node lc (.call (.node lf (.identifier (.text name))) (.tuple args))] :=
      .convert (ih.name.trans own) (alike_of_expressions parts) few
    have found := (Found.calm ih parts.calm).trans one
    have vars : varMeasure.Same
        [.node lc (.call (.node lf (.identifier (.text name))) (.tuple args))] args :=
      (Measure.Same.node rfl).trans (.cons .identifier (.row args))
    rw [List.append_nil] at found
    exact found.of_same vars
  | @returnConditional s s1 s2 s' l lc test test' consequent consequent' alternate alternate'
      testPart _ _ ih1 ih2 ih3 =>
    have found := (Found.calm ih1 testPart.calm).trans (ih2.trans ih3)
    rw [← List.flatMap_append, ← List.flatMap_append] at found
    have calls : tailCalls false (.node lc (.conditional test consequent alternate)) =
        tailCalls true consequent ++ tailCalls true alternate := by simp [tailCalls]
    have vars : varMeasure.Same [.node lc (.conditional test consequent alternate)]
        [test, consequent, alternate] := .node rfl
    rw [Edit.calls, calls]
    exact found.of_same vars
  | returnValue kept part ih => exact (Found.calm ih part.calm).ignore (callless_of_kept kept)
  | branchValue single _ ih =>
    rw [Edit.calls, Simulation.tailCalls_single single]
    exact ih
  | @branchSequence s s' l es ts _ ih =>
    have calls : tailCalls true (.node l (.sequence (.tuple es))) = lastTailCalls es := by
      simp [tailCalls]
    have vars : varMeasure.Same [.node l (.sequence (.tuple es))] es :=
      (Measure.Same.node rfl).trans (.row es)
    rw [Edit.calls, calls]
    exact Scope.Finds.of_same ih vars
  | @branchLast s s' e t' ts _ _ ih =>
    have calls : lastTailCalls [e] = tailCalls false e := by simp [lastTailCalls]
    rw [Edit.calls, calls]
    exact ih
  | branchMore more part _ ih1 ih2 =>
    have found := (Found.calm ih1 part.calm).trans ih2
    rw [← List.flatMap_append] at found
    rw [Edit.calls, Simulation.lastTailCalls_cons more]
    exact found
  | @returnStatement s s' l argument t' part ih =>
    have none : [argument].flatMap handedOn = [] := part.calm
    have calls : (Tree.node l (.returnStatement argument)).handedOn = tailCalls false argument := by
      rw [handedOn_node rfl]
      change _ ++ [argument].flatMap handedOn = _
      rw [none, List.append_nil]
      rfl
    have vars : (Tree.node l (.returnStatement argument)).ownVars = [argument].flatMap ownVars :=
      ownVars_node rfl
    change s.scope.Finds s'.scope ([Tree.node l (.returnStatement argument)].flatMap ownVars)
      ([Tree.node l (.returnStatement argument)].flatMap handedOn)
    rw [List.flatMap_singleton, List.flatMap_singleton, calls, vars]
    exact ih
  | variableDeclaration _ ih | startDeclaration _ ih => exact Found.declaration ih
  | forStatement _ _ _ _ ih1 ih2 ih3 ih4 =>
    exact Found.node (.append ih1 (.append ih2 (.append ih3 ih4))) rfl
  | forEachDeclared _ _ _ ih1 ih2 =>
    exact Found.node (.append (.declaration (.declarator (.atom rfl))) (.append ih1 ih2)) rfl
  | whileStatement _ _ ih1 ih2 => exact Found.node (.append ih1 ih2) rfl
  | doWhileStatement _ _ ih1 ih2 => exact Found.node (.append ih1 ih2) rfl
  | expressionStatement _ ih => exact Found.node ih rfl
  | emptyStatement => exact Found.node (.refl _) rfl
  | bareJump => exact Found.inert (.atom rfl) rfl rfl rfl
  | jump => exact Found.inert .identifier rfl rfl rfl
  | labeled _ _ ih => exact Found.inert (.append .identifier ih) rfl rfl rfl
  | moreStatements _ _ _ ih1 ih2 => exact Found.append ih1 ih2
  | @startStrict s s' t ts ts' strict _ ih =>
    have blank : Found s.scope s.scope [t] := by
      obtain ⟨l, le, rfl⟩ := eq_strictDirective strict
      exact .node (.blank fun _ => .literal rfl) rfl
    have noted : Found s.scope { s.scope with directive := some t } [] := .withDirective _ _
    exact Found.append (blank.append noted) ih
  | moreDeclarators _ _ _ ih1 ih2 => exact Found.append (.declarator ih1) ih2

/-- The arguments of the returned calls of the own function in the statements of a body. -/
def ownCalls (a : Scope) (ss : List Tree) : List (List Tree) :=
  (ss.flatMap handedOn).filterMap (argumentsOf? a.name)

/-- What is known at the end of a body that was entered with a scope. -/
structure Scope.Ends (a b : Scope) (ss : List Tree) : Prop where
  locals : b.locals = freshNames a.params (ss.flatMap ownVars)
  used : b.used = ((ownCalls a ss).flatMap (callTemporaries a)).eraseDups
  tail : b.isTailRecursive = !(ownCalls a ss).isEmpty
  few : ∀ args ∈ ownCalls a ss, args.length ≤ a.params.length

/-- No temporary is in use where no call is converted. -/
theorem Scope.Ends.idle {a b : Scope} {ss : List Tree} (h : a.Ends b ss)
    (tail : b.isTailRecursive = false) : b.used = [] := by
  have none : ownCalls a ss = [] := by simpa [h.tail] using tail
  rw [h.used, none]
  rfl

/-- The scope at the end of a body, from the body. -/
theorem ends_of_start {n : Naming} {a : Scope} {stats : Stats} {ps ss ss1 : List Tree} {s1 : State}
    (starts : a.Starts n ps) (walked : Walks n ⟨a, stats⟩ (.start ss ss1) s1) :
    a.Ends s1.scope ss where
  locals := walked.finds.locals [] starts.locals
  used := walked.finds.used [] starts.used
  tail := by
    have tail := walked.finds.tail
    rwa [starts.tail, Bool.false_or] at tail
  few := walked.finds.few

end TailLoop.Elimination
