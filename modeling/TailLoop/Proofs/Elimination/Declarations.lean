import TailLoop.Proofs.Elimination.Bodies

/-!
# Declarations after elimination

After elimination, the variables of every program and function are declared at the top of its body and
nowhere else, each of them once (`Hoists`). What hoisting finds when the body is entered is what it
found before, without repetitions and parameters, and the temporaries in use after that; the inner
functions are those of the original, rewritten. So a program or function has the same parameters and
declared names as before, apart from its temporaries.
-/

namespace TailLoop

namespace Validity

open Tree

variable {checked : Bool} {c : Targets} {f : Tree}

/-- The statements of a well-formed program or function are well-formed. -/
theorem WellFormed.statements (wf : WellFormed checked c f) :
    ∀ t ∈ f.statements, ∃ c, WellFormed checked c t := by
  cases wf with
  | program kinds parts => exact fun t ht => ⟨_, parts t ht⟩
  | function _ _ _ kinds parts => exact fun t ht => ⟨_, parts t ht⟩
  | _ => exact nofun

/-- All declarations in the scope of a well-formed program or function have names. -/
theorem WellFormed.isNamed_scope (wf : WellFormed checked c f) : ∀ u ∈ f.scopeNodes, u.IsNamed :=
  List.forall_mem_flatMap.mpr fun t ht => by
    obtain ⟨c', valid⟩ := wf.statements t ht
    exact valid.isNamed

/-- A function declaration is a function. -/
theorem isFunction_of_hasKind {t : Tree} (h : t.hasKind .functionDeclaration = true) :
    t.isFunction = true := by
  cases t with
  | node l shape =>
    cases shape with
    | function => rfl
    | forEach domain => cases domain <;> cases h
    | jump kind => cases kind <;> cases h
    | _ => cases h
  | _ => cases h

/-- The inner functions of a well-formed program or function are well-formed. -/
theorem WellFormed.scopeFunctions (wf : WellFormed checked c f) :
    ∀ g ∈ f.scopeFunctions, g.isFunction = true ∧ ∃ c, WellFormed checked c g := by
  intro g hg
  obtain ⟨own, kind⟩ := List.mem_filter.mp hg
  obtain ⟨t, ht, hg⟩ := List.mem_flatMap.mp own
  obtain ⟨c', valid⟩ := wf.statements t ht
  have function := isFunction_of_hasKind kind
  exact ⟨function, valid.function_node (nodes_of_ownNodes t g hg) function⟩

end Validity

namespace Elimination

open Tree Validity

/-! ## Names -/

/-- What is quiet declares nothing. -/
theorem isNamed_of_isQuiet {u : Tree} (h : u.isQuiet = true) : u.IsNamed := by
  cases u with
  | node l shape =>
    cases shape with
    | function | variableDeclarator => cases h
    | _ => exact nofun
  | _ => exact nofun

/-- Functions with one head both have a name where they need it. -/
theorem SameHead.isNamed {f f' : Tree} (h : SameHead f f') (named : f.IsNamed) : f'.IsNamed := by
  cases h with
  | program => exact nofun
  | @function _ form => cases form <;> exact named

/-- A text put in front of another is how the two start. -/
theorem startsWith_append (x y : Text) : Text.startsWith (x ++ y) x = true := by
  simp [Text.startsWith]

section Settled

variable {n : Naming} {checked : Bool} {c : Targets} {f f' : Tree} {a : Scope} {ts : List Tree}

/-- All declarations in the scope of a rewritten program or function have names. -/
theorem Settled.isNamed (wf : WellFormed checked c f) (h : Settled n f f' a ts) :
    ∀ u ∈ f'.scopeNodes, u.IsNamed := by
  -- Functions keep their heads, so that named ones stay named.
  have functions : ∀ g ∈ f'.scopeFunctions, g.IsNamed := by
    have named : ∀ g ∈ f.scopeFunctions, g.IsNamed := fun g hg =>
      wf.isNamed_scope g (List.mem_filter.mp hg).1
    exact forall_of_forall₂ h.functions.flip (fun g' g rewritten => rewritten.head.isNamed) named
  intro u hu
  cases quiet : u.isQuiet with
  | true => exact isNamed_of_isQuiet quiet
  | false =>
    rcases h.mem_marks ((mem_scopeMarks quiet).mpr hu) with walked | ⟨ds, rfl⟩ | ⟨x, rfl⟩ | rfl | rfl
    -- Either the walk left it, or it was put in front of the body.
    · intro id hid
      have undeclared := h.settles.undeclared u walked
      unfold declaredId? at hid
      split at hid
      · cases undeclared
      · exact functions _ (List.mem_filter.mpr ⟨hu, rfl⟩) id hid
      · cases hid
    · exact nofun
    · rintro _ ⟨⟩
      exact ⟨_, _, rfl⟩
    · exact nofun
    · exact nofun

/-- The declarations and declarators in the scope of a rewritten program or function are those that
were put in front. -/
theorem Settled.declaring (h : Settled n f f' a ts) :
    f'.scopeMarks.filter isDeclaring = (declareGroups a.groups).flatMap ownMarks := by
  obtain ⟨ending, closes, marks⟩ := h.marks
  have front : ((declareGroups a.groups).flatMap ownMarks).filter isDeclaring =
      (declareGroups a.groups).flatMap ownMarks := by
    rw [List.filter_eq_self]
    intro u hu
    rcases lists_ownMarks.mem_declareGroups _ hu with ⟨ds, rfl⟩ | ⟨x, rfl⟩ <;> rfl
  have around : (if a.isTailRecursive then [loopAround n a.locals ts] else []).filter isDeclaring =
      [] := by
    split <;> rfl
  have inner : (ts.flatMap ownMarks).filter isDeclaring = [] := filter_eq_nil h.settles.undeclared
  have last : ending.filter isDeclaring = [] := filter_eq_nil fun u hu => by rw [closes u hu]; rfl
  rw [marks, List.filter_append, List.filter_append, List.filter_append, front, around, inner, last,
    List.nil_append, List.nil_append, List.append_nil]

/-- The variables of a rewritten program or function are the variables of the original, without
repetitions and parameters, and its temporaries. -/
theorem Settled.scopeVars (h : Settled n f f' a ts) :
    f'.scopeVars = freshNames f.paramNames f.scopeVars ++ usedTemporaries n f := by
  have found : f'.scopeVars = (f'.scopeMarks.filter isDeclaring).filterMap declaratorName? := by
    rw [scopeVars_marks, List.filterMap_filter]
    refine List.filterMap_congr fun u _ => ?_
    cases declaring : isDeclaring u with
    | true => rfl
    | false =>
      rw [isDeclaring, Bool.or_eq_false_iff] at declaring
      exact declaratorName?_of_isDeclarator declaring.2
  have names : ((declareGroups a.groups).flatMap ownMarks).filterMap declaratorName? =
      a.groups.flatten := lists_ownMarks.names_declareGroups a.groups
  rw [found, h.declaring, names, flatten_groups, h.locals, h.used]

/-- The declarations in the scope of a rewritten program or function are those that were put in
front. -/
theorem Settled.declarations (h : Settled n f f' a ts) :
    f'.scopeNodes.filter (·.hasKind .variableDeclaration) = declareGroups a.groups := by
  have some : f'.scopeMarks.filter (·.hasKind .variableDeclaration) =
      (f'.scopeMarks.filter isDeclaring).filter (·.hasKind .variableDeclaration) := by
    rw [List.filter_filter]
    refine List.filter_congr fun u _ => ?_
    cases kind : u.hasKind .variableDeclaration with
    | true => rw [isDeclaring, kind]; rfl
    | false => rfl
  have front : ((declareGroups a.groups).flatMap ownMarks).filter (·.hasKind .variableDeclaration) =
      declareGroups a.groups := lists_ownMarks.filter_declareGroups a.groups
  rw [← filter_scopeMarks fun u kind => isQuiet_of_hasKind kind (.inr rfl), some, h.declaring, front]

/-- A walked statement is no declaration. -/
theorem Settled.undeclared (h : Settled n f f' a ts) :
    ∀ t ∈ ts, t.hasKind .variableDeclaration = false := by
  intro t ht
  rw [Bool.eq_false_iff]
  intro kind
  have mark : t ∈ ts.flatMap ownMarks :=
    List.mem_flatMap.mpr ⟨t, ht, mem_ownMarks (isQuiet_of_hasKind kind (.inr rfl))⟩
  have undeclared := h.settles.undeclared t mark
  rw [isDeclaring, kind] at undeclared
  cases undeclared

/-- All these declarations are statements of the body. -/
theorem Settled.declarations_statements (h : Settled n f f' a ts) :
    -- In front of the declarations stands a directive at most.
    f'.statements.filter (·.hasKind .variableDeclaration) = declareGroups a.groups := by
  have directive : a.directive.toList.filter (·.hasKind .variableDeclaration) = [] := by
    refine filter_eq_nil fun t ht => ?_
    obtain ⟨l, le, rfl⟩ := eq_strictDirective (h.strict t (Option.mem_toList.mp ht))
    rfl
  have front : (Tree.declareAll a.locals ++ Tree.declareEach a.used []).filter
      (·.hasKind .variableDeclaration) = declareGroups a.groups := by
    rw [declareGroups_groups, List.filter_eq_self]
    intro t ht
    obtain ⟨names, -, rfl⟩ := List.mem_map.mp ht
    rfl
  have finished := h.finished
  cases tail : a.isTailRecursive with
  | true =>
    rw [finishBody_loop tail] at finished
    rw [← Except.ok.inj finished, List.append_assoc, ← List.append_assoc (Tree.declareAll _),
      List.filter_append, List.filter_append, directive, front]
    exact List.append_nil _
  | false =>
    obtain ⟨rest, dropped, statements⟩ := (finishBody_plain tail).mp finished
    -- The walk leaves no declarations, so that none stand in the rest.
    have others : rest.filter (·.hasKind .variableDeclaration) = [] :=
      filter_eq_nil fun t ht => h.undeclared t (mem_dropResets dropped t ht)
    rw [h.idle tail] at front
    have own : (Tree.declareAll a.locals).filter (·.hasKind .variableDeclaration) =
        declareGroups a.groups := by
      rw [← front]
      exact congrArg _ (List.append_nil _).symm
    rw [statements, List.filter_append, List.filter_append, directive, own, others]
    exact List.append_nil _

/-- The names that are declared after elimination are different from each other and no
parameters. -/
theorem Settled.distinct (h : Settled n f f' a ts) :
    f'.scopeVars.Nodup ∧ ∀ x ∈ f'.scopeVars, x ∉ f.paramNames := by
  have reserved : ∀ x ∈ usedTemporaries n f, n.reserves x = true := by
    rw [← h.used]
    intro x hx
    obtain ⟨p, -, rfl⟩ := List.mem_map.mp (h.staged x hx)
    rw [Naming.reserves, startsWith_append]
    rfl
  have declarable := h.declarable
  rw [h.locals] at declarable
  rw [h.scopeVars, List.nodup_append, List.forall_mem_append]
  refine ⟨⟨declarable.distinct, nodup_eraseDups _, ?_⟩, declarable.apart, ?_⟩
  · -- The variables of the program are free of the prefix, the temporaries carry it.
    rintro x own y staged rfl
    cases (declarable.free x own).symm.trans (reserved x staged)
  · intro x staged param
    cases (h.free x param).symm.trans (reserved x staged)

/-- After elimination, a program or function has the same parameters and declared names as before,
and its temporaries. -/
theorem Settled.declared (h : Settled n f f' a ts) (x : Text) :
    x ∈ f'.paramNames ∨ x ∈ f'.statements.flatMap ownNames ↔
      (x ∈ f.paramNames ∨ x ∈ f.statements.flatMap ownNames) ∨ x ∈ usedTemporaries n f := by
  have finished := (scopes_finishBody h.strict h.plain h.finished).2 x
  have names := h.names x
  have idle := h.idle
  rw [h.head.paramNames, finished, ← h.used]
  cases tail : a.isTailRecursive with
  | true => grind
  | false =>
    rw [idle tail]
    grind

end Settled

/-! ## Programs and functions -/

/-- How the declarations of a program or function are put in order: those of variables are statements
of its body, and no name is declared twice or is a parameter. Hoisting then finds the variables of
the original in the order of their first declaration, without repetitions and parameters, and after
them the temporaries in use; the inner functions that it finds are those of the original, rewritten.
Parameters and declared names are the same as before, apart from the temporaries. -/
structure Hoists (n : Naming) (f f' : Tree) : Prop where
  params : f'.paramNames = f.paramNames
  declarations : f'.scopeNodes.filter (·.hasKind .variableDeclaration) =
    f'.statements.filter (·.hasKind .variableDeclaration)
  distinct : f'.scopeVars.Nodup
  apart : ∀ x ∈ f'.scopeVars, x ∉ f'.paramNames
  hoisted : ∃ vars functions functions',
    (Tree.tuple f.statements).hoisted = .ok ⟨vars.map .text, functions⟩ ∧
      (Tree.tuple f'.statements).hoisted =
        .ok ⟨(freshNames f.paramNames vars ++ usedTemporaries n f).map .text, functions'⟩ ∧
      List.Forall₂ (Becomes n) functions functions'
  declared : ∃ names names', (Tree.tuple f.statements).declaredNames = .ok names ∧
    (Tree.tuple f'.statements).declaredNames = .ok names' ∧
    ∀ x, x ∈ f'.paramNames ∨ x ∈ names' ↔
      (x ∈ f.paramNames ∨ x ∈ names) ∨ x ∈ usedTemporaries n f

section Hoists

variable {n : Naming} {checked : Bool} {c : Targets} {t t' f f' : Tree} {stats : Stats}

/-- The declared names of the statements are their own names, one by one. -/
theorem declaredNames_statements (h : ∀ u ∈ f.scopeNodes, u.IsNamed) :
    (Tree.tuple f.statements).declaredNames = .ok (f.statements.flatMap ownNames) := by
  rw [scopeNodes, ← ownNodes_tuple] at h
  rw [declaredNames_own h, ownNames_tuple]

/-- Inner functions of a rewritten program or function are what becomes of those of the original. -/
theorem Settled.becomes {a : Scope} {ts : List Tree} (wf : WellFormed checked c f)
    (h : Settled n f f' a ts) : List.Forall₂ (Becomes n) f.scopeFunctions f'.scopeFunctions := by
  refine ((List.forall₂_and_left _ _).mpr ⟨wf.scopeFunctions, h.functions⟩).imp ?_
  rintro g g' ⟨⟨function, c', valid⟩, rewritten⟩
  exact rewritten.becomes valid function

/-- What elimination makes of a function declares its variables in front. -/
theorem Rewrites.hoists (wf : WellFormed checked c f) (h : Rewrites n f f') : Hoists n f f' := by
  obtain ⟨a, ts, settled⟩ := h.settled wf
  have named := settled.isNamed wf
  have distinct := settled.distinct
  -- Hoisting refuses declarations without a name only.
  have found := hoisted_statements named
  rw [settled.scopeVars] at found
  exact
    { params := h.head.paramNames
      declarations := settled.declarations.trans settled.declarations_statements.symm
      distinct := distinct.1
      apart := by
        rw [h.head.paramNames]
        exact distinct.2
      hoisted := ⟨f.scopeVars, f.scopeFunctions, f'.scopeFunctions,
        hoisted_statements wf.isNamed_scope, found, settled.becomes wf⟩
      declared := ⟨_, _, declaredNames_statements wf.isNamed_scope, declaredNames_statements named,
        settled.declared⟩ }

/-- Elimination puts the declarations of all programs and functions of a well-formed tree in order,
and what takes the place of each of them is what elimination makes of it alone. Jumps aside,
whatever is read from a text is a well-formed tree. -/
theorem eliminateTailCalls_hoists (wf : WellFormed checked c t)
    (eliminated : t.eliminateTailCalls n = .ok (t', stats)) :
    List.Forall₂ (fun f f' => Becomes n f f' ∧ Hoists n f f') t.scopes t'.scopes := by
  refine (becomes_of_ok wf eliminated).imp ?_
  rintro f f' ⟨⟨c', valid⟩, becomes, rewritten⟩
  exact ⟨becomes, rewritten.hoists valid⟩

/-- A function that declares a parameter and, twice, a variable: once in a block and once in the head
of a loop. It has an inner function, and it calls itself with its parameters exchanged. -/
def scattered : Tree :=
  Tree.new (.function .declaration (.identifier "f")
    (.tuple [.identifier "a", .identifier "b"])
    (.block [
      .block [Tree.declaration [Tree.declarator "x" (.identifier "a"), Tree.declarator "b" .null]],
      Tree.new (.function .declaration (.identifier "g") (.tuple [])
        (.block [Tree.new (.returnStatement (Tree.new (.call (.identifier "g") (.tuple []))))])),
      Tree.new (.forEach .values (Tree.declaration [Tree.declarator "x" .null]) (.identifier "a")
        (.block [Tree.declaration [Tree.declarator "y" .null]])),
      Tree.new (.returnStatement (Tree.new (.call (.identifier "f")
        (.tuple [.identifier "b", .identifier "a"]))))]))

/-- Its variables are declared at the top, followed by the temporaries of both parameters. -/
theorem eliminateTailCalls_hoists_scattered :
    scattered.scopeVars = ["x", "b", "x", "y"] ∧
      freshNames scattered.paramNames scattered.scopeVars ++ usedTemporaries {} scattered =
        ["x", "y", "_tco_temp_a", "_tco_temp_b"] ∧
      ∃ t' stats, (Tree.node none (.program (.tuple [scattered]))).eliminateTailCalls {} =
          .ok (t', stats) ∧
        List.Forall₂ (fun f f' => Becomes {} f f' ∧ Hoists {} f f')
          (Tree.node none (.program (.tuple [scattered]))).scopes t'.scopes := by
  have wf : WellFormed true {} (.node none (.program (.tuple [scattered]))) :=
    wellFormed_of_validate rfl (by decide)
  exact ⟨by decide, by decide, _, _, rfl, eliminateTailCalls_hoists wf rfl⟩

end Hoists

end Elimination

end TailLoop
