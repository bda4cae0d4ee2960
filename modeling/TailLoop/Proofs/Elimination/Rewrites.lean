import TailLoop.Proofs.Elimination.Findings
import TailLoop.Proofs.Elimination.Functions
import TailLoop.Proofs.Elimination.Transport

/-!
# Programs and functions that are rewritten

`Rewrites n f f'` says how the program or function `f` becomes `f'`: it is entered with a scope that
its head tells (`Scope.Enters`), its statements are walked, and what comes of them is put together.
Elimination relates all programs and functions of a tree to those of the result in this way, one by
one and in order (`Eliminates.rewrites`), and so each statement about functions before and after is
one about a single walk through a body.
-/

namespace TailLoop.Elimination

open Tree Validity

/-- A scope with which a program or function is entered. -/
inductive Scope.Enters (n : Naming) : Tree → Scope → Prop where
  | program {l ss startsStrict} : Enters n (.node l (.program (.tuple ss))) { startsStrict }
  | function {l form id ps lb ss a}
      (starts : Scope.ofFunction n id (.tuple ps) (.node lb (.block (.tuple ss))) = .ok a) :
    Enters n (functionOf l form id ps lb ss) a

/-- Two programs, or two functions, that may differ in their statements. -/
inductive SameHead : Tree → Tree → Prop where
  | program {l ss ss'} : SameHead (.node l (.program (.tuple ss))) (.node l (.program (.tuple ss')))
  | function {l form id ps lb ss ss'} :
    SameHead (functionOf l form id ps lb ss) (functionOf l form id ps lb ss')

/-- What elimination makes of a program or function. -/
inductive Rewrites (n : Naming) (f f' : Tree) : Prop where
  | mk {a : Scope} {stats : Stats} {ss1 : List Tree} {s1 : State} (head : SameHead f f')
      (enters : a.Enters n f) (walked : Walks n ⟨a, stats⟩ (.start f.statements ss1) s1)
      (finished : finishBody n s1.scope ss1 = .ok f'.statements)

/-- What elimination makes of a function has the head of the function. -/
theorem Rewrites.head {n : Naming} {f f' : Tree} (h : Rewrites n f f') : SameHead f f' := by
  obtain ⟨head, -, -, -⟩ := h
  exact head

/-- The head tells the names of the parameters. -/
theorem SameHead.paramNames {f f' : Tree} (h : SameHead f f') : f'.paramNames = f.paramNames := by
  cases h <;> rfl

/-! ## What a scope is entered with -/

/-- The scope that the head of a program or function and its declared names tell, when nothing has
been found in its body. -/
def scopeOf (n : Naming) (f : Tree) : Scope where
  name := f.selfName?
  params := f.paramNames
  temporaries := f.paramNames.map (n.temporary ++ ·)

/-- The scope that a function is entered with, as far as a walk looks at it. -/
structure Scope.Describes (n : Naming) (f : Tree) (a : Scope) : Prop where
  name : a.name = f.selfName?
  params : a.params = f.paramNames
  temporaries : a.temporaries = f.paramNames.map (n.temporary ++ ·)

section Enters

variable {n : Naming} {f f' : Tree} {a : Scope}

/-- A scope that is entered starts with some parameters. -/
theorem Scope.Enters.starts (h : a.Enters n f) : ∃ ps, a.Starts n ps := by
  cases h with
  | program => exact ⟨[], rfl, rfl, rfl, rfl, rfl, rfl⟩
  | function starts => exact ⟨_, starts_ofFunction starts⟩

/-- A mapped result comes from a result. -/
theorem map_ok {ε α β : Type} {x : Except ε α} {g : α → β} {b : β} :
    x.map g = .ok b ↔ ∃ a, x = .ok a ∧ b = g a := by
  cases x with
  | error e => exact ⟨nofun, nofun⟩
  | ok a => exact ⟨fun h => ⟨a, rfl, by cases h; rfl⟩, fun ⟨_, h, hb⟩ => by cases h; rw [hb]; rfl⟩

/-- A name is kept unless a parameter or a declaration hides it. -/
theorem ownName?_eq {body : Tree} {names : List Text} (found : body.declaredNames = .ok names)
    (params : List Text) (name : Option Text) : ownName? params body name =
      .ok (name.filter fun x => !params.contains x && !names.contains x) := by
  cases name with
  | none => rfl
  | some x =>
    rw [ownName?, found]
    by_cases param : x ∈ params
    · simp [Option.filter, param]
    · by_cases declared : x ∈ names <;>
        simp [Option.filter, param, declared, bind, Except.bind, pure, Except.pure]

/-- The name of a scope is the one by which the function can call itself. -/
theorem name_of_ofFunction {checked : Bool} {c : Targets} {l lb : Option Location}
    {form : FunctionForm} {id : Tree}
    {ps ss : List Tree} (wf : WellFormed checked c (functionOf l form id ps lb ss))
    (h : Scope.ofFunction n id (.tuple ps) (.node lb (.block (.tuple ss))) = .ok a) :
    a.name = (functionOf l form id ps lb ss).selfName? := by
  -- The head is read in the order of the program: parameters, name, own name, statements.
  have begins := starts_ofFunction h
  obtain ⟨names, hnames, rest⟩ := bind_ok.mp h
  obtain ⟨name, hname, rest⟩ := bind_ok.mp rest
  obtain ⟨own, hown, rest⟩ := bind_ok.mp rest
  obtain ⟨statements, -, rest⟩ := bind_ok.mp rest
  obtain ⟨startsStrict, -, rest⟩ := bind_ok.mp rest
  cases rest
  rw [refuseFault_ok] at hown
  cases wf with
  | function _ known params kinds parts =>
    have params : names = (functionOf l form id ps lb ss).paramNames :=
      eq_of_declaredNames params begins.params
    have block : WellFormed checked {} (.node lb (.block (.tuple ss))) := .block kinds parts
    -- The name is that of the identifier, or there is none.
    have head : name = id.nameText? := by
      unfold functionName? at hname
      split at hname
      · rename_i absent
        cases hname
        cases id <;> first | rfl | cases absent
      · rename_i present
        obtain ⟨li, spelled⟩ := known (by simpa using present)
        obtain ⟨x, hx, rfl⟩ := map_ok.mp hname
        rw [(declaredName_ok.mp hx).2]
        rfl
    rw [ownName?_eq block.declaredNames, params, head] at hown
    cases hown
    rfl

/-- A well-formed function is entered with the scope that its head and its declared names tell. -/
theorem Scope.Enters.describes {checked : Bool} {c : Targets} (wf : WellFormed checked c f)
    (h : a.Enters n f) :
    a.Describes n f := by
  cases h with
  | program => exact ⟨rfl, rfl, rfl⟩
  | function starts =>
    have begins := starts_ofFunction starts
    have name := name_of_ofFunction wf starts
    cases wf with
    | function named known params kinds parts =>
      have names := eq_of_declaredNames params begins.params
      refine ⟨name, names, ?_⟩
      rw [begins.temporaries, names]
      rfl

/-- The returned calls of itself, as the scope of the function tells them. -/
theorem Scope.Describes.ownCalls (h : a.Describes n f) : ownCalls a f.statements = f.selfCalls := by
  rw [Elimination.ownCalls, selfCalls, scopeNodes, h.name, List.flatMap_assoc]
  rfl

end Enters

/-! ## All programs and functions of a tree -/

section Scopes

variable {n : Naming}

/-- The measure of scopes lists them. -/
theorem scopeMeasure_of (t : Tree) : scopeMeasure.of t = t.scopes := rfl

/-- The scopes of a `return` are those of its value. -/
theorem scopes_return (l : Option Location) (e : Tree) :
    (Tree.node l (.returnStatement e)).scopes = e.scopes := by
  rw [scopes_inert rfl]
  exact List.flatMap_singleton scopes e

/-- The scopes of a label are those of its statement. -/
theorem scopes_labeled (l ln : Option Location) (x : Text) (body : Tree) :
    (Tree.node l (.labeled (.node ln (.identifier (.text x))) body)).scopes = body.scopes := by
  rw [scopes_inert rfl]
  exact List.flatMap_singleton scopes body

/-- The scopes of a declaration are those of its declarators. -/
theorem scopes_declaration (l : Option Location) (ds : List Tree) :
    (Tree.node l (.variableDeclaration (.tuple ds) (.text varKind))).scopes =
      ds.flatMap scopes := by
  rw [scopes_inert rfl, ← scopes_tuple ds]
  exact List.flatMap_singleton scopes (.tuple ds)

/-- Functions are rewritten in order. -/
theorem transports_scopes : Transports n scopeMeasure scopeMeasure
    fun _ _ fs fs' => List.Forall₂ (fun f f' => f.isFunction = true ∧ Rewrites n f f') fs fs' where
  nil := .nil
  append h1 h2 := List.rel_append h1 h2
  addVars _ h := h
  addTernary h := h
  directive := .nil
  declaration h := by
    rw [scopeMeasure_of, scopes_declaration]
    exact h
  declarator _ h := by
    rw [scopeMeasure_of, scopes_declarator]
    exact h
  returned h := by
    rw [scopeMeasure_of, scopes_return]
    exact h
  returnNothing := .nil
  returnValue _ _ h := by
    rw [scopeMeasure_of (.node _ _), scopes_return]
    exact h
  converted _ _ := .nil
  bareJump := .nil
  jump := .nil
  labeled _ h := by
    rw [scopeMeasure_of, scopeMeasure_of, scopes_labeled, scopes_labeled]
    exact h
  function := by
    -- A function is paired with its rewriting in front of those inside.
    intro s s1 l form id ps lb ss ss1 ss' scope starts walked inner finished
    have strict := strict_of_start walked (starts_ofFunction starts).directive
    have kept := (scopes_finishBody strict walked.plain finished).1
    change List.Forall₂ _ (functionOf l form id ps lb ss).scopes
      (functionOf l form id ps lb ss').scopes
    unfold functionOf
    rw [scopes_function, scopes_function, kept]
    exact .cons ⟨rfl, .function, .function starts, walked, finished⟩ inner

/-- Where a whole tree is eliminated, its programs and functions are rewritten one by one. Only the
tree itself can be a program. -/
theorem Eliminates.rewrites {checked : Bool} {c : Targets} {t t' : Tree} {stats : Stats}
    (wf : WellFormed checked c t) (h : Eliminates n t t' stats) :
    List.Forall₂ (fun f f' => (f.isFunction = true ∨ f = t ∧ f' = t') ∧ Rewrites n f f')
      t.scopes t'.scopes := by
  -- The functions inside are never the root.
  have inner {fs fs' : List Tree}
      (h : List.Forall₂ (fun f f' => f.isFunction = true ∧ Rewrites n f f') fs fs') :
      List.Forall₂ (fun f f' => (f.isFunction = true ∨ f = t ∧ f' = t') ∧ Rewrites n f f') fs fs' :=
    h.imp fun _ _ h => ⟨.inl h.1, h.2⟩
  cases h with
  | expression _ part => exact inner (part.transported_expression transports_scopes)
  | statement _ part => exact inner (part.transported_statement transports_scopes)
  | declarator part =>
    cases wf with
    | variableDeclarator name =>
      obtain ⟨li, spelled⟩ := name
      rw [scopes_declarator, scopes_declarator]
      exact inner (part.transported_optional transports_scopes)
  | program starts finished =>
    have body := inner (starts.transported_start transports_scopes)
    -- The program is a scope as well, and it is the root.
    have kept := (scopes_finishBody (strict_of_start starts rfl) starts.plain finished).1
    rw [scopes_program, scopes_program, kept]
    exact .cons ⟨.inr ⟨rfl, rfl⟩, .program, .program, starts, finished⟩ body

end Scopes

end TailLoop.Elimination
