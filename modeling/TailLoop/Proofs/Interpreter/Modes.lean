import TailLoop.Proofs.Interpreter.Heritable
import TailLoop.Proofs.Interpreter.Regimes

/-!
# Which functions are strict

A function expression takes the mode of the code around it, and a function that a body declares is
made when the body is entered, in the mode of the code that calls. So the place where a function
stands tells its mode if the function stands in the program itself, starts with the directive, or is
an expression in such a function (`Tree.isSettled`), and also if no directive in the program makes a
difference (`Tree.HasOneMode`); then the function is strict exactly if the program or a function
around it, or itself, starts with the directive (`Interpreter.strict_iff_of_leads`). A function
declared in another one can be made in a mode that no place around it has.

The proof goes over the code that may run: it stands in the program below some functions, and what
the machine's mode is there is known if the innermost of them is settled. This is a regime with the
mode as its index (`Eval.modes`).
-/

namespace TailLoop

namespace Tree

/-! ## Functions and what is around them -/

/-- Whether the statements in a body start with the directive, as far as there are statements. -/
def startsDirected (t : Tree) : Bool := ((t.field "body" >>= startsStrict).toOption).getD false

/-- Whether a function starts with the directive. -/
def isDirected : Tree → Bool
  | .node _ (.function _ _ _ body) => body.startsDirected
  | _ => false

/-- The rules that list functions, with the functions around the tree as an argument. -/
def nestingRules : Rules (List Tree → List (List Tree)) where
  atom _ _ := []
  tuple parts outer := parts.flatMap (· outer)
  list _ parts outer := parts.flatMap (· outer)
  dict _ _ _ := []
  node t shape outer :=
    match shape with
    | .function _ id params body => (t :: outer) :: (id outer ++ params outer ++ body (t :: outer))
    | .generic kind children => kind outer ++ children.flatMap (·.2 outer)
    | shape => shape.children.flatMap (·.2 outer)

/-- The functions of a tree that stands in the given functions: each with those around it, from the
inside to the outside. -/
def nestings (t : Tree) (outer : List Tree) : List (List Tree) := fold nestingRules t outer

/-- The functions of a program, each with those around it. -/
def functionNestings (program : Tree) : List (List Tree) :=
  match program.field "body" with
  | .ok body => body.nestings []
  | .error _ => []

/-- Whether the place of a function tells its mode: the function stands in the program itself, starts
with the directive, or is an expression in such a function. -/
def isSettled : List Tree → Bool
  | f :: g :: outer => f.isDirected || (f.isExpression && isSettled (g :: outer))
  | _ => true

/-- Whether all code of a program has the same mode, for no function has a directive that the program
has not. -/
def HasOneMode (program : Tree) : Prop :=
  ∀ nesting ∈ program.functionNestings, ∀ f ∈ nesting, f.isDirected = true →
    program.startsDirected = true

/-- Whether code is strict by its place: the program or one of the functions around it starts with the
directive. -/
def isStrictIn (program : Tree) (outer : List Tree) : Bool :=
  program.startsDirected || outer.any isDirected

section Nestings

variable {l : Option Location} {outer : List Tree} {t u : Tree}

/-- The functions in a row are those in its items. -/
theorem nestings_items (items : List Tree) (outer : List Tree) :
    (Tree.tuple items).nestings outer = items.flatMap (·.nestings outer) ∧
      (Tree.list items).nestings outer = items.flatMap (·.nestings outer) := by
  constructor <;>
  · rw [nestings, fold, foldItems_eq_map]
    exact List.flatMap_map ..

/-- A function lies in those around it, and the ones in it lie in it as well. -/
theorem nestings_function (l : Option Location) (form : FunctionForm) (id params body : Tree) :
    (Tree.node l (.function form id params body)).nestings outer =
      (.node l (.function form id params body) :: outer) ::
        (id.nestings outer ++ params.nestings outer ++
          body.nestings (.node l (.function form id params body) :: outer)) := by
  rw [nestings, fold_node]
  rfl

/-- What is in a part of a node that is no function is in the node. -/
theorem nestings_part {shape : Shape Tree} (inert : (Tree.node l shape).isFunction = false)
    (hu : u ∈ shape.parts) : u.nestings outer ⊆ (Tree.node l shape).nestings outer := by
  have listed : u.nestings outer ⊆ shape.parts.flatMap (·.nestings outer) := fun nesting here =>
    List.mem_flatMap.mpr ⟨u, hu, here⟩
  have below : shape.parts.flatMap (·.nestings outer) =
      (shape.map (fold nestingRules)).children.flatMap (·.2 outer) := by
    rw [Shape.children_map, Shape.parts, List.flatMap_map, List.flatMap_map]
    rfl
  rw [below] at listed
  refine List.Subset.trans listed ?_
  rw [nestings, fold_node]
  cases shape with
  | function => cases inert
  | generic kind children => exact List.subset_append_right _ _
  | _ => exact fun _ h => h

/-- That everything in a tree is in a list passes to the parts of the tree. -/
theorem heritable_nestings (outer : List Tree) (within : List (List Tree)) :
    Heritable fun t => t.nestings outer ⊆ within where
  plain {t} h := by
    cases t with
    | null | bool | int | num | text => exact List.nil_subset _
    | _ => cases h
  place l := List.nil_subset _
  tuple {items} := by rw [(nestings_items items outer).1, flatMap_subset]
  list {items u} h hu := by
    rw [(nestings_items items outer).2, flatMap_subset] at h
    exact h u hu
  part inert h hu := List.Subset.trans (nestings_part inert hu) h
  kind {l name children} h := by
    rw [nestings, fold_node] at h
    exact List.Subset.trans (List.subset_append_left _ _) h

/-- What is in a field of a tree that is no function is in the tree. -/
theorem nestings_field {name : Text} (inert : t.isFunction = false) (found : t.field name = .ok u) :
    u.nestings outer ⊆ t.nestings outer :=
  (heritable_nestings outer _).field (List.Subset.refl _) inert found

/-- What is in an item of a row is in the row. -/
theorem nestings_item {ts : List Tree} (row : t.items = .ok ts) (hu : u ∈ ts) :
    u.nestings outer ⊆ t.nestings outer :=
  (heritable_nestings outer _).item (List.Subset.refl _) row hu

/-- A row of statements is no function, and has no directive of its own. -/
theorem startsDirected_of_items {ts : List Tree} (row : t.items = .ok ts) :
    t.startsDirected = false := by
  cases t with
  | tuple | list | text | dict => rfl
  | _ => cases row

/-- What the statements of a body hold is in the body. A body that is a function itself is around
them; where it has statements it does not start with the directive. -/
theorem nestings_body (outer : List Tree) {body statements : Tree}
    (found : body.field "body" = .ok statements) :
    ∃ inner, statements.nestings inner ⊆ body.nestings outer ∧
      (inner = outer ∨ inner = body :: outer ∧
        ∀ ts, statements.items = .ok ts → body.isDirected = false) := by
  -- A body with a field of statements is a block, unless it is a function itself.
  by_cases inert : body.isFunction = false
  · exact ⟨outer, nestings_field inert found, .inl rfl⟩
  · cases body with
    | node l shape =>
      cases shape with
      | function form id params inner =>
        cases found
        refine ⟨.node l (.function form id params statements) :: outer, ?_, .inr ⟨rfl, ?_⟩⟩
        · rw [nestings_function]
          exact List.subset_cons_of_subset _ (List.subset_append_right _ _)
        · exact fun ts row => startsDirected_of_items row
      | _ => exact absurd rfl inert
    | _ => exact absurd rfl inert

/-- The mode of a function by the mode of the code around it, for a settled one. -/
theorem isStrictIn_settled {program f : Tree} {outer : List Tree} {strict : Bool}
    (around : isSettled outer = true → strict = program.isStrictIn outer)
    (settled : isSettled (f :: outer) = true) :
    (strict || f.isDirected) = program.isStrictIn (f :: outer) := by
  have listed : program.isStrictIn (f :: outer) = (f.isDirected || program.isStrictIn outer) := by
    simp [isStrictIn, Bool.or_left_comm]
  rw [listed]
  cases directed : f.isDirected with
  | true => simp
  | false =>
    have settled : isSettled outer = true := by
      cases outer with
      | nil => rfl
      | cons g outer =>
        rw [isSettled, directed, Bool.false_or, Bool.and_eq_true] at settled
        exact settled.2
    simp [around settled]

/-- The mode of a function where all code has the same mode. -/
theorem isStrictIn_of_hasOneMode {program : Tree} (one : program.HasOneMode) {nesting : List Tree}
    (mem : nesting ∈ program.functionNestings) :
    program.isStrictIn nesting = program.startsDirected := by
  rw [isStrictIn, Bool.or_eq_left_iff_imp]
  intro directed
  obtain ⟨f, hf, directed⟩ := List.any_eq_true.mp directed
  exact one nesting mem f hf directed

end Nestings

end Tree

/-! ## The regime of modes -/

namespace Eval

open Tree Routines

/-- A function of a program with the functions around it; its mode is that of its place, if it is
settled or if all code has the same mode. -/
structure Placed (program : Tree) (c : Closure) (f : Tree) (outer : List Tree) : Prop where
  parts : ∃ l form, f = .node l (.function form c.id c.params c.body)
  inside : f.nestings outer ⊆ program.functionNestings
  mode : isSettled (f :: outer) = true ∨ program.HasOneMode →
    c.strict = program.isStrictIn (f :: outer)

/-- Machines that run code of a program in a mode, and have made functions of the program. The mode is
that of the functions around the code, if the innermost one is settled. -/
def modes (program : Tree) : Regime Bool where
  Holds strict m := m.strict = strict ∧
    (program.HasOneMode → strict = program.startsDirected) ∧
    ∀ (ref : Nat) (c : Closure), m.store.closures[ref]? = some c →
      ∃ f outer, Placed program c f outer
  Runs strict _ t := ∃ outer, t.nestings outer ⊆ program.functionNestings ∧
    (isSettled outer = true → strict = program.isStrictIn outer)

section Steps

variable {program : Tree} {strict : Bool}

/-- What makes no functions keeps the modes. -/
theorem modes_changeGet {α : Type} {f : Store → α × Store}
    (same : ∀ s, (f s).2.closures = s.closures) : (modes program).Keeps strict (changeGet f) :=
  .changeGet fun m hm => ⟨hm.1, hm.2.1, fun ref c made => hm.2.2 ref c (same m.store ▸ made)⟩

/-- Declaring a name does not change the mode. -/
theorem modes_declare (env : Nat) (x : Text) (v : Value) :
    (modes program).Keeps strict (change fun s => s.declare env x v) :=
  .change fun _ hm => hm

/-- Setting a name does not change the mode. -/
theorem modes_writeName (env : Nat) (name : Tree) (l : Option Location) (v : Value) :
    (modes program).Keeps strict (writeName env name l v) := by
  refine (Regime.keeps_keyOf name).bind fun key => Always.bind (modes_changeGet fun s => ?_)
    fun bound => .ite (fun _ => .pure _) fun _ => .get fun m _ =>
      .ite (fun _ => Regime.keeps_fail _) fun _ => .change fun _ hm => hm
  unfold Store.assign
  split <;> rfl

/-- A function is made strict if the code that runs is, or if it starts with the directive. -/
theorem modes_makeFunction {l : Option Location} {form : FunctionForm} {id params body f : Tree}
    (parts : f = .node l (.function form id params body)) {outer : List Tree}
    (inside : f.nestings outer ⊆ program.functionNestings)
    (mode : isSettled (f :: outer) = true →
      (strict || f.isDirected) = program.isStrictIn (f :: outer)) (env : Nat) :
    (modes program).Keeps strict (makeFunction env id params body) := by
  have listed : f :: outer ∈ program.functionNestings := by
    refine inside ?_
    rw [parts, nestings_function]
    exact List.mem_cons_self
  -- A new closure is at its place in the program, and its mode is that of its nesting.
  have made : (modes program).Keeps strict (Value.function <$> changeGet fun s =>
      s.newClosure ⟨id, params, body, env, strict || f.isDirected⟩) := by
    refine .map _ (.changeGet fun m hm => ?_)
    obtain ⟨now, one, placed⟩ := hm
    refine ⟨now, one, fun ref c found => ?_⟩
    simp only [Store.newClosure, Array.getElem?_push] at found
    split at found
    · cases found
      refine ⟨f, outer, ⟨l, form, parts⟩, inside, Or.rec mode fun same => ?_⟩
      rw [isStrictIn_of_hasOneMode same listed, one same, Bool.or_eq_left_iff_imp]
      exact same _ listed f List.mem_cons_self
    · exact placed ref c found
  refine Always.attempt_bind (fun _ => trivial) fun statements found => .get fun m hm => ?_
  have directed : f.isDirected = (statements.startsStrict.toOption).getD false := by
    rw [parts, isDirected, startsDirected, found]
    rfl
  -- Strict code makes strict functions; otherwise the directive of the function decides.
  rw [hm.1]
  cases strict with
  | true => exact made
  | false =>
    refine Always.attempt_bind (fun _ => trivial) fun starts told => ?_
    rw [directed, told] at made
    exact made

/-- The functions of a body are declared in the mode of the code that enters it. -/
theorem modes_hoist {env : Nat} {body : Tree} {outer : List Tree}
    (inside : body.nestings outer ⊆ program.functionNestings)
    (mode : ∀ f : Tree, f.isExpression = false → isSettled (f :: outer) = true →
      (strict || f.isDirected) = program.isStrictIn (f :: outer)) :
    (modes program).Keeps strict (hoist env body) := by
  refine Regime.keeps_congruent.hoist (modes_declare env) (fun name => ?_)
    fun found hoists f hf l form id params inner parts => ?_
  · refine (Regime.keeps_keyOf name).bind fun key => .change fun m hm => ?_
    split
    · exact hm
    · exact hm
  · obtain ⟨⟨_, _, _, _, declared⟩, within⟩ :=
      (heritable_nestings outer _).hoisted inside hoists hf
    exact modes_makeFunction parts within (mode f (declared ▸ rfl)) env

/-- A call changes the mode while its body runs. -/
theorem modes_inCall {strict' : Bool} {x : Eval Unit} (h : (modes program).Keeps strict' x)
    (one : program.HasOneMode → strict' = program.startsDirected) :
    (modes program).Keeps strict (inCall strict' x) :=
  Always.inCall (fun _ hm => ⟨rfl, one, hm.2.2⟩)
    (fun _ _ hm after => ⟨hm.1, hm.2.1, after.2.2⟩) (fun _ _ _ => trivial) h

end Steps

/-- The modes of functions are kept by what each step of an evaluation does. -/
theorem lawful_modes (program : Tree) : (modes program).Lawful where
  untouched h same := ⟨same.strict.trans h.1, h.2.1, fun ref c made =>
    h.2.2 ref c (same.closures ▸ made)⟩
  item runs row mem := by
    obtain ⟨outer, inside, mode⟩ := runs
    exact ⟨outer, List.Subset.trans (nestings_item row mem) inside, mode⟩
  field _ runs inert found := by
    obtain ⟨outer, inside, mode⟩ := runs
    exact ⟨outer, List.Subset.trans (nestings_field inert found) inside, mode⟩
  declared {strict env t u} runs found := by
    obtain ⟨outer, inside, mode⟩ := runs
    refine ⟨outer, List.Subset.trans ?_ inside, mode⟩
    -- The functions in the name of a function are among its own.
    by_cases inert : t.isFunction = false
    · exact nestings_field inert found
    · cases t with
      | node l shape =>
        cases shape with
        | function form id params body =>
          cases found
          rw [nestings_function, List.append_assoc]
          exact List.subset_cons_of_subset _ (List.subset_append_left _ _)
        | _ => exact absurd rfl inert
      | _ => exact absurd rfl inert
  writeName {_ env _} _ name l v := modes_writeName env name l v
  function {strict env l id params body} runs := by
    obtain ⟨outer, inside, mode⟩ := runs
    have made (env : Nat) : (modes program).Keeps strict (makeFunction env id params body) :=
      modes_makeFunction rfl inside (isStrictIn_settled mode) env
    refine .ite (fun _ => made env) fun _ => ?_
    refine Always.bind (modes_changeGet fun s => rfl) fun own => (made own).bind fun f => ?_
    exact (Regime.keeps_nameOf id).bind fun name => (Regime.keeps_keyOf name).bind fun key =>
      (modes_declare own key f).bind fun _ => .pure f
  enter {strict m ref c} h made r upheld args := by
    obtain ⟨f, outer, ⟨l, form, parts⟩, inside, mode⟩ := h.2.2 ref c made
    have listed : f :: outer ∈ program.functionNestings := by
      refine inside ?_
      rw [parts, nestings_function]
      exact List.mem_cons_self
    have one (same : program.HasOneMode) : c.strict = program.startsDirected :=
      (mode (.inr same)).trans (isStrictIn_of_hasOneMode same listed)
    have body : c.body.nestings (f :: outer) ⊆ program.functionNestings := by
      refine List.Subset.trans ?_ inside
      rw [parts, nestings_function]
      exact List.subset_cons_of_subset _ (List.subset_append_right _ _)
    refine (Always.bind (modes_changeGet fun s => rfl) fun env => ?_) m h
    refine (Regime.keeps_attempt _).bind fun params => ?_
    refine Always.bind (Regime.keeps_congruent.bindParameters (modes_declare env) params args)
      fun _ => ?_
    refine Always.attempt_bind (fun _ => trivial) fun statements found => ?_
    obtain ⟨inner, within, around⟩ := nestings_body (f :: outer) found
    have within := List.Subset.trans within body
    refine (modes_hoist within fun g declared settled => ?_).bind fun _ => modes_inCall ?_ one
    · -- There is a function around this one, so only the directive can have settled it.
      have directed : g.isDirected = true := by
        rcases around with rfl | ⟨rfl, -⟩
        · simpa [isSettled, declared] using settled
        · simpa [isSettled, declared] using settled
      simp [isStrictIn, directed]
    · refine Always.attempt_bind (fun _ => trivial) fun ts row => ?_
      refine .forM fun t ht => upheld.execute
        ⟨inner, List.Subset.trans (nestings_item row ht) within, ?_⟩
      intro settled
      rcases around with rfl | ⟨rfl, undirected⟩
      · exact mode (.inl settled)
      · have plain := undirected ts row
        rw [isSettled, plain, Bool.false_or, Bool.and_eq_true] at settled
        rw [mode (.inl settled.2)]
        simp [isStrictIn, plain]

/-- A program runs in its own mode. -/
theorem modes_run (limit fuel : Nat) (program : Tree) :
    (modes program).Holds program.startsDirected
      ((Interpreter.new limit).run program fuel).2.machine := by
  have start : (modes program).Holds program.startsDirected
      ⟨.initial, 0, program.startsDirected⟩ :=
    ⟨rfl, fun _ => rfl, nofun⟩
  suffices ended : Ended ((modes program).Holds program.startsDirected) (fun _ => True)
      (runProgram limit fuel program ⟨.initial, 0, false⟩) from Ended.performed ended
  have lawful := lawful_modes program
  have upheld := lawful.upheld limit fuel
  cases found : program.field "body" with
  | error x =>
    -- What has no body is refused before the mode is set, and has no directives either.
    have refused : runProgram limit fuel program ⟨.initial, 0, false⟩ =
        .error (.failed (.malformed x)) ⟨.initial, 0, false⟩ := by
      unfold runProgram
      rw [found]
      rfl
    have sloppy : program.startsDirected = false := by rw [startsDirected, found]; rfl
    rw [sloppy] at start
    rw [refused, sloppy]
    exact .error start trivial
  | ok body =>
    have nestings : program.functionNestings = body.nestings [] := by rw [functionNestings, found]
    have mode : program.startsDirected = (body.startsStrict.toOption).getD false := by
      rw [startsDirected, found]
      rfl
    cases told : body.startsStrict with
    | error x =>
      have refused : runProgram limit fuel program ⟨.initial, 0, false⟩ =
          .error (.failed (.malformed x)) ⟨.initial, 0, false⟩ := by
        unfold runProgram
        rw [found]
        change (attempt body.startsStrict >>= _) _ = _
        rw [told]
        rfl
      rw [told] at mode
      have sloppy : program.startsDirected = false := mode
      rw [sloppy] at start
      rw [refused, sloppy]
      exact .error start trivial
    | ok strict =>
      have entered : runProgram limit fuel program ⟨.initial, 0, false⟩ = (do
          let statements ← attempt body.items
          hoist Store.globalEnvironment body
          guarded (statements.foldlM (runStatement limit fuel) .undefined)
            : Eval Value) ⟨.initial, 0, strict⟩ := by
        unfold runProgram
        rw [found]
        change (attempt body.startsStrict >>= _) _ = _
        rw [told]
        rfl
      rw [told] at mode
      have mode : program.startsDirected = strict := mode
      rw [mode] at start
      rw [entered, mode]
      refine (?_ : (modes program).Keeps strict _) _ start
      -- Around the statements there is no function yet.
      have around : isSettled [] = true → strict = program.isStrictIn [] := fun _ => by
        simp [isStrictIn, mode]
      have inside : body.nestings [] ⊆ program.functionNestings := nestings ▸ List.Subset.refl _
      refine Always.attempt_bind (fun _ => trivial) fun statements row => ?_
      refine (modes_hoist inside fun f _ => isStrictIn_settled around).bind fun _ =>
        Always.guarded (.foldlM fun t ht v => ?_) trivial
      have runs : (modes program).Runs strict Store.globalEnvironment t :=
        ⟨[], List.Subset.trans (nestings_item row ht) inside, around⟩
      unfold runStatement
      split
      · exact upheld.evaluate (lawful.field "expression" runs rfl rfl)
      · exact (upheld.execute runs).bind fun _ => .pure v

end Eval

namespace Interpreter

open Tree Eval

/-- Strict mode is lexical, as far as functions are settled. Whatever has been asked of an
interpreter that has run a program, each function that it has made is one of the program's; and if
the function is settled, or if all code of the program has the same mode, then it is strict exactly
if the program, the function itself or one of the functions around it starts with the directive. -/
theorem strict_iff_of_leads {limit : Nat} {program : Tree} {r : Except Interrupt Value}
    {i : Interpreter} (leads : Leads limit program (r, i)) {ref : Nat} {c : Closure}
    (made : i.machine.store.closures[ref]? = some c) :
    ∃ l form outer, .node l (.function form c.id c.params c.body) :: outer ∈
        program.functionNestings ∧
      (isSettled (.node l (.function form c.id c.params c.body) :: outer) = true ∨
          program.HasOneMode →
        (c.strict = true ↔ program.startsDirected = true ∨
          ∃ f ∈ .node l (.function form c.id c.params c.body) :: outer, f.isDirected = true)) := by
  have holds := (lawful_modes program).leads (modes_run limit · program) leads
  obtain ⟨f, outer, ⟨l, form, rfl⟩, inside, mode⟩ := holds.2.2 ref c made
  refine ⟨l, form, outer, inside ?_, fun told => ?_⟩
  · rw [nestings_function]
    exact List.mem_cons_self
  · rw [mode told, isStrictIn, Bool.or_eq_true, List.any_eq_true]

/-- A strict function `f` whose calls make a function `g`, which sets a global variable, and one such
call. -/
def makesStrict : Tree :=
  Tree.new (.program (.tuple [
    Tree.new (.function .declaration (.identifier "f") (.tuple [])
      (.block [
        Tree.new (.expressionStatement (Tree.new (.literal (.text strictDirective)))),
        Tree.new (.returnStatement (Tree.new (.function .expression (.identifier "g") (.tuple [])
          (.block [Tree.new (.expressionStatement (Tree.assign "y" (.identifier "x")))]))))])),
    Tree.new (.expressionStatement (Tree.new (.call (.identifier "f") (.tuple []))))]))

/-- The function `g` has no directive, but it is an expression in `f`, which has one. So it is strict,
although the program is not. -/
theorem strict_iff_of_leads_makesStrict :
    ∃ r i c, Leads 5 makesStrict (r, i) ∧ i.machine.store.closures[1]? = some c ∧
      ¬makesStrict.HasOneMode ∧ makesStrict.functionNestings.all isSettled = true ∧
      c.strict = true ∧
      ∃ l form outer, .node l (.function form c.id c.params c.body) :: outer ∈
          makesStrict.functionNestings ∧
        (c.strict = true ↔ makesStrict.startsDirected = true ∨
          ∃ f ∈ .node l (.function form c.id c.params c.body) :: outer, f.isDirected = true) := by
  have leads : Leads 5 makesStrict ((new 5).run makesStrict 20) := .run 20
  have size : 1 < ((new 5).run makesStrict 20).2.machine.store.closures.size := by decide +kernel
  have made := Array.getElem?_eq_getElem size
  have settled : makesStrict.functionNestings.all isSettled = true := by decide +kernel
  have strict : ((new 5).run makesStrict 20).2.machine.store.closures[1]?.map (·.strict) =
      some true := by
    decide +kernel
  rw [made] at strict
  -- The program is made strict by one function only, so that it has no one mode.
  refine ⟨_, _, _, leads, made, fun one => ?_, settled, Option.some.inj strict, ?_⟩
  · have sloppy : makesStrict.startsDirected = false := by decide +kernel
    obtain ⟨nesting, listed, f, hf, directed⟩ : ∃ nesting ∈ makesStrict.functionNestings,
        ∃ f ∈ nesting, f.isDirected = true :=
      ⟨_, List.mem_cons_self, _, List.mem_cons_self, by decide +kernel⟩
    rw [one nesting listed f hf directed] at sloppy
    cases sloppy
  · obtain ⟨l, form, outer, listed, told⟩ := strict_iff_of_leads leads made
    exact ⟨l, form, outer, listed, told (.inl (List.all_eq_true.mp settled _ listed))⟩

/-- A strict function `f` that declares a function `g`, which sets a global variable. -/
def declaresInStrict : Tree :=
  Tree.new (.program (.tuple [
    Tree.new (.function .declaration (.identifier "f") (.tuple [])
      (.block [
        Tree.new (.expressionStatement (Tree.new (.literal (.text strictDirective)))),
        Tree.new (.function .declaration (.identifier "g") (.tuple [])
          (.block [Tree.new (.expressionStatement (Tree.assign "y" (.identifier "x")))]))]))]))

/-- A function declared in another one takes the mode of the code that calls. All functions of the
program are `f` or in `f`, which starts with the directive, but a call of `f` from outside makes a `g`
that is not strict. -/
theorem strict_eq_false_of_leads_declaresInStrict :
    (∀ nesting ∈ declaresInStrict.functionNestings, ∃ f ∈ nesting, f.isDirected = true) ∧
      ∃ r i, Leads 200 declaresInStrict (r, i) ∧
        i.machine.store.closures.any (fun c => !c.strict) = true := by
  have leads : Leads 200 declaresInStrict
      (((new 200).run declaresInStrict 20).2.answer 20 (.call "f" [])) :=
    .answer (.run 20) 20 (.call "f" [])
  have directed : declaresInStrict.functionNestings.all (fun nesting => nesting.any isDirected) =
      true := by
    decide +kernel
  refine ⟨fun nesting listed => ?_, _, _, leads, by decide +kernel⟩
  exact List.any_eq_true.mp (List.all_eq_true.mp directed nesting listed)

end Interpreter

end TailLoop
