import TailLoop.Proofs.Interpreter.Outcomes
import TailLoop.Proofs.Simulation.Sessions

/-!
# Valid programs are safe to run

A program that the check accepts is never left by a `break` or `continue`, never comes to a node
that cannot be run or evaluated, and never to an operator that is not in the table, neither while it
runs nor while its functions are called (`strays_eq_false_of_leads`). The check looks at jumps by
the labels and loops around them, and the evaluation takes them up by labeled statements and passes
of loops: the proof shows that what leaves a statement is a jump to one of its targets (`Within`),
one case for each form of statement, by induction on the fuel.

Calls are the reason for an invariant of the store: every function that has been made is well-formed
(`Sound`), with no targets around its body, so that no jump leaves it.
-/

namespace TailLoop

/-! ## Functions that hoisting finds -/

namespace Tree

/-- The functions of several collections are those of each of them. -/
theorem mem_concat_functions {ds : List Declarations} {f : Tree} :
    f ∈ (Declarations.concat ds).functions ↔ ∃ d ∈ ds, f ∈ d.functions := by
  induction ds with
  | nil => simp [Declarations.concat, Declarations.empty]
  | cons d ds ih =>
    change f ∈ d.functions ++ (Declarations.concat ds).functions ↔ _
    simp [ih]

/-- What a row of outcomes gives comes from one of its items. -/
theorem mem_of_mapM_id {α β : Type} {f : α → Except Fault β} {l : List α} {bs : List β} {b : β}
    (h : (l.map f).mapM id = .ok bs) (hb : b ∈ bs) : ∃ a ∈ l, f a = .ok b := by
  -- By induction on the list, as the results are listed in its order.
  induction l generalizing bs with
  | nil =>
    cases h
    cases hb
  | cons a l ih =>
    rw [List.map_cons, List.mapM_cons, id] at h
    cases first : f a with
    | error e => rw [first] at h; cases h
    | ok b' =>
      rw [first] at h
      cases others : (l.map f).mapM id with
      | error e => rw [others] at h; cases h
      | ok rest =>
        rw [others] at h
        cases h
        rcases List.mem_cons.mp hb with rfl | hb
        · exact ⟨a, List.mem_cons_self, first⟩
        · obtain ⟨a', ha, found⟩ := ih others hb
          exact ⟨a', List.mem_cons_of_mem a ha, found⟩

/-- What is hoisted below a node is what is hoisted from its parts, in order. -/
theorem hoistedBelow_parts (shape : Shape Tree) : hoistedBelow shape =
    ((shape.parts.map hoisted).mapM id).map Declarations.concat := by
  rw [Shape.parts, List.map_map]
  rfl

/-- Hoisting finds only well-formed functions in a tree. -/
def HoistsCode (checked : Bool) (t : Tree) : Prop :=
  ∀ found, t.hoisted = .ok found → ∀ f ∈ found.functions, Validity.WellFormed checked {} f

/-- If every part hoists well-formed functions only, so do the parts together. -/
theorem HoistsCode.of_parts {checked : Bool} {parts : List Tree} {found : Declarations}
    (h : ((parts.map hoisted).mapM id).map Declarations.concat = .ok found)
    (each : ∀ u ∈ parts, u.HoistsCode checked) :
    ∀ f ∈ found.functions, Validity.WellFormed checked {} f := by
  cases ds : (parts.map hoisted).mapM id with
  | error e => rw [ds] at h; cases h
  | ok ds' =>
    rw [ds] at h
    cases h
    intro f hf
    obtain ⟨d, hd, hf⟩ := mem_concat_functions.mp hf
    obtain ⟨u, hu, found⟩ := mem_of_mapM_id ds hd
    exact each u hu d found f hf

/-- A row hoists what its items hoist. -/
theorem HoistsCode.tuple {checked : Bool} {items : List Tree}
    (h : ∀ u ∈ items, u.HoistsCode checked) : (Tree.tuple items).HoistsCode checked := by
  intro found hf
  rw [hoisted, fold, foldItems_eq_map] at hf
  exact of_parts hf h

/-- A node that hoists nothing of its own hoists what its parts hoist. -/
theorem HoistsCode.inert {checked : Bool} {l : Option Location} {shape : Shape Tree}
    (inert : Inert (.node l shape)) (h : ∀ u ∈ shape.parts, u.HoistsCode checked) :
    (Tree.node l shape).HoistsCode checked := by
  intro found hf
  rw [hoisted_inert inert, hoistedBelow_parts] at hf
  exact of_parts hf h

end Tree

namespace Validity

open Tree

/-- That only well-formed functions are hoisted passes from the parts to the whole. -/
theorem byParts_hoistsCode {checked : Bool} : ByParts checked (HoistsCode checked) where
  plain {t} h found hf := by
    cases t with
    | null | bool | int | num | text =>
      cases hf
      exact nofun
    | _ => cases h
  tuple h := .tuple h
  inert {l shape} inert _ h := by
    refine .inert ?_ h
    cases shape with
    | program | function | variableDeclarator => cases inert
    | _ => exact ⟨rfl, rfl⟩
  declarator {l id init} name h found hf := by
    -- A declarator hoists its name, and what its initial value does.
    obtain ⟨li, spelled⟩ := name
    rename_i x
    have id : (Tree.node li (.identifier (.text x))).HoistsCode checked := by
      intro d hd
      cases hd
      exact nofun
    rw [hoisted_declarator] at hf
    cases below : hoistedBelow (.variableDeclarator (.node li (.identifier (.text x))) init) with
    | error e => rw [below] at hf; cases hf
    | ok rest =>
      rw [below] at hf
      cases hf
      rw [hoistedBelow_parts] at below
      have found := HoistsCode.of_parts below (forall₂ id h)
      exact found
  program wf h := .inert ⟨rfl, rfl⟩ (forall₁ (.tuple h))
  function {c l lb form id ps ss} wf h found hf := by
    cases form with
    | expression =>
      cases hf
      exact nofun
    | declaration =>
      cases hf
      refine List.forall_mem_singleton.mpr ?_
      cases wf with
      | function named name params kinds parts => exact .function named name params kinds parts

/-- Hoisting finds only well-formed functions in well-formed statements. -/
theorem hoistsCode_of_wellFormed {checked : Bool} {c : Targets} {ss : List Tree}
    (h : ∀ s ∈ ss, WellFormed checked c s) : (Tree.tuple ss).HoistsCode checked :=
  .tuple fun s hs => (h s hs).byParts byParts_hoistsCode

end Validity

namespace Eval

open Validity Simulation

/-! ## Machines with well-formed functions -/

/-- Every function that has been made is well-formed. -/
def Sound (m : Machine) : Prop :=
  ∀ c ∈ m.store.closures,
    ∃ l form, WellFormed true {} (.node l (.function form c.id c.params c.body))

/-- What interrupts an expression: an error of the running program, or the lack of fuel. -/
def Stops : Interrupt → Prop
  | .failed error => error.isRefusal = false
  | .exhausted => True
  | _ => False

/-- What interrupts a statement with the given targets around it: besides errors these are a
`return`, and jumps to one of the targets. -/
def Within (c : Targets) : Interrupt → Prop
  | .returned _ => True
  | .broke label => Catches c .breaks label
  | .continued label => Catches c .continues label
  | .failed error => error.isRefusal = false
  | .exhausted => True

/-- What stops code everywhere leaves a statement, whatever its targets are. -/
theorem within_of_stops {c : Targets} (e : Interrupt) (h : Stops e) : Within c e := by
  cases e with
  | failed error => exact h
  | exhausted => trivial
  | _ => cases h

/-- Code that is only stopped leaves a statement as its targets allow. -/
theorem Always.within {α : Type} {c : Targets} {act : Eval α} (h : Always Sound Stops act) :
    Always Sound (Within c) act :=
  h.widen within_of_stops

/-- Plain evaluations make no functions. -/
theorem stops_of_plain {α : Type} {act : Eval α} (h : ∀ m, Plain m act) :
    Always Sound Stops act := by
  intro m sound
  have done := h m m ⟨rfl, rfl, rfl, rfl⟩
  have keeps {m' : Machine} (same : Untouched m m') : Sound m' := by
    intro c hc
    rw [same.closures] at hc
    exact sound c hc
  generalize act m = r at done ⊢
  cases done with
  | ok same => exact .ok (keeps same)
  | @error e _ same regular =>
    refine .error (keeps same) ?_
    cases e with
    | failed error => exact regular
    | _ => cases regular

/-! ## Functions and variables -/

/-- A function that is made of well-formed code keeps the functions of the machine well-formed. -/
theorem stops_makeFunction (env : Nat) {id params body : Tree}
    (code : ∃ l form, WellFormed true {} (.node l (.function form id params body))) :
    Always Sound Stops (makeFunction env id params body) := by
  have made (strict : Bool) : Always Sound Stops
      (Value.function <$> changeGet fun s => s.newClosure ⟨id, params, body, env, strict⟩) := by
    refine .map _ (.changeGet fun m sound c hc => ?_)
    rcases Array.mem_push.mp hc with hc | rfl
    · exact sound c hc
    · exact code
  refine (stops_of_plain fun _ => plain_attempt _).bind fun statements => .get fun m _ => ?_
  split
  · exact made true
  · exact (stops_of_plain fun _ => plain_attempt _).bind made

/-- Declaring a name does not touch the functions. -/
theorem stops_declare (env : Nat) (name : Text) (v : Value) :
    Always Sound Stops (change fun s => s.declare env name v) :=
  .change fun _ sound => sound

/-- Setting a name does not touch the functions. -/
theorem stops_writeName (env : Nat) (name : Tree) (l : Option Location) (v : Value) :
    Always Sound Stops (writeName env name l v) := by
  refine (stops_of_plain fun _ => plain_keyOf name).bind fun key => ?_
  refine Always.bind (.changeGet fun m sound => ?_) fun bound => ?_
  · unfold Store.assign
    split
    · exact sound
    · exact sound
  · refine .ite (fun _ => .pure _) fun _ => .get fun m _ => .ite (fun _ => .fail rfl) fun _ => ?_
    exact .change fun _ sound => sound

/-- Declaring a variable does not touch the functions. -/
theorem stops_declareVariable (env : Nat) (name : Tree) :
    Always Sound Stops (declareVariable env name) := by
  refine (stops_of_plain fun _ => plain_keyOf name).bind fun key => .change fun m sound => ?_
  split
  · exact sound
  · exact sound

/-- A fault of the program is an error like any other. -/
theorem congruent_stops : Congruent fun {_} x _ => Always Sound Stops x :=
  Always.congruent fun _ => rfl

/-- Entering a body makes its functions, which are well-formed. -/
theorem stops_hoist (env : Nat) {body : Tree} (code : body.HoistsCode true) :
    Always Sound Stops (hoist env body) :=
  congruent_stops.hoist (stops_declare env) (stops_declareVariable env)
    fun found hf f hf' l form _ _ _ parts => stops_makeFunction env
      ⟨l, form, parts ▸ code found hf f hf'⟩

/-! ## Where jumps are taken up -/

/-- No jump leaves a call. -/
theorem stops_inCall {strict : Bool} {body : Eval Unit} (h : Always Sound (Within {}) body) :
    Always Sound Stops (inCall strict body) := by
  refine Always.inCall (fun _ sound => sound) (fun _ _ _ keeps => keeps) (fun e other why => ?_) h
  cases e with
  | returned v => exact (other v rfl).elim
  | broke label => exact (not_catches_none why).elim
  | continued label => exact (not_catches_none why).elim
  | failed error => exact why
  | exhausted => exact trivial

section Jumps

variable {c c' : Targets} {labels : List Text}

/-- A loop takes up the jumps to itself. -/
theorem within_pass {body : Eval Unit} (around : LabeledBy labels true c c')
    (h : Always Sound (Within c'.inBody) body) : Always Sound (Within c) (pass labels body) := by
  intro m sound
  have inner := h m sound
  unfold pass
  -- The loop takes up the jumps that concern it; all others go on outwards, where they are caught.
  generalize body m = r at inner ⊢
  cases inner with
  | ok keeps => exact .ok keeps
  | @error e m' keeps why =>
    cases e with
    | returned v => exact .error keeps trivial
    | failed error => exact .error keeps why
    | exhausted => exact .error keeps trivial
    | broke label | continued label =>
      simp only
      cases found : concerns labels label with
      | error fault => exact .error keeps rfl
      | ok mine =>
        cases mine with
        | true => exact .ok keeps
        | false => exact .error keeps (Catches.outward why around found)

/-- A jump that a labeled statement does not take up is for something around it, if it continues a
loop or has another label. -/
theorem Catches.outside {kind : JumpKind} {label : Tree} (h : Catches c' kind label)
    (around : LabeledBy labels false c c')
    (other : kind = .continues ∨ label.key.map labels.contains = .ok false) :
    Catches c kind label := by
  rcases h with ⟨rfl, inLoop⟩ | ⟨name, rfl, onLoop, reached, onTarget⟩
  · exact .inl ⟨rfl, around.inLoop ▸ inLoop⟩
  · have outside : name ∉ labels := by
      intro inside
      rcases other with rfl | other
      · rw [around.own rfl name inside] at reached
        cases reached
        exact onTarget.elim nofun nofun
      · simp [Tree.key, Except.map, inside] at other
    exact .inr ⟨name, rfl, onLoop, (around.others name outside).symm.trans reached, onTarget⟩

/-- A labeled statement that is no loop takes up a `break` with its label. -/
theorem within_labeled {body : Eval Unit} (around : LabeledBy labels false c c')
    (h : Always Sound (Within c') body) : Always Sound (Within c) (labeled labels body) := by
  intro m sound
  have inner := h m sound
  unfold labeled
  generalize body m = r at inner ⊢
  -- The label takes up a `break` of its own; all other jumps go on outwards.
  cases inner with
  | ok keeps => exact .ok keeps
  | @error e m' keeps why =>
    cases e with
    | returned v => exact .error keeps trivial
    | failed error => exact .error keeps why
    | exhausted => exact .error keeps trivial
    | continued label => exact .error keeps (Catches.outside why around (.inl rfl))
    | broke label =>
      simp only
      cases found : label.key.map labels.contains with
      | error fault => exact .error keeps rfl
      | ok mine =>
        cases mine with
        | true => exact .ok keeps
        | false => exact .error keeps (Catches.outside why around (.inr found))

end Jumps

/-! ## Operators -/

/-- The operators of the table are those that the interpreter knows. -/
theorem isSome_ofText? : ∀ op ∈ BinaryOperator.table.map (·.2.1),
    (BinaryOperator.ofText? op).isSome = true := by decide

/-- An operator of assignment is the plain one, or one of the table with a sign after it. -/
theorem isSome_compound : ∀ op ∈ assignmentSpellings,
    op = plainAssignment ∨ (BinaryOperator.ofText? op.dropLast).isSome = true := by decide

/-- A known operator is found. -/
theorem stops_operatorOf {op : Text} (known : (BinaryOperator.ofText? op).isSome = true) :
    Always Sound Stops (operatorOf (.text op)) := by
  obtain ⟨operator, found⟩ := Option.isSome_iff_exists.mp known
  rw [operatorOf, keyOf_text, pure_bind, found]
  exact .pure operator

/-! ## Evaluation with less fuel -/

/-- What holds of evaluations with the given fuel. -/
structure Safe (limit fuel : Nat) : Prop where
  evaluate (env : Nat) {c : Targets} {t : Tree} (kind : t.isExpression = true)
    (wf : WellFormed true c t) : Always Sound Stops (evaluate limit fuel env t)
  propertyKey (env : Nat) {property computed : Tree} (key : computed.truthy = true →
    property.isExpression = true ∧ ∃ c, WellFormed true c property) :
    Always Sound Stops (propertyKey limit fuel env property computed)
  assignTo (env : Nat) {c : Targets} {t : Tree} (target : t.isAssignable = true)
    (wf : WellFormed true c t) (v : Value) : Always Sound Stops (assignTo limit fuel env t v)
  call (f : Value) (args : List Value) : Always Sound Stops (call limit fuel f args)
  startVariable (env : Nat) {c : Targets} {t : Tree} (kind : t.hasKind .variableDeclarator = true)
    (wf : WellFormed true c t) : Always Sound Stops (startVariable limit fuel env t)
  declare (env : Nat) {c : Targets} {t : Tree} (kind : t.hasKind .variableDeclaration = true)
    (wf : WellFormed true c t) : Always Sound Stops (execute limit fuel env t)
  execute (env : Nat) {c : Targets} {t : Tree} (kind : t.isStatement = true)
    (wf : WellFormed true c t) : Always Sound (Within c) (execute limit fuel env t)
  executeLabeled (env : Nat) {c c' : Targets} {t : Tree} {labels : List Text}
    (kind : t.isStatement = true) (around : LabeledBy labels (isLoop t) c c')
    (wf : WellFormed true c' t) : Always Sound (Within c) (executeLabeled limit fuel env labels t)
  executeLoop (env : Nat) {c c' : Targets} {t : Tree} {labels : List Text}
    (loop : isLoop t = true) (around : LabeledBy labels true c c')
    (wf : WellFormed true c' t) : Always Sound (Within c) (executeLoop limit fuel env labels t)

section Steps

variable {limit fuel : Nat} (safe : Safe limit fuel) (env : Nat) {c c' : Targets} {t : Tree}

include safe

/-- A member is read or stored by evaluating its object and its key, which are expressions. -/
theorem stops_member {l : Option Location} {object property computed : Tree}
    (wf : WellFormed true c (.node l (.member object property computed))) {α : Type}
    {next : Value → Value → Eval α} (then_ : ∀ owner key, Always Sound Stops (next owner key)) :
    Always Sound Stops (do
      let owner ← evaluate limit fuel env object
      let key ← propertyKey limit fuel env property computed
      next owner key) := by
  cases wf with
  | member kind part name =>
    exact (safe.evaluate env kind part).bind fun owner =>
      (safe.propertyKey env (by exact nofun)).bind fun key => then_ owner key
  | computedMember kind part keyKind keyPart =>
    exact (safe.evaluate env kind part).bind fun owner =>
      (safe.propertyKey env fun _ => ⟨keyKind, _, keyPart⟩).bind fun key => then_ owner key

/-- What is assigned to is a name or a member. -/
theorem stops_assignTo (target : t.isAssignable = true) (wf : WellFormed true c t) (v : Value) :
    Always Sound Stops (assignTo limit (fuel + 1) env t v) := by
  obtain ⟨l, name, rfl⟩ | ⟨l, object, property, computed, rfl⟩ := eq_of_isAssignable target
  · rw [assignTo]
    exact stops_writeName env name l v
  · rw [assignTo]
    exact stops_member safe env wf fun owner key =>
      (stops_of_plain fun _ => plain_setProperty l owner key v)

/-- The key of a member is the text of its name, or an expression. -/
theorem stops_propertyKey {property computed : Tree} (key : computed.truthy = true →
    property.isExpression = true ∧ ∃ c, WellFormed true c property) :
    Always Sound Stops (propertyKey limit (fuel + 1) env property computed) := by
  rw [propertyKey]
  refine .ite (fun truthy => ?_) fun _ => ?_
  · obtain ⟨kind, c, wf⟩ := key truthy
    exact safe.evaluate env kind wf
  · exact stops_of_plain fun _ => (plain_nameOf property).bind fun name => plain_ofTree name

/-- An expression is only stopped: no jump leaves it, as it holds statements in functions only. -/
theorem stops_evaluate (expression : t.isExpression = true) (wf : WellFormed true c t) :
    Always Sound Stops (evaluate limit (fuel + 1) env t) := by
  -- By the form of the expression: jumps do not come out of expressions, whose parts are evaluated
  -- one after the other.
  cases wf with
  | @identifier _ l name spelled =>
    rw [evaluate]
    exact stops_of_plain fun _ => plain_readName env _ l
  | @literal _ l value plain =>
    rw [evaluate]
    exact stops_of_plain fun _ => plain_literalOf l value
  | array kinds parts =>
    simp only [evaluate, Tree.items, attempt, pure_bind]
    exact Always.bind (.mapM fun e he => safe.evaluate env (kinds e he) (parts e he)) fun vs =>
      (stops_of_plain fun _ => plain_newArray _)
  | @function _ l form id ps lb ss named name params kinds parts =>
    cases form with
    | declaration => cases expression
    | expression =>
      have made (env : Nat) : Always Sound Stops
          (makeFunction env id (.tuple ps) (.node lb (.block (.tuple ss)))) :=
        stops_makeFunction env ⟨l, .expression, .function named name params kinds parts⟩
      rw [evaluate]
      refine .ite (fun _ => made env) fun _ => ?_
      refine Always.bind (.changeGet fun _ sound => sound) fun own => (made own).bind fun f => ?_
      exact (stops_of_plain fun _ => plain_nameOf id).bind fun name =>
        (stops_of_plain fun _ => plain_keyOf name).bind fun key =>
        (stops_declare own key f).bind fun _ => .pure f
  | call kind part kinds parts =>
    simp only [evaluate, Tree.items, attempt, pure_bind]
    refine (safe.evaluate env kind part).bind fun f => ?_
    refine Always.bind (.mapM fun e he => safe.evaluate env (kinds e he) (parts e he)) fun args => ?_
    exact .ite (fun _ => safe.call f args) fun _ => .fail rfl
  | @member _ l object property kind part name =>
    rw [evaluate]
    exact stops_member safe env (c := c) (l := l) (.member kind part name) fun owner key =>
      (stops_of_plain fun _ => plain_getProperty l owner key)
  | @computedMember _ l object property kind part keyKind keyPart =>
    rw [evaluate]
    exact stops_member safe env (c := c) (l := l) (.computedMember kind part keyKind keyPart)
      fun owner key => (stops_of_plain fun _ => plain_getProperty l owner key)
  | conditional testKind testPart kind part elseKind elsePart =>
    rw [evaluate]
    exact (safe.evaluate env testKind testPart).bind fun v =>
      .ite (fun _ => safe.evaluate env kind part) fun _ => safe.evaluate env elseKind elsePart
  | @assignment _ l op left right known target leftPart kind part =>
    have leftKind := isExpression_of_isAssignable target
    rw [evaluate]
    refine .ite (fun _ => ?_) fun compound => ?_
    · exact (safe.evaluate env kind part).bind fun v =>
        (safe.assignTo env target leftPart v).bind fun _ => .pure v
    · have operator := (isSome_compound op known).resolve_left compound
      exact (safe.evaluate env leftKind leftPart).bind fun a =>
        (stops_operatorOf operator).bind fun op => (safe.evaluate env kind part).bind fun b =>
          Always.bind (.read fun s => regular_operate s op a b) fun v =>
            (safe.assignTo env target leftPart v).bind fun _ => .pure v
  | sequence some kinds parts =>
    simp only [evaluate, Tree.items, attempt, pure_bind]
    exact .foldlM fun e he _ => safe.evaluate env (kinds e he) (parts e he)
  | @binary _ l op left right known leftKind leftPart kind part =>
    rw [evaluate]
    exact (safe.evaluate env leftKind leftPart).bind fun a =>
      (safe.evaluate env kind part).bind fun b =>
        (stops_operatorOf (isSome_ofText? op known)).bind fun op =>
          .read fun s => regular_operate s op a b
  | logical known leftKind leftPart kind part =>
    rw [evaluate]
    exact (safe.evaluate env leftKind leftPart).bind fun a =>
      .ite (fun _ => .pure a) fun _ => safe.evaluate env kind part
  | @unary _ l op argument isPrefix known kind part =>
    rw [evaluate]
    refine (stops_of_plain fun _ => plain_isUnbound env argument).bind fun _ =>
      .ite (fun _ => .pure _) fun _ => ?_
    exact (safe.evaluate env kind part).bind fun v => .read fun s => regular_operateUnary s _ v
  | @update _ l op argument isPrefix known target part =>
    rw [evaluate]
    exact (safe.evaluate env (isExpression_of_isAssignable target) part).bind fun v =>
      (stops_of_plain fun _ => plain_numberOf v).bind fun d =>
        (safe.assignTo env target part _).bind fun _ => .pure _
  | @jump _ _ kind => cases kind <;> cases expression
  | @bareJump _ _ kind => cases kind <;> cases expression
  | @forEach _ _ domain => cases domain <;> cases expression
  | @forEachDeclared _ _ domain => cases domain <;> cases expression
  | _ => cases expression

/-- A call is only stopped, as a jump of its body has a target in the body. -/
theorem stops_call (f : Value) (args : List Value) :
    Always Sound Stops (call limit (fuel + 1) f args) := by
  -- A closure was made from a well-formed function, so that its body is safe.
  cases f with
  | native n =>
    rw [call]
    exact stops_of_plain fun _ => plain_callNative n.action args
  | function ref =>
    simp only [call]
    refine .get fun m sound => .ite (fun _ => .fail rfl) fun _ => ?_
    cases found : m.store.closures[ref]? with
    | none => exact .fail rfl
    | some c =>
      obtain ⟨l, form, wf⟩ := sound c (Array.mem_of_getElem? found)
      obtain ⟨id, params, body, environment, strict⟩ := c
      cases wf with
      | @function _ _ _ _ ps lb ss named name params kinds parts =>
        simp only [Tree.items, Tree.field, attempt, pure_bind]
        refine Always.bind (.changeGet fun _ sound => sound) fun env => ?_
        refine Always.bind (congruent_stops.bindParameters (stops_declare env) ps args) fun _ => ?_
        refine (stops_hoist env (hoistsCode_of_wellFormed parts)).bind fun _ => ?_
        refine stops_inCall (.forM fun s hs => ?_)
        exact safe.execute env (kinds s hs) (parts s hs)
  | _ =>
    simp only [call]
    exact (stops_of_plain fun _ => plain_textOf _).bind fun _ => .fail rfl

/-- Starting a variable evaluates its initial value. -/
theorem stops_startVariable (declarator : t.hasKind .variableDeclarator = true)
    (wf : WellFormed true c t) : Always Sound Stops (startVariable limit (fuel + 1) env t) := by
  obtain ⟨l, id, init, rfl⟩ := Elimination.eq_variableDeclarator declarator
  cases wf with
  | variableDeclarator name kind part =>
    simp only [startVariable]
    refine .attempt_bind (fun _ => rfl) fun _ found => .ite (fun _ => .pure _) fun present => ?_
    cases found
    have present : init.isNull = false := by simpa using present
    refine .attempt_bind (fun _ => rfl) fun id _ => ?_
    refine (safe.evaluate env (kind present) (part present)).bind fun v => ?_
    exact (stops_of_plain fun _ => plain_nameOf id).bind fun name =>
      stops_writeName env name id.location? v

/-- A declaration starts its variables one after the other. -/
theorem stops_declaration (declaration : t.hasKind .variableDeclaration = true)
    (wf : WellFormed true c t) : Always Sound Stops (execute limit (fuel + 1) env t) := by
  obtain ⟨l, ds, kind, rfl⟩ := Elimination.eq_variableDeclaration declaration
  cases wf with
  | variableDeclaration some kinds parts =>
    simp only [execute, Tree.items, attempt, pure_bind]
    exact .forM fun d hd => safe.startVariable env (kinds d hd) (parts d hd)

/-- One case for each form of statement: a jump that leaves it is one that its targets allow. -/
theorem within_execute (statement : t.isStatement = true) (wf : WellFormed true c t) :
    Always Sound (Within c) (execute limit (fuel + 1) env t) := by
  -- Loops are executed with no labels around them.
  cases loop : isLoop t with
  | true =>
    rw [execute_loop loop]
    exact safe.executeLoop env loop (.none true c) wf
  | false =>
  -- By the form of the statement: a jump throws what the targets around it catch.
  cases wf with
  | @function _ l form id ps lb ss named name params kinds parts =>
    cases form with
    | expression => cases statement
    | declaration =>
      rw [execute]
      exact .pure _
  | block kinds parts =>
    simp only [execute, Tree.items, attempt, pure_bind]
    exact .forM fun s hs => safe.execute env (kinds s hs) (parts s hs)
  | @returnStatement _ l argument kind part =>
    rw [execute]
    cases absent : argument.isNull with
    | true => exact .throw trivial
    | false =>
      exact (safe.evaluate env (kind absent) (part absent)).within.bind fun v => .throw trivial
  | variableDeclaration some kinds parts =>
    exact (stops_declaration safe env (c := c) rfl (.variableDeclaration some kinds parts)).within
  | @ifStatement _ l test consequent alternate testKind testPart kind part elseKind elsePart =>
    rw [execute]
    refine (safe.evaluate env testKind testPart).within.bind fun v => ?_
    refine .ite (fun _ => safe.execute env kind part) fun _ => ?_
    refine .ite (fun _ => .pure _) fun present => ?_
    have present : alternate.isNull = false := by simpa using present
    exact safe.execute env (elseKind present) (elsePart present)
  | expressionStatement kind part =>
    rw [execute]
    exact (safe.evaluate env kind part).within.bind fun v => .pure _
  | emptyStatement =>
    rw [execute]
    exact .pure _
  | @bareJump _ l kind inLoop =>
    cases kind with
    | breaks =>
      rw [execute]
      exact .throw (.inl ⟨rfl, inLoop rfl⟩)
    | continues =>
      rw [execute]
      exact .throw (.inl ⟨rfl, inLoop rfl⟩)
  | @jump _ l kind ln name spelled reaches =>
    cases kind with
    | breaks =>
      rw [execute]
      exact .throw (.inr ⟨name, rfl, reaches rfl⟩)
    | continues =>
      rw [execute]
      exact .throw (.inr ⟨name, rfl, reaches rfl⟩)
  | @labeled _ l ln name body spelled fresh kind part =>
    rw [execute]
    exact safe.executeLabeled env kind ((LabeledBy.none false c).more name (isLoop body)) part
  | forStatement | whileStatement | doWhileStatement => cases loop
  | @forEach _ _ domain => cases domain <;> cases loop
  | @forEachDeclared _ _ domain => cases domain <;> cases loop
  | _ => cases statement

/-- The loop behind some labels takes up the jumps to these labels itself. -/
theorem within_executeLabeled {labels : List Text} (statement : t.isStatement = true)
    (around : LabeledBy labels (isLoop t) c c') (wf : WellFormed true c' t) :
    Always Sound (Within c) (executeLabeled limit (fuel + 1) env labels t) := by
  -- A loop takes the labels that stand in front of it; any other statement takes them as a whole.
  cases loop : isLoop t with
  | true =>
    rw [executeLabeled_loop loop]
    exact safe.executeLoop env loop (loop ▸ around) wf
  | false =>
    rw [loop] at around
    cases simple : isSimple t with
    | true =>
      rw [executeLabeled_simple simple]
      exact within_labeled around (safe.execute env statement wf)
    | false =>
      simp only [isSimple, loop, Bool.not_false, Bool.true_and, Bool.not_eq_false'] at simple
      cases wf with
      | @labeled _ l ln name body spelled fresh kind part =>
        rw [executeLabeled]
        exact safe.executeLabeled env kind (around.more name (isLoop body)) part
      | @jump _ _ kind => cases kind <;> cases simple
      | @bareJump _ _ kind => cases kind <;> cases simple
      | @function _ _ form => cases form <;> cases simple
      | @forEach _ _ domain => cases domain <;> cases simple
      | @forEachDeclared _ _ domain => cases domain <;> cases simple
      | _ => cases simple

/-- A loop over a collection, whatever its variable or target is. -/
theorem within_forEach {l : Option Location} {labels : List Text} {domain : Domain}
    {left target right body : Tree} (around : LabeledBy labels true c c')
    (into : loopTarget left = pure target) (assignable : target.isAssignable = true)
    (targetPart : WellFormed true c' target) (rightKind : right.isExpression = true)
    (rightPart : WellFormed true c' right) (kind : body.isStatement = true)
    (part : WellFormed true c'.inBody body) :
    Always Sound (Within c)
      (executeLoop limit (fuel + 1) env labels (.node l (.forEach domain left right body))) := by
  -- A pass assigns to the target and executes the body, in which the loop can be left.
  have step (v : Value) : Always Sound (Within c) (do
      assignTo limit fuel env target v
      pass labels (execute limit fuel env body)) :=
    (safe.assignTo env assignable targetPart v).within.bind fun _ =>
      within_pass around (safe.execute env kind part)
  cases domain with
  | keys =>
    rw [executeLoop]
    refine (safe.evaluate env rightKind rightPart).within.bind fun source => ?_
    refine .ite (fun _ => .pure _) fun _ => ?_
    refine (stops_of_plain fun _ => plain_keysOf source).within.bind fun keys => ?_
    rw [into, pure_bind]
    exact .forEachItem step _
  | values =>
    rw [executeLoop]
    refine (safe.evaluate env rightKind rightPart).within.bind fun source => ?_
    refine (stops_of_plain fun _ => plain_valuesOf source).within.bind fun values => ?_
    rw [into, pure_bind]
    exact .forEachItem step _

/-- A loop ends its passes at a jump to itself, and hands on the others. -/
theorem within_executeLoop {labels : List Text} (loop : isLoop t = true)
    (around : LabeledBy labels true c c') (wf : WellFormed true c' t) :
    Always Sound (Within c) (executeLoop limit (fuel + 1) env labels t) := by
  -- By the form of the loop: all repeat a step in which the body may jump.
  cases wf with
  | whileStatement testKind testPart kind part =>
    rw [executeLoop]
    refine .repeating trivial ?_ fuel
    refine (safe.evaluate env testKind testPart).within.bind fun v => ?_
    exact .ite (fun _ => within_pass around (safe.execute env kind part)) fun _ => .pure _
  | doWhileStatement testKind testPart kind part =>
    rw [executeLoop]
    refine .repeating trivial ?_ fuel
    refine (within_pass around (safe.execute env kind part)).bind fun goesOn => ?_
    refine .ite (fun _ => ?_) fun _ => .pure _
    exact (safe.evaluate env testKind testPart).within.bind fun v => .pure _
  | @forStatement _ l init test step body initKind initPart testKind testPart stepKind stepPart kind
      part =>
    rw [executeLoop_for]
    refine Always.bind ?_ fun _ => .repeating trivial ?_ fuel
    · refine .ite (fun declaration => ?_) fun other => .ite (fun _ => .pure _) fun present => ?_
      · refine (safe.declare env declaration (initPart ?_)).within
        obtain ⟨l, ds, kind, rfl⟩ := Elimination.eq_variableDeclaration declaration
        rfl
      · have present : init.isNull = false := by simpa using present
        have expression := (initKind present).resolve_left other
        exact (safe.evaluate env expression (initPart present)).within.bind fun _ => .pure _
    · refine Always.bind (.ite (fun _ => .pure _) fun present => ?_) fun holds => ?_
      · have present : test.isNull = false := by simpa using present
        exact .map _ (safe.evaluate env (testKind present) (testPart present)).within
      refine .ite (fun _ => ?_) fun _ => .pure _
      refine (within_pass around (safe.execute env kind part)).bind fun goesOn => ?_
      refine .ite (fun _ => ?_) fun _ => .pure _
      refine Always.bind (.ite (fun _ => .pure _) fun present => ?_) fun _ => .pure _
      have present : step.isNull = false := by simpa using present
      exact (safe.evaluate env (stepKind present) (stepPart present)).within.bind fun _ => .pure _
  | @forEachDeclared _ l domain ld le id right body name rightKind rightPart kind part =>
    cases name with
    | @mk li x spelled =>
      have into : loopTarget (.node ld (.variableDeclaration
          (.tuple [.node le (.variableDeclarator (.node li (.identifier (.text x))) .null)])
          (.text Tree.varKind))) = pure (.node li (.identifier (.text x))) := rfl
      exact within_forEach safe env around into rfl (.identifier spelled) rightKind rightPart kind
        part
  | @forEach _ l domain left right body target leftPart rightKind rightPart kind part =>
    refine within_forEach safe env around ?_ target leftPart rightKind rightPart kind part
    obtain ⟨l, name, rfl⟩ | ⟨l, object, property, computed, rfl⟩ := eq_of_isAssignable target
    · rfl
    · rfl
  | @jump _ _ kind => cases kind <;> cases loop
  | @bareJump _ _ kind => cases kind <;> cases loop
  | @function _ _ form => cases form <;> cases loop
  | _ => cases loop

end Steps

/-- Evaluations are safe with any fuel. -/
theorem safe (limit fuel : Nat) : Safe limit fuel := by
  -- By induction on the fuel: without fuel there is nothing but the failure, and each rule is safe
  -- if those below are.
  induction fuel with
  | zero =>
    have exhausted {α : Type} : Always Sound Stops (throw .exhausted : Eval α) := .throw trivial
    constructor
    · intros; rw [evaluate]; exact exhausted
    · intros; rw [propertyKey]; exact exhausted
    · intros; rw [assignTo]; exact exhausted
    · intros; rw [call]; exact exhausted
    · intros; rw [startVariable]; exact exhausted
    · intros; rw [execute]; exact exhausted
    · intros; rw [execute]; exact exhausted.within
    · intros; rw [executeLabeled]; exact exhausted.within
    · intros; rw [executeLoop]; exact exhausted.within
  | succ fuel ih =>
    exact
      { evaluate := stops_evaluate ih
        propertyKey := stops_propertyKey ih
        assignTo := stops_assignTo ih
        call := stops_call ih
        startVariable := stops_startVariable ih
        declare := stops_declaration ih
        execute := within_execute ih
        executeLabeled := within_executeLabeled ih
        executeLoop := within_executeLoop ih }

/-! ## Programs and calls -/

/-- A call that goes too deep is an error instead of a run without an end. -/
theorem Always.guarded {α : Type} {I : Machine → Prop} {E : Interrupt → Prop} {act : Eval α}
    (h : Always I E act) (overflow : E (.failed .stackOverflow)) :
    Always I E (Eval.guarded act) := by
  intro m hm
  have inner := h m hm
  unfold Eval.guarded
  generalize act m = r at inner ⊢
  split
  · cases inner with
    | error machine why => exact .error machine overflow
  · exact inner

/-- Running a well-formed program. -/
theorem within_runProgram {limit fuel : Nat} {l : Option Location} {ss : List Tree}
    (wf : WellFormed true {} (.node l (.program (.tuple ss)))) :
    Always Sound (Within {}) (runProgram limit fuel (.node l (.program (.tuple ss)))) := by
  cases wf with
  | program kinds parts =>
    simp only [runProgram]
    refine .attempt_bind (fun _ => rfl) fun body found => ?_
    cases found
    refine .attempt_bind (fun _ => rfl) fun strict _ => ?_
    refine Always.bind (fun m sound => .ok sound) fun _ => ?_
    refine .attempt_bind (fun _ => rfl) fun statements found => ?_
    cases found
    refine (stops_hoist _ (hoistsCode_of_wellFormed parts)).within.bind fun _ => ?_
    refine Always.guarded (.foldlM fun s hs v => ?_) rfl
    -- A statement of a program runs in the global environment, and its value is kept if it has one.
    have statement := (safe limit fuel).execute Store.globalEnvironment (kinds s hs) (parts s hs)
    unfold runStatement
    split
    · have part := parts _ hs
      cases part with
      | expressionStatement kind part => exact ((safe limit fuel).evaluate _ kind part).within
    · exact statement.bind fun _ => .pure v

/-- A global function is looked up, or there is none. -/
theorem stops_globalFunction (name : Text) : Always Sound Stops (globalFunction name) := by
  refine .get fun m _ => ?_
  split
  · exact .fail rfl
  · exact .pure _
  · exact .fail rfl

end Eval

/-- Whether an evaluation has ended in a way that belongs to no program: with a jump that nothing has
taken up, or with a refusal. -/
def Interrupt.isStray : Interrupt → Bool
  | .broke _ | .continued _ => true
  | .failed error => error.isRefusal
  | _ => false

namespace Interpreter

open Eval Validity Simulation

/-- What comes of running a program on a new interpreter and of what the interpreter is asked for
afterwards: arrays, and calls of global functions by name and of any other value. -/
inductive Leads (limit : Nat) (program : Tree) : Except Interrupt Value × Interpreter → Prop where
  | run (fuel : Nat) : Leads limit program ((new limit).run program fuel)
  | answer {r i} (before : Leads limit program (r, i)) (fuel : Nat) (request : Request) :
    Leads limit program (i.answer fuel request)
  | call {r i} (before : Leads limit program (r, i)) (fuel : Nat) (f : Value) (args : List Value) :
    Leads limit program (i.call f args fuel)

/-- Whether a result is a stray interrupt. -/
def strays : Except Interrupt Value → Bool
  | .ok _ => false
  | .error e => e.isStray

/-- An interpreter whose functions are well-formed and that has not ended with a stray interrupt. -/
structure IsSafe (r : Except Interrupt Value) (i : Interpreter) : Prop where
  sound : Sound i.machine
  tame : strays r = false

/-- What is known of an evaluation is known of what the interpreter reports. -/
theorem IsSafe.perform {i : Interpreter} {act : Eval Value} (sound : Sound i.machine)
    (h : Always Sound (Within {}) act) : IsSafe (i.perform act).1 (i.perform act).2 := by
  have done := h i.machine sound
  unfold Interpreter.perform
  generalize act i.machine = r at done ⊢
  cases done with
  | ok machine => exact ⟨machine, rfl⟩
  | @error e _ machine why =>
    refine ⟨machine, ?_⟩
    cases e with
    | broke label => exact (not_catches_none why).elim
    | continued label => exact (not_catches_none why).elim
    | failed error => exact why
    | returned v => rfl
    | exhausted => rfl

/-- A new interpreter has made no functions. -/
theorem sound_new (limit : Nat) : Sound (new limit).machine := by
  intro c hc
  exact absurd hc (Array.not_mem_empty c)

/-- Whatever a well-formed program leads to is safe. -/
theorem Leads.isSafe {limit : Nat} {l : Option Location} {ss : List Tree}
    {end_ : Except Interrupt Value × Interpreter}
    (wf : WellFormed true {} (.node l (.program (.tuple ss))))
    (leads : Leads limit (.node l (.program (.tuple ss))) end_) : IsSafe end_.1 end_.2 := by
  induction leads with
  | run fuel => exact .perform (sound_new limit) (within_runProgram wf)
  | @answer r i before fuel request ih =>
    cases request with
    | array items =>
      exact .perform ih.sound (stops_of_plain fun _ => plain_newArray items.toArray).within
    | call name args =>
      rw [Interpreter.answer, callFunction_eq]
      refine .perform ih.sound ((stops_globalFunction name).within.bind fun ref => ?_)
      exact ((safe i.limit fuel).call _ args).within.guarded rfl
  | @call r i before fuel f args ih =>
    exact .perform ih.sound (((safe i.limit fuel).call f args).within.guarded rfl)

/-- Valid programs are safe to run: neither running a program that the check accepts on a new
interpreter nor any calls afterwards end with a `break` or `continue` that nothing takes up, with
something that can be neither run nor evaluated, or with an operator that is not in the table. -/
theorem strays_eq_false_of_leads {limit count : Nat} {program : Tree} {r : Except Interrupt Value}
    {i : Interpreter} (isProgram : program.hasKind .program = true)
    (valid : program.validate = .ok count) (flags : program.FlagsAreBoolean)
    (leads : Leads limit program (r, i)) : strays r = false := by
  have wf := wellFormed_of_validate valid flags
  cases wf with
  | program kinds parts => exact (leads.isSafe (.program kinds parts)).tame
  | @jump _ _ kind => cases kind <;> cases isProgram
  | @bareJump _ _ kind => cases kind <;> cases isProgram
  | @function _ _ form => cases form <;> cases isProgram
  | @forEach _ _ domain => cases domain <;> cases isProgram
  | @forEachDeclared _ _ domain => cases domain <;> cases isProgram
  | _ => cases isProgram

/-- A function `g` that leaves a labeled block from inside a loop and then reads a name without a
value, and a labeled loop that goes on with itself. -/
def leavesLoops : Tree :=
  Tree.new (.program (.tuple [
    Tree.new (.function .declaration (.identifier "g") (.tuple [])
      (.block [
        Tree.new (.labeled (.identifier "a")
          (.block [Tree.new (.whileStatement (Tree.new (.literal (.bool true)))
            (Tree.new (.jump .breaks (.identifier "a"))))])),
        Tree.new (.returnStatement (.identifier "h"))])),
    Tree.new (.labeled (.identifier "b")
      (Tree.new (.doWhileStatement (Tree.new (.jump .continues (.identifier "b")))
        (Tree.new (.literal (.bool false))))))]))

/-- Whether an evaluation has come to a name without a value. -/
def isNotDefined : Except Interrupt Value → Bool
  | .error (.failed (.notDefined ..)) => true
  | _ => false

/-- A call of `g` comes to the name without a value, which is no stray end. -/
theorem strays_eq_false_of_leads_leavesLoops :
    (∃ count, leavesLoops.validate = .ok count) ∧ leavesLoops.FlagsAreBoolean ∧
      ∃ r i, Leads 200 leavesLoops (r, i) ∧ isNotDefined r = true ∧ strays r = false := by
  have valid : leavesLoops.validate = .ok 19 := rfl
  have flags : leavesLoops.FlagsAreBoolean := by decide
  have leads : Leads 200 leavesLoops
      (((new 200).run leavesLoops 20).2.answer 20 (.call "g" [])) :=
    .answer (.run 20) 20 (.call "g" [])
  refine ⟨⟨19, valid⟩, flags, _, _, leads, by decide +kernel, ?_⟩
  exact strays_eq_false_of_leads rfl valid flags leads

/-- A negation whose flag, which the check does not look at, is a function `g` with a `break`. -/
def hidesFunction : Tree :=
  Tree.new (.program (.tuple [Tree.new (.expressionStatement (Tree.new (.unary (.text "!")
    (Tree.new (.literal (.bool true)))
    (Tree.new (.function .declaration (.identifier "g") (.tuple [])
      (.block [Tree.new (.jump .breaks .null)]))))))]))

/-- Flags have to be Booleans: a function in the place of a flag is declared without having been
checked, and its `break` leaves the call. -/
theorem strays_of_leads_hidesFunction :
    hidesFunction.hasKind .program = true ∧ (∃ count, hidesFunction.validate = .ok count) ∧
      ∃ r i, Leads 200 hidesFunction (r, i) ∧ strays r = true := by
  have leads : Leads 200 hidesFunction
      (((new 200).run hidesFunction 20).2.answer 20 (.call "g" [])) :=
    .answer (.run 20) 20 (.call "g" [])
  exact ⟨rfl, ⟨4, rfl⟩, _, _, leads, by decide +kernel⟩

end Interpreter

end TailLoop
