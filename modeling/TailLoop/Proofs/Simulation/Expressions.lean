import TailLoop.Proofs.Simulation.Occurrences
import TailLoop.Proofs.Simulation.Operations

/-!
# Expressions that agree

Rewriting leaves expressions without functions as they are. Their evaluations agree in two runs, as
long as the calls in them do: `evaluate_sim` derives agreement of expressions evaluated with some
fuel from agreement of calls with less fuel. What an expression has to satisfy for that is `Fits`: it
uses no name of generated code, takes the value of no global variable that holds a function, and sets
neither such a variable nor the one of the undefined value.
-/

namespace TailLoop.Simulation

open Eval Validity

/-- A jump with this label finds its target. -/
def Catches (c : Targets) (kind : JumpKind) (label : Tree) : Prop :=
  label = .null ∧ c.inLoop = true ∨ ∃ name, label = .text name ∧ c.Reaches kind name

/-- The interrupts that code with the given targets around it can end with. -/
def Allowed (w : World) (c : Targets) : Interrupt → Prop
  | .returned v => v.isData = true
  | .broke label => w.loops = true → Catches c .breaks label
  | .continued label => w.loops = true → Catches c .continues label
  | .failed _ => True
  | .exhausted => False

/-- Both runs are interrupted in the same way, as code with the given targets can be. -/
abbrev Throws (w : World) (frames : List Frame) (c : Targets) : Ending :=
  Same w frames (Allowed w c)

/-- Taking the value of a name takes no function. -/
def IsOperand (w : World) (names : List Text) (t : Tree) : Prop :=
  ∀ x, t.identifierName? = some x → x ∈ names ∨ ¬w.IsFunction x

/-- Setting a name sets no variable that is fixed, and none that nothing may give a value. -/
def IsTarget (w : World) (f : Frame) (t : Tree) : Prop :=
  ∀ x, t.identifierName? = some x → (x ∈ f.names ∨ ¬w.IsFixed x) ∧ x ∉ f.unset

/-- What a node that runs in the activation of a frame has to satisfy. -/
structure Fits (w : World) (f : Frame) (t : Tree) : Prop where
  /-- It is no function. -/
  simple : t.isFunction = false
  /-- It is no name of generated code. -/
  named : ∀ x, t.identifierName? = some x → w.hides x = false
  operands : ∀ u ∈ t.operands, IsOperand w f.names u
  settings : ∀ u ∈ t.settings, IsTarget w f u
  /-- The arguments of calls that became jumps set nothing. -/
  calm : ∀ own ∈ f.own, ∀ u ∈ t.returnedCalls, ∀ a ∈ u.argumentsTo own, a.Quiet

/-- An expression that runs in the activation of a frame. -/
structure Expression (w : World) (f : Frame) (e : Tree) : Prop where
  wellFormed : ∃ checked c, WellFormed checked c e
  kind : e.isExpression = true
  fits : e.All (Fits w f)
  quiet : f.held = none ∨ e.Quiet

/-- An expression that runs in the activation of a frame, and whose value is used. -/
def Operand (w : World) (f : Frame) (e : Tree) : Prop :=
  Expression w f e ∧ IsOperand w f.names e

/-- Calls of the functions of the program with less than the given fuel agree. -/
def CallsAgree (w : World) (fuel : Nat) : Prop :=
  ∀ j < fuel, ∀ frames ref args, (∀ v ∈ args, v.isData = true) →
    Sim w frames (·.isData = true) (Throws w frames {}) (call w.limit j (.function ref) args)
      fun k => call w.limit k (.function ref) args

/-- Expressions agree in the activation of a frame with less than the given fuel. -/
def ExpressionsAgree (w : World) (f : Frame) (frames : List Frame) (fuel : Nat) : Prop :=
  ∀ j < fuel, ∀ e, Operand w f e →
    Sim w (f :: frames) (·.isData = true) (Throws w (f :: frames) {})
      (evaluate w.limit j f.source e) fun k => evaluate w.limit k f.target e

section

variable {w : World} {frames : List Frame} {f : Frame} {fuel : Nat}

/-- An error is an interrupt that any code can end with. -/
theorem Sim.throws {α : Type} {P : α → Prop} {c : Targets} {x : Eval α} {y : Nat → Eval α}
    (h : Sim w frames P (Fails w frames) x y) : Sim w frames P (Throws w frames c) x y := by
  refine h.mono (fun _ => id) fun e m e' m' => ?_
  rintro ⟨rfl, ⟨error, rfl⟩, machines⟩
  exact ⟨rfl, trivial, machines⟩

/-- A fault is one in both runs. -/
theorem Sim.attempt {α : Type} {P : α → Prop} {e : Except Fault α} (value : ∀ a, e = .ok a → P a) :
    Sim w frames P (Fails w frames) (Eval.attempt e) fun _ => Eval.attempt e := by
  cases e with
  | ok a => exact .pure (value a rfl)
  | error e => exact .fail _

/-- An operator is found in both runs or in none. -/
theorem operatorOf_sim (spelling : Tree) :
    Sim w frames (fun _ => True) (Fails w frames) (operatorOf spelling)
      fun _ => operatorOf spelling := by
  refine .bind (P := fun _ => True) (.attempt fun _ _ => trivial) fun key _ => ?_
  cases BinaryOperator.ofText? key with
  | some op => exact .pure trivial
  | none => exact .fail _

/-- So is the operator of a compound assignment. -/
theorem compoundOf_sim (spelling : Tree) :
    Sim w frames (fun _ => True) (Fails w frames) (compoundOf spelling)
      fun _ => compoundOf spelling :=
  .bind (P := fun _ => True) (.attempt fun _ _ => trivial) fun operator _ => operatorOf_sim operator

namespace Expression

variable {l : Option Location} {shape : Shape Tree}

/-- A part of an expression that is an expression. -/
theorem part {u : Tree} (h : Expression w f (.node l shape))
    (hu : u ∈ shape.parts) (kind : u.isExpression = true)
    (wellFormed : ∃ checked c, WellFormed checked c u) : Expression w f u where
  wellFormed := wellFormed
  kind := kind
  fits := h.fits.child hu
  quiet := h.quiet.imp id fun quiet => quiet.child hu

/-- A part of an expression whose value is used. -/
theorem operand {u : Tree} (h : Expression w f (.node l shape))
    (hu : u ∈ shape.parts) (used : u ∈ (Tree.node l shape).operands)
    (kind : u.isExpression = true) (wellFormed : ∃ checked c, WellFormed checked c u) :
    Operand w f u :=
  ⟨h.part hu kind wellFormed, h.fits.self.operands u used⟩

/-- An item of a row of expressions whose values are used. -/
theorem item {es : List Tree} {e : Tree} (h : Expression w f (.node l shape))
    (hu : .tuple es ∈ shape.parts) (he : e ∈ es)
    (used : e ∈ (Tree.node l shape).operands) (kind : e.isExpression = true)
    (wellFormed : ∃ checked c, WellFormed checked c e) : Operand w f e where
  left :=
    { wellFormed := wellFormed
      kind := kind
      fits := (h.fits.child hu).item he
      quiet := h.quiet.imp id fun quiet => (quiet.child hu).item he }
  right := h.fits.self.operands e used

end Expression

/-- The key of a member. -/
theorem propertyKey_sim (agree : ExpressionsAgree w f frames fuel) {property : Tree}
    (computed : Bool)
    (named : computed = false → IsName property)
    (key : computed = true → Operand w f property) :
    Sim w (f :: frames) (·.isData = true) (Throws w (f :: frames) {})
      (propertyKey w.limit fuel f.source property (.bool computed))
      fun k => propertyKey w.limit k f.target property (.bool computed) := by
  cases fuel with
  | zero =>
    rw [propertyKey]
    exact .exhausted
  | succ fuel =>
    refine .later ?_
    simp only [propertyKey]
    -- A key that is computed is an operand, and one that is a name needs no evaluation.
    cases computed with
    | true => exact agree fuel (by omega) property (key rfl)
    | false =>
      obtain ⟨l, spelled⟩ := named rfl
      exact Sim.pure rfl

/-- What can be assigned to is an identifier or a member. -/
theorem eq_of_isAssignable {t : Tree} (h : t.isAssignable = true) :
    (∃ l name, t = .node l (.identifier name)) ∨
      ∃ l object property computed, t = .node l (.member object property computed) := by
  cases t with
  | node l shape =>
    cases shape with
    | identifier name => exact .inl ⟨l, name, rfl⟩
    | member object property computed => exact .inr ⟨l, object, property, computed, rfl⟩
    | function form => cases form <;> cases h
    | forEach domain => cases domain <;> cases h
    | jump kind => cases kind <;> cases h
    | _ => cases h
  | _ => cases h

/-- The object and the key of a member, and what is done with them. -/
theorem member_sim {α : Type} {Q : α → Prop} (agree : ExpressionsAgree w f frames (fuel + 1))
    {l : Option Location} {object property computed : Tree} {rest : Value → Value → Eval α}
    (expression : Expression w f (.node l (.member object property computed)))
    (next : ∀ owner key, owner.isData = true → key.isData = true →
      Sim w (f :: frames) Q (Fails w (f :: frames)) (rest owner key) fun _ => rest owner key) :
    Sim w (f :: frames) Q (Throws w (f :: frames) {})
      (do
        let owner ← evaluate w.limit fuel f.source object
        let key ← propertyKey w.limit fuel f.source property computed
        rest owner key)
      (fun k => do
        let owner ← evaluate w.limit k f.target object
        let key ← propertyKey w.limit k f.target property computed
        rest owner key) := by
  have before : ExpressionsAgree w f frames fuel := fun j hj => agree j (by omega)
  have owner := agree fuel (by omega) object
  obtain ⟨checked, c, wellFormed⟩ := expression.wellFormed
  -- A name as a key, or an operand as a key; what is done with owner and key is the same.
  cases wellFormed with
  | member kind part name =>
    have object := expression.operand (Shape.mem_parts 0 rfl)
      (by simp [Tree.operands, Tree.truthy]) kind ⟨_, _, part⟩
    exact .bind (owner object) fun _ ho =>
      .bind (propertyKey_sim before false (fun _ => name) Bool.noConfusion) fun _ hk =>
        (next _ _ ho hk).throws
  | computedMember kind part keyKind keyPart =>
    have object := expression.operand (Shape.mem_parts 0 rfl)
      (by simp [Tree.operands, Tree.truthy]) kind ⟨_, _, part⟩
    have key := expression.operand (Shape.mem_parts 1 rfl)
      (by simp [Tree.operands, Tree.truthy]) keyKind ⟨_, _, keyPart⟩
    exact .bind (owner object) fun _ ho =>
      .bind (propertyKey_sim before true Bool.noConfusion fun _ => key) fun _ hk =>
        (next _ _ ho hk).throws

/-- What an expression can be assigned to is set alike in both runs. -/
theorem assignTo_sim (frames : List Frame) (agree : ExpressionsAgree w f frames fuel)
    {target : Tree} {v : Value}
    (expression : Expression w f target) (assignable : target.isAssignable = true)
    (loose : IsTarget w f target) (free : f.held = none) (hv : v.isData = true) :
    Sim w (f :: frames) (fun _ => True) (Throws w (f :: frames) {})
      (assignTo w.limit fuel f.source target v) fun k => assignTo w.limit k f.target target v := by
  cases fuel with
  | zero =>
    rw [assignTo]
    exact .exhausted
  | succ fuel =>
    refine .later ?_
    -- A name is written, or a property of an owner that is evaluated.
    rcases eq_of_isAssignable assignable with ⟨l, name, rfl⟩ | ⟨l, object, property, computed, rfl⟩
    · obtain ⟨checked, c, wellFormed⟩ := expression.wellFormed
      cases wellFormed with
      | identifier spelled =>
        simp only [assignTo]
        obtain ⟨assignable, settled⟩ := loose _ rfl
        exact (writeName_sim l free (expression.fits.self.named _ rfl) assignable settled hv).throws
    · simp only [assignTo]
      exact member_sim agree expression fun _ _ _ hk => setProperty_sim l hk hv

/-- The value of a callee, which may be a function. -/
theorem callee_sim (agree : ExpressionsAgree w f frames (fuel + 1)) {callee : Tree}
    (expression : Expression w f callee) :
    Sim w (f :: frames) (fun _ => True) (Throws w (f :: frames) {})
      (evaluate w.limit fuel f.source callee) fun k => evaluate w.limit k f.target callee := by
  -- What is called may be a function, which is no data; this is asked of operands only.
  by_cases named : ∃ x, callee.identifierName? = some x
  · obtain ⟨x, hx⟩ := named
    obtain ⟨l, rfl⟩ : ∃ l, callee = .node l (.identifier (.text x)) := by
      unfold Tree.identifierName? at hx
      split at hx
      · cases hx
        exact ⟨_, rfl⟩
      · cases hx
    cases fuel with
    | zero =>
      rw [evaluate]
      exact .exhausted
    | succ fuel =>
      refine .later ?_
      simp only [evaluate]
      exact (readName_sim l (expression.fits.self.named x rfl)).throws.weaken fun _ _ => trivial
  · have operand : IsOperand w f.names callee := fun x hx => (named ⟨x, hx⟩).elim
    exact (agree fuel (by omega) callee ⟨expression, operand⟩).weaken fun _ _ => trivial

/-- Calling a value that may be a function of the program. -/
theorem call_value_sim (calls : CallsAgree w (fuel + 1)) (v : Value) {args : List Value}
    (data : ∀ u ∈ args, u.isData = true) (callable : v.isCallable = true) :
    Sim w frames (·.isData = true) (Throws w frames {}) (call w.limit fuel v args)
      fun k => call w.limit k v args := by
  cases v with
  | function ref => exact calls fuel (by omega) frames ref args data
  | native n =>
    cases fuel with
    | zero =>
      rw [call]
      exact .exhausted
    | succ fuel =>
      refine .later ?_
      simp only [call]
      exact (callNative_sim n.action data).throws
  | _ => cases callable

/-- The values of several expressions. -/
theorem evaluate_mapM_sim (agree : ExpressionsAgree w f frames (fuel + 1)) {es : List Tree}
    (operands : ∀ e ∈ es, Operand w f e) :
    Sim w (f :: frames) (fun vs => ∀ v ∈ vs, v.isData = true) (Throws w (f :: frames) {})
      (es.mapM (evaluate w.limit fuel f.source)) fun k => es.mapM (evaluate w.limit k f.target) :=
  .mapM fun e he => agree fuel (by omega) e (operands e he)

/-- A frame whose code sets something is not held. -/
theorem Expression.free {e : Tree} (expression : Expression w f e) {l : Option Location}
    {shape : Shape Tree} (he : e = .node l shape) (assigning : e.isAssigning = true) :
    f.held = none := by
  refine expression.quiet.resolve_right fun quiet => ?_
  subst he
  have := quiet.self
  rw [assigning] at this
  cases this

/-- With one more fuel an operand is evaluated alike: one case for each form of expression. -/
theorem evaluate_succ_sim (calls : CallsAgree w (fuel + 1))
    (agree : ExpressionsAgree w f frames (fuel + 1)) {e : Tree} (operand : Operand w f e) :
    Sim w (f :: frames) (·.isData = true) (Throws w (f :: frames) {})
      (evaluate w.limit (fuel + 1) f.source e) fun k => evaluate w.limit k f.target e := by
  refine .later ?_
  have here (u : Tree) := agree fuel (by omega) u
  have before : ExpressionsAgree w f frames fuel := fun j hj => agree j (by omega)
  obtain ⟨expression, free⟩ := operand
  obtain ⟨checked, c, wellFormed⟩ := expression.wellFormed
  -- By the form of the expression: its operands are simulated with less fuel, and what is done with
  -- their values is the same in both programs.
  cases wellFormed with
  | @identifier _ l name spelled =>
    simp only [evaluate]
    exact (readName_sim l (expression.fits.self.named _ rfl)).throws.weaken fun _ data =>
      data (free _ rfl)
  | @literal _ l value plain =>
    simp only [evaluate]
    cases value with
    | null => exact .pure rfl
    | bool b => exact .pure rfl
    | int n => exact .pure rfl
    | num d => exact .pure rfl
    | text t => exact .pure rfl
    | _ => cases plain
  | @array _ l es kinds parts =>
    simp only [evaluate, Tree.items, Eval.attempt, pure_bind]
    have operands : ∀ e ∈ es, Operand w f e := fun e he =>
      expression.item (Shape.mem_parts 0 rfl) he he (kinds e he)
        ⟨_, _, parts e he⟩
    exact .bind (evaluate_mapM_sim agree operands) fun vs data => newArray_sim fun v hv =>
      data v (List.mem_toArray.mp hv)
  | @call _ l callee args kind part kinds parts =>
    simp only [evaluate, Tree.items, Eval.attempt, pure_bind]
    have calleePart : Expression w f callee :=
      expression.part (Shape.mem_parts 0 rfl) kind ⟨_, _, part⟩
    have operands : ∀ e ∈ args, Operand w f e := fun e he =>
      expression.item (Shape.mem_parts 1 rfl) he he (kinds e he)
        ⟨_, _, parts e he⟩
    exact .bind (callee_sim agree calleePart) fun v _ =>
      .bind (evaluate_mapM_sim agree operands) fun vs data =>
        .ite (fun callable => call_value_sim calls v data callable) fun _ => (Sim.fail _).throws
  | @member _ l object property kind part name =>
    simp only [evaluate]
    exact member_sim agree expression fun _ _ _ hk => getProperty_sim l hk
  | @computedMember _ l object property kind part keyKind keyPart =>
    simp only [evaluate]
    exact member_sim agree expression fun _ _ _ hk => getProperty_sim l hk
  | @conditional _ l test consequent alternate testKind testPart kind part elseKind elsePart =>
    simp only [evaluate]
    have testHere := here test (expression.operand (Shape.mem_parts 0 rfl)
      (by simp [Tree.operands]) testKind ⟨_, _, testPart⟩)
    have thenHere :=
      here consequent (expression.operand (Shape.mem_parts 1 rfl) (by simp [Tree.operands])
        kind ⟨_, _, part⟩)
    have elseHere :=
      here alternate (expression.operand (Shape.mem_parts 2 rfl) (by simp [Tree.operands]) elseKind
        ⟨_, _, elsePart⟩)
    exact .bind testHere fun v _ => .ite (fun _ => thenHere) fun _ => elseHere
  | @assignment _ l op left right known target leftPart kind part =>
    have unheld := expression.free rfl rfl
    have leftExpression : Expression w f left :=
      expression.part (Shape.mem_parts 1 rfl)
        (isExpression_of_isAssignable target) ⟨_, _, leftPart⟩
    have loose : IsTarget w f left := expression.fits.self.settings left (by simp [Tree.settings])
    have assign (v : Value) (hv : v.isData = true) :=
      assignTo_sim frames before leftExpression target loose unheld hv
    have rightHere :=
      here right (expression.operand (Shape.mem_parts 2 rfl)
        (by simp only [Tree.operands]; split <;> simp) kind ⟨_, _, part⟩)
    simp only [evaluate]
    refine .ite (fun _ => ?_) fun compound => ?_
    · exact .bind rightHere fun v hv => .bind (assign v hv) fun _ _ => .pure hv
    · have leftHere := here left (expression.operand (Shape.mem_parts 1 rfl)
        (by simp [Tree.operands, compound]) leftExpression.kind ⟨_, _, leftPart⟩)
      exact .bind leftHere fun a ha => .bind (compoundOf_sim _).throws fun op _ =>
        .bind rightHere fun b hb => .bind (operate_sim op ha hb).throws fun v hv =>
          .bind (assign v hv) fun _ _ => .pure hv
  | @sequence _ l es some kinds parts =>
    simp only [evaluate, Tree.items, Eval.attempt, pure_bind]
    refine .foldlM rfl fun e he _ _ => here e ?_
    exact expression.item (Shape.mem_parts 0 rfl) he he (kinds e he)
      ⟨_, _, parts e he⟩
  | @binary _ l op left right known leftKind leftPart kind part =>
    simp only [evaluate]
    have leftHere := here left (expression.operand (Shape.mem_parts 1 rfl)
      (by simp [Tree.operands]) leftKind ⟨_, _, leftPart⟩)
    have rightHere := here right (expression.operand (Shape.mem_parts 2 rfl)
      (by simp [Tree.operands]) kind ⟨_, _, part⟩)
    exact .bind leftHere fun a ha => .bind rightHere fun b hb =>
      .bind (operatorOf_sim _).throws fun op _ => (operate_sim op ha hb).throws
  | @logical _ l op left right known leftKind leftPart kind part =>
    simp only [evaluate]
    have leftHere := here left (expression.operand (Shape.mem_parts 1 rfl)
      (by simp [Tree.operands]) leftKind ⟨_, _, leftPart⟩)
    have rightHere := here right (expression.operand (Shape.mem_parts 2 rfl)
      (by simp [Tree.operands]) kind ⟨_, _, part⟩)
    exact .bind leftHere fun a ha => .ite (fun _ => .pure ha) fun _ => rightHere
  | @unary _ l op argument isPrefix known kind part =>
    simp only [evaluate]
    have operand := expression.operand (Shape.mem_parts 1 rfl)
      (by simp [Tree.operands]) kind ⟨_, _, part⟩
    have names : ∀ l name, argument = .node l (.identifier name) →
        ∃ x, name = .text x ∧ w.hides x = false := by
      rintro l name rfl
      cases part with
      | identifier spelled => exact ⟨_, rfl, operand.1.fits.self.named _ rfl⟩
    exact .bind (isUnbound_sim argument names).throws fun _ _ => .ite (fun _ => .pure rfl) fun _ =>
      .bind (here argument operand) fun v hv => (operateUnary_sim _ hv).throws
  | @update _ l op argument isPrefix known target part =>
    have unheld := expression.free rfl rfl
    have operand := expression.operand (Shape.mem_parts 1 rfl)
      (by simp [Tree.operands]) (isExpression_of_isAssignable target) ⟨_, _, part⟩
    have loose : IsTarget w f argument :=
      expression.fits.self.settings argument (by simp [Tree.settings])
    simp only [evaluate]
    exact .bind (here argument operand) fun v hv => .bind (numberOf_sim hv).throws fun d _ =>
      .bind (assignTo_sim frames before operand.1 target loose unheld rfl) fun _ _ => .pure rfl
  | function => cases expression.fits.self.simple
  | @jump _ _ kind => cases kind <;> cases expression.kind
  | @bareJump _ _ kind => cases kind <;> cases expression.kind
  | @forEach _ _ domain => cases domain <;> cases expression.kind
  | @forEachDeclared _ _ domain => cases domain <;> cases expression.kind
  | _ => cases expression.kind

/-- Expressions agree as far as calls with less fuel do. -/
theorem evaluate_sim (calls : CallsAgree w fuel) : ExpressionsAgree w f frames (fuel + 1) := by
  have upTo : ∀ j ≤ fuel + 1, ExpressionsAgree w f frames j := by
    intro j
    induction j with
    | zero => exact fun _ i hi => absurd hi (Nat.not_lt_zero i)
    | succ j ih =>
      intro hj i hi e operand
      have before := ih (by omega)
      rcases Nat.lt_succ_iff_lt_or_eq.mp hi with hi | rfl
      · exact before i hi e operand
      · cases i with
        | zero =>
          rw [evaluate]
          exact .exhausted
        | succ i =>
          refine evaluate_succ_sim (fun k hk => calls k (by omega)) before operand
  exact upTo _ (Nat.le_refl _)

end

/-! ## Variables that are undefined -/

/-- Some variables of an activation are undefined, and the undefined value has its name there. -/
structure Unset (env : Nat) (locals : List Text) (m : Machine) : Prop where
  local_undefined : ∀ x ∈ locals, ∃ b, m.store.environments[env]? = some ⟨some 0, b⟩ ∧
    b.lookup x = some .undefined
  bound : ∀ x ∈ locals, m.store.resolve? env x = some env
  undefined : m.store.lookup? env Tree.undefinedName = some .undefined

section Unset

variable {limit env : Nat} {m : Machine} {locals : List Text}

/-- An assignment to a name. -/
theorem evaluate_assignment {l li : Option Location} {name value : Tree} (k : Nat) :
    evaluate limit (k + 2) env
        (.node l (.assignment (.text "=") (.node li (.identifier name)) value)) = (do
      let v ← evaluate limit (k + 1) env value
      writeName env name li v
      return v) := by
  have plain : (Tree.text "=").inline = plainAssignment := rfl
  simp only [evaluate, assignTo, plain, if_true]

/-- Setting an undefined variable to the undefined value does nothing. -/
theorem evaluate_unset (unset : Unset env locals m) {x : Text} (known : x ∈ locals)
    {name : Tree} (key : name.key = .ok x) {l li lv : Option Location} (k : Nat) :
    evaluate limit (k + 2) env
        (.node l (.assignment (.text plainAssignment) (.node li (.identifier name))
          (.node lv (.identifier (.text Tree.undefinedName))))) m = .ok .undefined m := by
  obtain ⟨b, here, found⟩ := unset.local_undefined x known
  have written : writeName env name li .undefined m = .ok () m := by
    rw [writeName_of_resolve? li .undefined key (unset.bound x known), declare_self here found]
  have value : evaluate limit (k + 1) env
      (.node lv (.identifier (.text Tree.undefinedName))) m = .ok .undefined m := by
    rw [evaluate]
    exact readName_of_lookup? lv unset.undefined
  rw [plainAssignment, evaluate_assignment, bind_of_ok value, bind_of_ok written]
  rfl

/-- Variables that nothing may give a value are undefined in the rewritten program as well. -/
theorem Matches.unset {w : World} {frames : List Frame} {f : Frame} {m m' : Machine}
    (h : Matches w (f :: frames) m m') (among : locals ⊆ f.unset)
    (visible : ∀ x ∈ locals, w.hides x = false) (unnamed : Tree.undefinedName ∉ f.names)
    (shown : w.hides Tree.undefinedName = false) : Unset f.target locals m' := by
  obtain ⟨g, -, there, globals⟩ := h.stores.globals
  obtain ⟨-, positive, b, b', -, here, binds⟩ := h.stores.related f List.mem_cons_self
  have undefined (x : Text) (hx : x ∈ locals) : b'.lookup x = some .undefined :=
    (binds.same x (visible x hx)).trans (binds.fresh x (among hx))
  constructor
  · exact fun x hx => ⟨b', here, undefined x hx⟩
  · intro x hx
    rw [resolve?_activation x positive here there, undefined x hx]
    rfl
  -- No variable is called like the undefined value, so that its global is found.
  · have unbound : b'.lookup Tree.undefinedName = none := by
      rw [binds.same _ shown, ← Option.not_isSome_iff_eq_none, binds.bound]
      exact unnamed
    rw [lookup?_activation _ positive here there, unbound, globals.undefined]
    rfl

end Unset

end TailLoop.Simulation
