import TailLoop.Proofs.Interpreter.Fuel
import TailLoop.Proofs.Interpreter.Unmentioned

/-!
# Targets of modifications

A compound assignment or an update of a member evaluates the object and the key of the member twice:
to read it, and again to store the new value (`equivalent_modifyMember`). Where both do the same
again, this comes to the same as evaluating them once into two fresh variables and modifying the
member of these (`modification_once`).
-/

namespace TailLoop.Eval

/-! ## Modifications of members -/

/-- A change to what a target holds, which depends on what it holds. -/
inductive Modification where
  /-- A compound assignment of an expression. -/
  | assignment (operator right : Tree)
  /-- An increment or a decrement. -/
  | update (operator isPrefix : Tree)

namespace Modification

/-- The expression that modifies a target. -/
def tree (c : Modification) (l : Option Location) (target : Tree) : Tree :=
  match c with
  | .assignment operator right => .node l (.assignment operator target right)
  | .update operator isPrefix => .node l (.update operator target isPrefix)

/-- An assignment with an operator, or an update. -/
def IsCompound : Modification → Prop
  | .assignment operator _ => operator.inline ≠ plainAssignment
  | .update .. => True

/-- The expression on the right-hand side, which an update does not have. -/
def operand? : Modification → Option Tree
  | .assignment _ right => some right
  | .update .. => none

/-- What becomes of a value: what is stored, and what the expression is. -/
def step (c : Modification) (limit fuel env : Nat) (current : Value) : Eval (Value × Value) :=
  match c with
  | .assignment operator right => do
    let op ← compoundOf operator
    let operand ← evaluate limit fuel env right
    let v ← read fun s => s.operate op current operand
    return (v, v)
  | .update operator isPrefix => do
    let old ← numberOf current
    let new := if operator.inline = Text.ofString "++" then old.add .one else old.sub .one
    return (.number new, .number (if isPrefix.truthy then new else old))

end Modification

/-- Reading a member. -/
def readMember (limit fuel env : Nat) (l : Option Location) (object key : Tree) : Eval Value := do
  let owner ← evaluate limit fuel env object
  let index ← evaluate limit fuel env key
  getProperty l owner index

/-- Storing into a member. -/
def storeMember (limit fuel env : Nat) (l : Option Location) (object key : Tree) (v : Value) :
    Eval Unit := do
  let owner ← evaluate limit fuel env object
  let index ← evaluate limit fuel env key
  setProperty l owner index v

/-- Modifying a member: its object and its key are evaluated to read it, and again to store into it.
-/
def modifyMember (limit fuel env : Nat) (l : Option Location) (object key : Tree) (c : Modification) :
    Eval Value := do
  let current ← readMember limit fuel env l object key
  let p ← c.step limit fuel env current
  storeMember limit fuel env l object key p.1
  return p.2

/-- A member by a computed key. -/
def memberOf (l : Option Location) (object key : Tree) : Tree :=
  .node l (.member object key (.bool true))

/-- A computed key comes to the same as evaluating it, for all but the fuel that is used up on the
way. -/
theorem equivalent_propertyKey (limit env : Nat) (key : Tree) :
    Equivalent (fun k => evaluate limit k env key)
      fun k => propertyKey limit k env key (.bool true) := by
  have deeper : (fun k => propertyKey limit (k + 1) env key (.bool true)) =
      fun k => evaluate limit k env key := by
    funext k
    rw [propertyKey]
    rfl
  exact Equivalent.later (deeper ▸ Equivalent.evaluate limit env key) (by rw [propertyKey])

/-- Reading the member comes to the same as evaluating the expression that names it. -/
theorem equivalent_readMember (limit env : Nat) (l : Option Location) (object key : Tree) :
    Equivalent (fun k => readMember limit k env l object key)
      fun k => evaluate limit k env (memberOf l object key) := by
  have deeper : (fun k => evaluate limit (k + 1) env (memberOf l object key)) = fun k => (do
      let owner ← evaluate limit k env object
      let index ← propertyKey limit k env key (.bool true)
      getProperty l owner index) := by
    funext k
    rw [memberOf, evaluate]
  refine Equivalent.later ?_ (by rw [evaluate])
  rw [deeper]
  exact (Equivalent.evaluate limit env object).bind fun owner =>
    (equivalent_propertyKey limit env key).bind fun index => .const _

/-- Storing into the member comes to the same as assigning to the expression that names it. -/
theorem equivalent_storeMember (limit env : Nat) (l : Option Location) (object key : Tree)
    (v : Value) :
    Equivalent (fun k => storeMember limit k env l object key v)
      fun k => assignTo limit k env (memberOf l object key) v := by
  have deeper : (fun k => assignTo limit (k + 1) env (memberOf l object key) v) = fun k => (do
      let owner ← evaluate limit k env object
      let index ← propertyKey limit k env key (.bool true)
      setProperty l owner index v) := by
    funext k
    rw [memberOf, assignTo]
  refine Equivalent.later ?_ (by rw [assignTo])
  rw [deeper]
  exact (Equivalent.evaluate limit env object).bind fun owner =>
    (equivalent_propertyKey limit env key).bind fun index => .const _

/-- What a modification makes of the current value does not depend on the fuel, once there is
enough. -/
theorem equivalent_step (c : Modification) (limit env : Nat) (current : Value) :
    Equivalent (fun k => c.step limit k env current) fun k => c.step limit k env current := by
  cases c with
  | assignment operator right =>
    exact (Equivalent.const _).bind fun op =>
      (Equivalent.evaluate limit env right).bind fun operand => .const _
  | update operator isPrefix => exact .const _

/-- A modification of a member reads it, and stores into it. -/
theorem equivalent_modifyMember {c : Modification} (compound : c.IsCompound) (limit env : Nat)
    (l lm : Option Location) (object key : Tree) :
    Equivalent (fun k => modifyMember limit k env lm object key c)
      fun k => evaluate limit k env (c.tree l (memberOf lm object key)) := by
  -- With one more fuel the tree is evaluated as the four steps that the left side spells out.
  have deeper : (fun k => evaluate limit (k + 1) env (c.tree l (memberOf lm object key))) =
      fun k => (do
        let current ← evaluate limit k env (memberOf lm object key)
        let p ← c.step limit k env current
        assignTo limit k env (memberOf lm object key) p.1
        return p.2) := by
    funext k
    cases c with
    | assignment operator right =>
      rw [Modification.tree, evaluate, if_neg compound]
      simp only [Modification.step, bind_assoc, pure_bind]
    | update operator isPrefix =>
      rw [Modification.tree, evaluate]
      simp only [Modification.step, bind_assoc, pure_bind]
  refine Equivalent.later ?_ (by rw [evaluate])
  rw [deeper]
  exact (equivalent_readMember limit env lm object key).bind fun current =>
    (equivalent_step c limit env current).bind fun p =>
      (equivalent_storeMember limit env lm object key p.1).bind fun _ => .const _

/-! ## Modifications of members of fresh variables -/

/-- The object and the key of a member are put into two variables, and then the member of these is
modified. -/
def onceTree (t₁ t₂ : Text) (l lm : Option Location) (object key : Tree) (c : Modification) : Tree :=
  Tree.new (.sequence (.tuple [Tree.assign t₁ object, Tree.assign t₂ key,
    c.tree l (memberOf lm (.identifier t₁) (.identifier t₂))]))

/-- What this comes to. -/
def modifyOnce (limit fuel env : Nat) (t₁ t₂ : Text) (l : Option Location) (object key : Tree)
    (c : Modification) : Eval Value := do
  let owner ← evaluate limit fuel env object
  writeName env (.text t₁) none owner
  let index ← evaluate limit fuel env key
  writeName env (.text t₂) none index
  modifyMember limit fuel env l (.identifier t₁) (.identifier t₂) c

/-- Evaluating an expression and setting a name comes to the same as evaluating an assignment. -/
theorem equivalent_assign (limit env : Nat) (x : Text) (e : Tree) :
    Equivalent (fun k => (do
        let v ← evaluate limit k env e
        writeName env (.text x) none v
        return v))
      fun k => evaluate limit k env (Tree.assign x e) := by
  -- With two more fuels the assignment is its value and then the write.
  have deeper : (fun k => evaluate limit (k + 1 + 1) env (Tree.assign x e)) = fun k => (do
      let v ← evaluate limit (k + 1) env e
      writeName env (.text x) none v
      return v) := by
    funext k
    rw [Tree.assign, Tree.identifier, Tree.new, Tree.new, Simulation.evaluate_assignment]
  have idle : evaluate limit 1 env (Tree.assign x e) = throw .exhausted := by
    have plain : (Tree.text "=").inline = plainAssignment := rfl
    rw [Tree.assign, Tree.new, evaluate]
    simp only [plain, if_true]
    rw [evaluate]
    rfl
  refine Equivalent.later (Equivalent.later ?_ idle) (by rw [evaluate])
  rw [deeper]
  exact (Equivalent.evaluate limit env e).sooner.bind fun v => .const _

/-- Modifying a member once is what the program does that keeps object and key in two variables. -/
theorem equivalent_modifyOnce {c : Modification} (compound : c.IsCompound) (limit env : Nat)
    (t₁ t₂ : Text) (l lm : Option Location) (object key : Tree) :
    Equivalent (fun k => modifyOnce limit k env t₁ t₂ lm object key c)
      fun k => evaluate limit k env (onceTree t₁ t₂ l lm object key c) := by
  -- With one more fuel the sequence is its three items.
  have deeper : (fun k => evaluate limit (k + 1) env (onceTree t₁ t₂ l lm object key c)) =
      fun k => (do
        let _ ← evaluate limit k env (Tree.assign t₁ object)
        let _ ← evaluate limit k env (Tree.assign t₂ key)
        evaluate limit k env (c.tree l (memberOf lm (.identifier t₁) (.identifier t₂)))) := by
    funext k
    have row (items : List Tree) : Eval.attempt (Tree.tuple items).items = pure items := rfl
    rw [onceTree, Tree.new, evaluate, row, pure_bind]
    simp only [List.foldlM_cons, List.foldlM_nil, bind_pure]
  have parts : (fun k => modifyOnce limit k env t₁ t₂ lm object key c) = fun k => (do
      let _ ← (do
        let v ← evaluate limit k env object
        writeName env (.text t₁) none v
        return v : Eval Value)
      let _ ← (do
        let v ← evaluate limit k env key
        writeName env (.text t₂) none v
        return v : Eval Value)
      modifyMember limit k env lm (.identifier t₁) (.identifier t₂) c) := by
    funext k
    simp only [modifyOnce, bind_assoc, pure_bind]
  refine Equivalent.later ?_ (by rw [evaluate])
  rw [deeper, parts]
  exact (equivalent_assign limit env t₁ object).bind fun _ =>
    (equivalent_assign limit env t₂ key).bind fun _ =>
      equivalent_modifyMember compound limit env l lm _ _

/-! ## Modifications that find their target again -/

/-- The target of a modification is found again: when the new value is known, the object and the key
come to what they were, and do nothing else. -/
def FoundAgain (limit env : Nat) (l : Option Location) (object key : Tree) (c : Modification)
    (m : Machine) : Prop :=
  ∀ fuel owner m₁ index m₂ current m₃ p m₄, evaluate limit fuel env object m = .ok owner m₁ →
    evaluate limit fuel env key m₁ = .ok index m₂ → getProperty l owner index m₂ = .ok current m₃ →
    c.step limit fuel env current m₃ = .ok p m₄ →
    ∃ fuel', evaluate limit fuel' env object m₄ = .ok owner m₄ ∧
      evaluate limit fuel' env key m₄ = .ok index m₄

/-- A modification whose expressions mention none of some names. -/
structure Unnamed (names : List Text) (object key : Tree) (c : Modification) : Prop where
  object : object.Avoids names
  key : key.Avoids names
  operand : ∀ right ∈ c.operand?, right.Avoids names

/-- What becomes of a value does not depend on variables that are not mentioned. -/
theorem discreet_step {names : List Text} {home n env : Nat} {c : Modification} (inside : env < n)
    (avoids : ∀ right ∈ c.operand?, right.Avoids names) (limit fuel : Nat) (current : Value) :
    Discreet names home n (c.step limit fuel env current) := by
  have lawful := lawful_discreet names home
  cases c with
  | assignment operator right =>
    refine discreet_bind (discreet_bind (discreet_attempt _) lawful.operatorOf) fun op => ?_
    refine discreet_bind ((lawful.upheld limit fuel).evaluate ⟨inside, avoids right rfl⟩) fun v => ?_
    exact discreet_bind (discreet_operation (.operate op current v)) fun _ => discreet_pure _
  | update operator isPrefix =>
    exact discreet_bind (discreet_operation (.numberOf current)) fun _ => discreet_pure _

/-- Changes of the environments are all that can keep variables from being found again. -/
theorem foundAgain_identifiers {limit env : Nat} {l : Option Location} {x y : Text}
    {c : Modification} {m : Machine}
    (untouched : ∀ fuel current m, Always (Untouched m) (fun _ => True)
    (c.step limit fuel env current)) :
    FoundAgain limit env l (.identifier x) (.identifier y) c m := by
  intro fuel owner m₁ index m₂ current m₃ p m₄ first second read done
  -- Both names are read without a trace, and what the step leaves untouched is read again.
  cases fuel with
  | zero =>
    rw [evaluate] at first
    cases first
  | succ fuel =>
    rw [evaluate_identifier] at first second
    obtain ⟨foundOwner, rfl⟩ := readName_ok first
    obtain ⟨foundIndex, rfl⟩ := readName_ok second
    have got := (plain_getProperty l owner index _ ⟨rfl, rfl, rfl, rfl⟩).of_ok read
    have stays := (untouched _ current m₂ m₃ got).of_ok done
    have known {z : Text} {v : Value} (found : m₂.store.lookup? env z = some v) :
        m₄.store.lookup? env z = some v := by
      rw [← found]
      exact Store.lookup?_congr stays.environments env z
    refine ⟨fuel + 1, ?_, ?_⟩
    · rw [evaluate_identifier]
      exact Simulation.readName_of_lookup? none (known foundOwner)
    · rw [evaluate_identifier]
      exact Simulation.readName_of_lookup? none (known foundIndex)

section Once

variable {limit env n k : Nat} {t₁ t₂ : Text} {l : Option Location} {object key : Tree}
  {c : Modification} {m m₁ m₂ : Machine} {owner index : Value}

/-- Two variables that have been set have the values that they were set to. -/
theorem evaluate_pair (limit k : Nat) (distinct : t₁ ≠ t₂) (bound : m.store.Binds env [t₁, t₂])
    (v w : Value) :
    evaluate limit (k + 1) env (.identifier t₁) (m.setEach env [(t₁, v), (t₂, w)]) =
        .ok v (m.setEach env [(t₁, v), (t₂, w)]) ∧
      evaluate limit (k + 1) env (.identifier t₂) (m.setEach env [(t₁, v), (t₂, w)]) =
        .ok w (m.setEach env [(t₁, v), (t₂, w)]) := by
  have keys : ([(t₁, v), (t₂, w)].map (·.1)).Nodup := by simp [distinct]
  have value {e : Text × Value} (he : e ∈ [(t₁, v), (t₂, w)]) :
      (m.store.setEach env [(t₁, v), (t₂, w)]).lookup? env e.1 = some e.2 :=
    Store.lookup?_setEach_of_mem bound keys he
  rw [evaluate_identifier, evaluate_identifier]
  exact ⟨Simulation.readName_of_lookup? none (value List.mem_cons_self),
    Simulation.readName_of_lookup? none (value (List.mem_cons_of_mem _ List.mem_cons_self))⟩

/-- With the values of the object and the key, which they have again when the new value is stored. -/
theorem modifyOnce_eq (distinct : t₁ ≠ t₂) (inside : env < n)
    (unnamed : Unnamed [t₁, t₂] object key c)
    (first : evaluate limit (k + 1) env object m = .ok owner m₁)
    (second : evaluate limit (k + 1) env key m₁ = .ok index m₂)
    (spares₁ : Sparing [t₁, t₂] env n m₁) (spares₂ : Sparing [t₁, t₂] env n m₂)
    (again : ∀ current m₃ p m₄, getProperty l owner index m₂ = .ok current m₃ →
      c.step limit (k + 1) env current m₃ = .ok p m₄ →
      evaluate limit (k + 1) env object m₄ = .ok owner m₄ ∧
        evaluate limit (k + 1) env key m₄ = .ok index m₄) :
    modifyOnce limit (k + 1) env t₁ t₂ l object key c m =
      afterwards (·.setEach env [(t₁, owner), (t₂, index)])
        (modifyMember limit (k + 1) env l object key c m) := by
  let entries : List (Text × Value) := [(t₁, owner), (t₂, index)]
  have among : ∀ e ∈ entries, e.1 ∈ [t₁, t₂] := by simp [entries]
  -- Both programs come to reading the member of the same values.
  have stagedFirst := writeName_bound (spares₁.bound t₁ List.mem_cons_self) none owner
  have keyed : evaluate limit (k + 1) env key (m₁.setEach env [(t₁, owner)]) =
      .ok index (m₂.setEach env [(t₁, owner)]) :=
    (spares₁.ignores inside unnamed.key limit (k + 1) [(t₁, owner)] (by simp)).trans
      (congrArg _ second)
  have stagedSecond : writeName env (.text t₂) none index (m₂.setEach env [(t₁, owner)]) =
      .ok () (m₂.setEach env entries) := by
    have binds : (m₂.setEach env [(t₁, owner)]).store.declares env t₂ = true := by
      rw [Machine.setEach, Store.declares_setEach (binds_entries spares₂.bound (by simp))]
      exact spares₂.bound t₂ (List.mem_cons_of_mem _ List.mem_cons_self)
    rw [writeName_bound binds, ← Machine.setEach_append]
    rfl
  have once : modifyOnce limit (k + 1) env t₁ t₂ l object key c m =
      modifyMember limit (k + 1) env l (.identifier t₁) (.identifier t₂) c
        (m₂.setEach env entries) := by
    rw [modifyOnce, Simulation.bind_of_ok first, Simulation.bind_of_ok stagedFirst,
      Simulation.bind_of_ok keyed, Simulation.bind_of_ok stagedSecond]
  have readTwice : readMember limit (k + 1) env l object key m = getProperty l owner index m₂ := by
    rw [readMember, Simulation.bind_of_ok first, Simulation.bind_of_ok second]
  have readOnce : readMember limit (k + 1) env l (.identifier t₁) (.identifier t₂)
      (m₂.setEach env entries) =
        afterwards (·.setEach env entries) (getProperty l owner index m₂) := by
    obtain ⟨object, key⟩ :=
      evaluate_pair limit k distinct spares₂.bound owner index
    rw [readMember, Simulation.bind_of_ok object, Simulation.bind_of_ok key]
    exact Ignores.aside (aside_getProperty l owner index) entries among
  have reads : Discreet [t₁, t₂] env n (getProperty l owner index) :=
    discreet_operation (.getProperty l owner index)
  rw [once, modifyMember, modifyMember]
  cases read : getProperty l owner index m₂ with
  | error e m₃ =>
    rw [read] at readTwice readOnce
    rw [Simulation.bind_of_error readTwice, Simulation.bind_of_error readOnce]
    rfl
  | ok current m₃ =>
    rw [read] at readTwice readOnce
    have spares₃ := (reads.1 m₂ spares₂).of_ok read
    have steps : Discreet [t₁, t₂] env n (c.step limit (k + 1) env current) :=
      discreet_step inside unnamed.operand limit (k + 1) current
    have stepped := steps.2 m₃ spares₃ entries among
    rw [Simulation.bind_of_ok readTwice, Simulation.bind_of_ok readOnce]
    cases done : c.step limit (k + 1) env current m₃ with
    | error e m₄ =>
      rw [done] at stepped
      rw [Simulation.bind_of_error done, Simulation.bind_of_error stepped]
      rfl
    | ok p m₄ =>
      rw [done] at stepped
      have spares₄ := (steps.1 m₃ spares₃).of_ok done
      obtain ⟨object₄, key₄⟩ := again current m₃ p m₄ read done
      obtain ⟨objectOnce, keyOnce⟩ :=
        evaluate_pair limit k distinct spares₄.bound owner index
      have stored : setProperty l owner index p.1 (m₄.setEach env entries) = _ :=
        Ignores.aside (aside_setProperty l owner index p.1) entries among
      rw [Simulation.bind_of_ok done, Simulation.bind_of_ok stepped, storeMember, storeMember,
        bind_assoc, bind_assoc, Simulation.bind_of_ok object₄, Simulation.bind_of_ok objectOnce,
        bind_assoc, bind_assoc, Simulation.bind_of_ok key₄, Simulation.bind_of_ok keyOnce]
      cases set : setProperty l owner index p.1 m₄ with
      | error e m₅ =>
        rw [set] at stored
        rw [Simulation.bind_of_error set, Simulation.bind_of_error stored]
        rfl
      | ok u m₅ =>
        rw [set] at stored
        rw [Simulation.bind_of_ok set, Simulation.bind_of_ok stored]
        rfl

/-- Whatever comes of evaluating the object and the key, the two programs come to the same with as
much fuel as lets the target be found again. -/
theorem modifyOnce_of_again (distinct : t₁ ≠ t₂) (inside : env < n)
    (unnamed : Unnamed [t₁, t₂] object key c) (spares : Sparing [t₁, t₂] env n m)
    (again : ∀ owner m₁ index m₂ current m₃ p m₄, evaluate limit (k + 1) env object m = .ok owner m₁ →
      evaluate limit (k + 1) env key m₁ = .ok index m₂ →
      getProperty l owner index m₂ = .ok current m₃ →
      c.step limit (k + 1) env current m₃ = .ok p m₄ →
      evaluate limit (k + 1) env object m₄ = .ok owner m₄ ∧
        evaluate limit (k + 1) env key m₄ = .ok index m₄) :
    ∃ entries : List (Text × Value), (∀ e ∈ entries, e.1 ∈ [t₁, t₂]) ∧
      modifyOnce limit (k + 1) env t₁ t₂ l object key c m =
        afterwards (·.setEach env entries) (modifyMember limit (k + 1) env l object key c m) := by
  -- How far the object and the key get says which of the two variables are set: none, the first or
  -- both.
  cases first : evaluate limit (k + 1) env object m with
  | error e m₁ =>
    refine ⟨[], List.forall_mem_nil _, ?_⟩
    have read : readMember limit (k + 1) env l object key m = .error e m₁ := by
      rw [readMember, Simulation.bind_of_error first]
    rw [modifyOnce, Simulation.bind_of_error first, modifyMember, Simulation.bind_of_error read]
    rfl
  | ok owner m₁ =>
    have spares₁ := (spares.evaluate inside unnamed.object limit (k + 1)).of_ok first
    have staged := writeName_bound (spares₁.bound t₁ List.mem_cons_self) none owner
    have ignored := spares₁.ignores inside unnamed.key limit (k + 1) [(t₁, owner)] (by simp)
    cases second : evaluate limit (k + 1) env key m₁ with
    | error e m₂ =>
      refine ⟨[(t₁, owner)], by simp, ?_⟩
      rw [second] at ignored
      have read : readMember limit (k + 1) env l object key m = .error e m₂ := by
        rw [readMember, Simulation.bind_of_ok first, Simulation.bind_of_error second]
      rw [modifyOnce, Simulation.bind_of_ok first, Simulation.bind_of_ok staged,
        Simulation.bind_of_error ignored, modifyMember, Simulation.bind_of_error read]
      rfl
    | ok index m₂ =>
      have spares₂ := (spares₁.evaluate inside unnamed.key limit (k + 1)).of_ok second
      refine ⟨[(t₁, owner), (t₂, index)], by simp, ?_⟩
      exact modifyOnce_eq distinct inside unnamed first second spares₁ spares₂
        fun current m₃ p m₄ => again owner m₁ index m₂ current m₃ p m₄ first second

/-- If the target is found again, the two programs come to the same with all fuel that is large
enough. -/
theorem modifyOnce_eventually (distinct : t₁ ≠ t₂) (inside : env < n)
    (unnamed : Unnamed [t₁, t₂] object key c) (spares : Sparing [t₁, t₂] env n m)
    (again : FoundAgain limit env l object key c m) :
    ∃ bound, ∀ k, bound ≤ k → ∃ entries : List (Text × Value), (∀ e ∈ entries, e.1 ∈ [t₁, t₂]) ∧
      modifyOnce limit k env t₁ t₂ l object key c m =
        afterwards (·.setEach env entries) (modifyMember limit k env l object key c m) := by
  -- With how much fuel the new value is known, if it is ever known.
  by_cases known : ∃ fuel owner m₁ index m₂ current m₃ p m₄,
      evaluate limit fuel env object m = .ok owner m₁ ∧
      evaluate limit fuel env key m₁ = .ok index m₂ ∧
      getProperty l owner index m₂ = .ok current m₃ ∧
      c.step limit fuel env current m₃ = .ok p m₄
  · obtain ⟨fuel, owner, m₁, index, m₂, current, m₃, p, m₄, first, second, read, done⟩ := known
    obtain ⟨fuel', object₄, key₄⟩ :=
      again fuel owner m₁ index m₂ current m₃ p m₄ first second read done
    have settles {e : Tree} {fuel : Nat} {v : Value} {m m' : Machine}
        (h : evaluate limit fuel env e m = .ok v m') :
        ∃ bound, ∀ k, bound ≤ k → evaluate limit k env e m = .ok v m' :=
      ((Equivalent.evaluate limit env e).forth fuel).settles h
    obtain ⟨b₁, firstLater⟩ := settles first
    obtain ⟨b₂, secondLater⟩ := settles second
    obtain ⟨b₃, doneLater⟩ := ((equivalent_step c limit env current).forth fuel).settles done
    obtain ⟨b₄, objectLater⟩ := settles object₄
    obtain ⟨b₅, keyLater⟩ := settles key₄
    refine ⟨b₁ + b₂ + b₃ + b₄ + b₅ + 1, fun k hk => ?_⟩
    obtain ⟨k, rfl⟩ : ∃ i, k = i + 1 := ⟨k - 1, by omega⟩
    refine modifyOnce_of_again distinct inside unnamed spares ?_
    intro owner' m₁' index' m₂' current' m₃' p' m₄' first' second' read' done'
    cases (firstLater _ (by omega)).symm.trans first'
    cases (secondLater _ (by omega)).symm.trans second'
    cases read.symm.trans read'
    cases (doneLater _ (by omega)).symm.trans done'
    exact ⟨objectLater _ (by omega), keyLater _ (by omega)⟩
  · refine ⟨1, fun k hk => ?_⟩
    obtain ⟨k, rfl⟩ : ∃ i, k = i + 1 := ⟨k - 1, by omega⟩
    refine modifyOnce_of_again distinct inside unnamed spares ?_
    intro owner m₁ index m₂ current m₃ p m₄ first second read done
    exact (known ⟨_, owner, m₁, index, m₂, current, m₃, p, m₄, first, second, read, done⟩).elim

end Once

/-- Variables have nothing to do with whether the fuel was enough. -/
theorem conclusive_afterwards {α : Type} {f : Machine → Machine}
    {r : EStateM.Result Interrupt Machine α} : Conclusive (afterwards f r) ↔ Conclusive r := by
  cases r with
  | ok a m => exact ⟨fun _ => nofun, fun _ => nofun⟩
  | error e m =>
    constructor
    · rintro ends m' ⟨⟩
      exact ends _ rfl
    · rintro ends m' ⟨⟩
      exact ends _ rfl

/-- A modification of a member by a computed key evaluates the object and the key, reads the member,
evaluates the operand once, and evaluates the object and the key again to store the new value: this
is what it comes to, whatever these do. If the target is found again, it comes to the same as
evaluating the object and the key once, into two variables that the environment binds and that no
code mentions, and modifying the member of these: each of the two programs ends with what the other
one ends with, but for the values of the two variables. -/
theorem modification_once {limit env : Nat} {t₁ t₂ : Text} {l lm : Option Location}
    {object key : Tree} {c : Modification} {m : Machine} (compound : c.IsCompound)
    (distinct : t₁ ≠ t₂) (unnamed : Unnamed [t₁, t₂] object key c)
    (spares : Sparing [t₁, t₂] env (env + 1) m) (again : FoundAgain limit env lm object key c m) :
    (∀ r, Conclusive r →
      ((∃ fuel, evaluate limit fuel env (c.tree l (memberOf lm object key)) m = r) ↔
        ∃ fuel, modifyMember limit fuel env lm object key c m = r)) ∧
    (∀ r, Conclusive r →
      (∃ fuel, evaluate limit fuel env (c.tree l (memberOf lm object key)) m = r) →
      ∃ entries : List (Text × Value), (∀ e ∈ entries, e.1 ∈ [t₁, t₂]) ∧
        ∃ fuel, evaluate limit fuel env (onceTree t₁ t₂ l lm object key c) m =
          afterwards (·.setEach env entries) r) ∧
    ∀ r, Conclusive r →
      (∃ fuel, evaluate limit fuel env (onceTree t₁ t₂ l lm object key c) m = r) →
      ∃ r' entries, (∀ e ∈ entries, e.1 ∈ [t₁, t₂]) ∧ r = afterwards (·.setEach env entries) r' ∧
        ∃ fuel, evaluate limit fuel env (c.tree l (memberOf lm object key)) m = r' := by
  have twice := equivalent_modifyMember compound limit env l lm object key
  have once := equivalent_modifyOnce compound limit env t₁ t₂ l lm object key
  obtain ⟨bound, same⟩ :=
    modifyOnce_eventually distinct (Nat.lt_succ_self env) unnamed spares again
  refine ⟨fun r ends => (twice.exists_iff ends).symm, fun r ends reached => ?_,
    fun r ends reached => ?_⟩
  -- Forth: the run that evaluates twice ends, and the other one ends with the temporaries set in
  -- addition.
  · obtain ⟨fuel, rfl⟩ := reached
    obtain ⟨n, settled⟩ := twice.back fuel m ends
    obtain ⟨entries, among, equal⟩ := same (max n bound) (Nat.le_max_right n bound)
    have equal := equal.trans (congrArg _ (settled _ (Nat.le_max_left n bound)))
    exact ⟨entries, among, (once.exists_iff (conclusive_afterwards.mpr ends)).mp ⟨_, equal⟩⟩
  -- Back: the run with temporaries ends, and taking them away gives the end of the other one.
  · obtain ⟨fuel, rfl⟩ := reached
    obtain ⟨n, settled⟩ := once.back fuel m ends
    obtain ⟨entries, among, equal⟩ := same (max n bound) (Nat.le_max_right n bound)
    have equal := (settled _ (Nat.le_max_left n bound)).symm.trans equal
    have ends := conclusive_afterwards.mp (equal ▸ ends)
    exact ⟨_, entries, among, equal, (twice.exists_iff ends).mp ⟨_, rfl⟩⟩

/-- An activation with an array of 1, 2 and 3 and a position in it, and with two variables that
nothing mentions. -/
def arrayActivation : Machine where
  store := ({ Store.initial with
      arrays := #[#[.number .one, .number (Double.ofNat 2), .number (Double.ofNat 3)]] }.child
        Store.globalEnvironment).2.setEach 1
    [("a", .array 0), ("i", .number (.zero false)), ("t", .undefined), ("u", .undefined)]
  depth := 0
  strict := false

/-- The activation with an array mentions neither of the two variables anywhere. -/
theorem sparing_arrayActivation : Sparing ["t", "u"] 1 2 arrayActivation where
  chained := by
    refine Store.Chained.setEach (Store.Chained.child ?_ (by decide)) 1 _
    exact Store.chained_initial.congr rfl rfl
  enough := by decide
  inside := by decide
  bound := by unfold Store.Binds; decide
  functions := nofun

/-- The modification `+= 10`. -/
def addsTen : Modification :=
  .assignment (.text "+=") (Tree.new (.literal (.num (Double.ofNat 10))))

/-- Adding a number changes no variables. -/
theorem untouched_addsTen {limit env : Nat} (fuel : Nat) (current : Value) (m : Machine) :
    Always (Untouched m) (fun _ => True) (addsTen.step limit fuel env current) := by
  have operator : Always (Untouched m) (fun _ => True) (compoundOf (.text "+=")) := .pure _
  have ten : Always (Untouched m) (fun _ => True)
      (evaluate limit fuel env (Tree.new (.literal (.num (Double.ofNat 10))))) := by
    cases fuel with
    | zero =>
      rw [evaluate]
      exact .throw trivial
    | succ fuel =>
      rw [Tree.new, evaluate]
      exact .pure _
  exact operator.bind fun op => ten.bind fun operand =>
    Always.bind (.read fun _ _ _ => trivial) fun v => .pure _

/-- The number that a value is. -/
def numberOf? : Value → Option Double
  | .number d => some d
  | _ => none

/-- The items of the array when an evaluation has come to a value, if these are numbers. -/
def itemsAfter : EStateM.Result Interrupt Machine Value → Option (List Double)
  | .ok _ m => (m.store.items 0).toList.mapM numberOf?
  | .error .. => none

/-- In `a[i] += 10` the target is found again. -/
theorem modification_once_addsTen :
    let target := memberOf none (.identifier "a") (.identifier "i")
    Unnamed ["t", "u"] (.identifier "a") (.identifier "i") addsTen ∧
      FoundAgain 5 1 none (.identifier "a") (.identifier "i") addsTen arrayActivation ∧
      itemsAfter (evaluate 5 10 1 (addsTen.tree none target) arrayActivation) =
        some ([11, 2, 3].map Double.ofNat) ∧
      ∃ entries : List (Text × Value), (∀ e ∈ entries, e.1 ∈ [Text.ofString "t", "u"]) ∧
        ∃ fuel, evaluate 5 fuel 1 (onceTree "t" "u" none none (.identifier "a") (.identifier "i")
            addsTen) arrayActivation =
          afterwards (·.setEach 1 entries) (evaluate 5 10 1 (addsTen.tree none target)
            arrayActivation) := by
  intro target
  -- Both operands are names, so that they are found again.
  have unnamed : Unnamed ["t", "u"] (.identifier "a") (.identifier "i") addsTen :=
    ⟨by decide, by decide, fun right hr => by cases hr; decide⟩
  have again : FoundAgain 5 1 none (.identifier "a") (.identifier "i") addsTen arrayActivation :=
    foundAgain_identifiers untouched_addsTen
  have outcome : itemsAfter (evaluate 5 10 1 (addsTen.tree none target) arrayActivation) =
      some ([11, 2, 3].map Double.ofNat) := by decide +kernel
  refine ⟨unnamed, again, outcome, ?_⟩
  obtain ⟨-, forth, -⟩ := modification_once (l := none) (c := addsTen)
    (show addsTen.IsCompound by unfold Modification.IsCompound addsTen; decide)
    (by decide) unnamed sparing_arrayActivation again
  refine forth _ (fun m out => ?_) ⟨10, rfl⟩
  rw [out] at outcome
  cases outcome

/-- An increment of the position, whose value is the position before. -/
def advances : Tree := Tree.new (.update (.text "++") (.identifier "i") (.bool false))

/-- In `a[i++] += 10` the position is incremented twice: the value of the first item is put into the
second one. Evaluating the object and the key once increments it once, and changes the first item. -/
theorem modification_once_advances :
    let twice := evaluate 5 12 1 (addsTen.tree none (memberOf none (.identifier "a") advances))
      arrayActivation
    let once fuel := evaluate 5 fuel 1
      (onceTree "t" "u" none none (.identifier "a") advances addsTen) arrayActivation
    Unnamed ["t", "u"] (.identifier "a") advances addsTen ∧
      Sparing ["t", "u"] 1 2 arrayActivation ∧
      itemsAfter twice = some ([1, 11, 3].map Double.ofNat) ∧
      itemsAfter (once 12) = some ([11, 2, 3].map Double.ofNat) ∧
      ¬∃ entries : List (Text × Value), (∀ e ∈ entries, e.1 ∈ [Text.ofString "t", "u"]) ∧
        ∃ fuel, once fuel = afterwards (·.setEach 1 entries) twice := by
  intro twice once
  have outcome : itemsAfter twice = some ([1, 11, 3].map Double.ofNat) := by decide +kernel
  have outcomeOnce : itemsAfter (once 12) = some ([11, 2, 3].map Double.ofNat) := by
    decide +kernel
  refine ⟨⟨by decide, by decide, fun right hr => by cases hr; decide⟩, sparing_arrayActivation,
    outcome, outcomeOnce, ?_⟩
  rintro ⟨entries, among, fuel, same⟩
  have conclusive {r : EStateM.Result Interrupt Machine Value} {ds : List Double}
      (h : itemsAfter r = some ds) : Conclusive r := by
    rintro m rfl
    cases h
  have ends : Conclusive (once fuel) := same ▸ conclusive_afterwards.mpr (conclusive outcome)
  have unique : once 12 = once fuel :=
    (Equivalent.evaluate 5 1 _).unique (m := arrayActivation) (conclusive outcomeOnce) ends
  rw [unique, same] at outcomeOnce
  -- Setting the two variables leaves the array.
  have array : itemsAfter (afterwards (·.setEach 1 entries) twice) = itemsAfter twice := by
    cases twice with
    | error e m => rfl
    | ok v m =>
      have set := Store.setEach_eq (s := m.store) rfl 1 entries
      have stays : (m.store.setEach 1 entries).items 0 = m.store.items 0 :=
        (congrArg (·.items 0) set).trans rfl
      exact congrArg (·.toList.mapM numberOf?) stays
  have different := outcome.symm.trans (array.symm.trans outcomeOnce)
  exact absurd different (by decide)

end TailLoop.Eval
