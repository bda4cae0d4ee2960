import TailLoop.Proofs.Elimination.Declarations
import TailLoop.Proofs.Interpreter.Regimes
import TailLoop.Proofs.Interpreter.Heritable
import TailLoop.Proofs.Interpreter.Variables

/-!
# Functions that call themselves

Elimination takes a call for a call of the own function by its name alone (`Tree.selfName?`). In
a program that never sets a name, and none of whose scopes declares two functions of the name,
this is right: wherever a function that can call itself by the name is about to call something by
it, the name stands for this very function (`self_calls_reach_themselves`). This is said by an
evaluation that knows whose call it is in and gives an alarm otherwise (`aware`).

What has to be kept is that every such function is bound to the name in the environment in which
it was made, and that its calls do not bind the name themselves (`Store.Reaches`). Between the
making of a function and its declaration this does not hold, so that functions are looked at when
both are done.
-/

namespace TailLoop

namespace Tree

/-- No node of a tree sets a variable of a name. -/
def Unset (x : Text) (t : Tree) : Prop := t.All fun u => ∀ v ∈ u.targets, v.nameText? ≠ some x

instance (x : Text) (t : Tree) : Decidable (t.Unset x) :=
  inferInstanceAs (Decidable (t.All fun u => ∀ v ∈ u.targets, v.nameText? ≠ some x))

/-- A program or function has at most one inner function of a name. -/
def DeclaresOnce (x : Text) (f : Tree) : Prop :=
  f.scopeFunctions.countP (·.nameText? == some x) ≤ 1

instance (x : Text) (f : Tree) : Decidable (f.DeclaresOnce x) :=
  inferInstanceAs (Decidable (_ ≤ _))

/-- What is asked of the nodes of a program: they do not set the name, and functions are
well-formed and have at most one inner function of the name. -/
structure Fair (x : Text) (u : Tree) : Prop where
  unset : ∀ v ∈ u.targets, v.nameText? ≠ some x
  once : u.isFunction = true → u.DeclaresOnce x
  wellFormed : u.isFunction = true → ∃ checked c, Validity.WellFormed checked c u

end Tree

/-- The name by which a function can call itself from its own scope. -/
def Closure.selfName? (c : Closure) : Option Text :=
  (Tree.new (.function .expression c.id c.params c.body)).selfName?

/-- It is the name of the function. -/
theorem Closure.nameText?_of_selfName? {c : Closure} {x : Text} (self : c.selfName? = some x) :
    c.id.nameText? = some x := by
  unfold selfName? Tree.new Tree.selfName? at self
  exact (Option.filter_eq_some_iff.mp self).1

/-- The function that a value is. -/
def Value.closure? : Value → Option Nat
  | .function ref => some ref
  | _ => none

namespace Store

/-- The value that an environment gives to a name itself. -/
def own? (s : Store) (env : Nat) (x : Text) : Option Value :=
  (s.environments[env]?).bind fun e => e.bindings.lookup x

/-- The environment around an environment. -/
def parent? (s : Store) (env : Nat) : Option Nat := (s.environments[env]?).bind (·.parent)

section Own

variable {s : Store} {env env' parent : Nat} {x y : Text} {v : Value}

/-- Declaring a name leaves the others of the environment. -/
theorem own?_declare_ne (other : x ≠ y) : (s.declare env y v).own? env' x = s.own? env' x := by
  rw [own?, own?, Simulation.environments_declare]
  split
  · cases s.environments[env']? with
    | none => rfl
    | some e => exact Simulation.lookup_putEntry_ne other v e.bindings
  · rfl

/-- It leaves the other environments. -/
theorem own?_declare_elsewhere (other : env ≠ env') :
    (s.declare env y v).own? env' x = s.own? env' x := by
  rw [own?, own?, Simulation.environments_declare, if_neg other]

/-- It sets the name. -/
theorem own?_declare_self (inside : env < s.environments.size) :
    (s.declare env x v).own? env x = some v := by
  rw [own?, Simulation.environments_declare, if_pos rfl, Array.getElem?_eq_getElem inside]
  exact lookup_putEntry_self x v _

/-- It does not change what lies around an environment. -/
theorem parent?_declare : (s.declare env y v).parent? env' = s.parent? env' := by
  rw [parent?, parent?, Simulation.environments_declare]
  split
  · cases s.environments[env']? <;> rfl
  · rfl

/-- It adds no environment. -/
theorem size_declare : (s.declare env y v).environments.size = s.environments.size :=
  Array.size_modify

/-- A new environment leaves the names of the others. -/
theorem own?_child (inside : env < s.environments.size) :
    (s.child parent).2.own? env x = s.own? env x := by
  rw [own?, own?, Store.child, Array.getElem?_push, if_neg (Nat.ne_of_lt inside)]

/-- It leaves what lies around them. -/
theorem parent?_child (inside : env < s.environments.size) :
    (s.child parent).2.parent? env = s.parent? env := by
  rw [parent?, parent?, Store.child, Array.getElem?_push, if_neg (Nat.ne_of_lt inside)]

/-- It binds no names. -/
theorem own?_child_self : (s.child parent).2.own? s.environments.size x = none := by
  rw [own?, Store.child, Array.getElem?_push, if_pos rfl]
  rfl

/-- It lies in the environment that it was made for. -/
theorem parent?_child_self : (s.child parent).2.parent? s.environments.size = some parent := by
  rw [parent?, Store.child, Array.getElem?_push, if_pos rfl]
  rfl

/-- A function is one of those before, or the one that was made last. -/
theorem closure_newClosure {c c' : Closure} {ref : Nat}
    (found : (s.newClosure c).2.closures[ref]? = some c') :
    s.closures[ref]? = some c' ∨ ref = s.closures.size ∧ c' = c := by
  rw [Store.newClosure, Array.getElem?_push] at found
  split at found
  · rename_i last
    cases found
    exact .inr ⟨last, rfl⟩
  · exact .inl found

/-- A name that an environment does not bind, but the one around it does. -/
theorem lookup?_of_parent (free : s.own? env x = none) (around : s.parent? env = some parent)
    (before : parent < env) (found : s.own? parent x = some v) : s.lookup? env x = some v := by
  have declares {i : Nat} : s.declares i x = (s.own? i x).isSome := by
    rw [Store.declares, own?]
    cases s.environments[i]? <;> rfl
  have parents : (s.environments[env]?.map (·.parent)).join = some parent := by
    rw [← around, parent?]
    cases s.environments[env]? <;> rfl
  -- The search takes two steps, for which there is room as the one around comes before.
  obtain ⟨k, rfl⟩ : ∃ k, env = k + 1 := ⟨env - 1, by omega⟩
  rw [lookup?, resolve?, resolveWithin_succ, declares, free, parents]
  simp only [Option.isSome_none, Bool.false_eq_true, if_false, Option.bind_some]
  rw [resolveWithin_succ, declares, found]
  exact found

end Own

/-- Whether a name stands for the function in whose call an environment is used, if this function
can call itself by the name. -/
def findsItself (x : Text) (s : Store) (caller : Option Nat) (env : Nat) : Bool :=
  caller.all fun ref => (s.closures[ref]?).all fun c =>
    c.selfName? != some x || (s.lookup? env x).bind Value.closure? == some ref

/-- Every function that can call itself by a name is bound to the name where it was made, and hidden
by nothing in its calls. The calls under way are given by their environments, each with the function
that was called; the program itself has none. -/
structure Reaches (x : Text) (calls : List (Nat × Option Nat)) (s : Store) : Prop where
  code {ref : Nat} {c : Closure} (found : s.closures[ref]? = some c) :
    ∃ l form, Tree.Consists (Tree.Fair x) (.node l (.function form c.id c.params c.body))
  inside {ref : Nat} {c : Closure} (found : s.closures[ref]? = some c) :
    c.environment < s.environments.size
  bound {ref : Nat} {c : Closure} (found : s.closures[ref]? = some c)
    (own : c.selfName? = some x) : s.own? c.environment x = some (.function ref)
  entered {env : Nat} {caller : Option Nat} (mem : (env, caller) ∈ calls) :
    env < s.environments.size
  called {env ref : Nat} (mem : (env, some ref) ∈ calls) :
    ∃ c, s.closures[ref]? = some c ∧ c.environment < env ∧
      (c.selfName? = some x → s.own? env x = none ∧ s.parent? env = some c.environment)

/-- A name can be bound anew in an environment: no function relies on what it stands for. -/
structure Vacant (x : Text) (calls : List (Nat × Option Nat)) (env : Nat) (s : Store) : Prop where
  unused {ref : Nat} {c : Closure} (found : s.closures[ref]? = some c)
    (own : c.selfName? = some x) : c.environment ≠ env
  unhidden {ref : Nat} {c : Closure} (mem : (env, some ref) ∈ calls)
    (found : s.closures[ref]? = some c) : c.selfName? ≠ some x

namespace Reaches

variable {x y : Text} {calls : List (Nat × Option Nat)} {s s' : Store} {env : Nat} {v : Value}
  (h : s.Reaches x calls)

include h

/-- Whether calls are reached lies in the environments and functions of the store. -/
theorem congr (environments : s'.environments = s.environments)
    (closures : s'.closures = s.closures) : s'.Reaches x calls := by
  have own (env : Nat) : s'.own? env x = s.own? env x := by rw [own?, own?, environments]
  have parent (env : Nat) : s'.parent? env = s.parent? env := by rw [parent?, parent?, environments]
  exact {
    code := fun found => h.code (closures ▸ found)
    inside := fun found => environments ▸ h.inside (closures ▸ found)
    bound := fun found self => (own _).trans (h.bound (closures ▸ found) self)
    entered := fun mem => environments ▸ h.entered mem
    called := fun mem => by
      obtain ⟨c, found, before, hidden⟩ := h.called mem
      exact ⟨c, closures ▸ found, before, fun self =>
        ⟨(own _).trans (hidden self).1, (parent _).trans (hidden self).2⟩⟩ }

/-- In its calls, a function is found by the name by which it can call itself. -/
theorem findsItself {caller : Option Nat} (mem : (env, caller) ∈ calls) :
    s.findsItself x caller env = true := by
  cases caller with
  | none => rfl
  | some ref =>
    obtain ⟨c, found, before, hidden⟩ := h.called mem
    rw [Store.findsItself, Option.all_some, found, Option.all_some]
    by_cases self : c.selfName? = some x
    · obtain ⟨free, around⟩ := hidden self
      rw [lookup?_of_parent free around before (h.bound found self)]
      simp [Value.closure?]
    · simp [self]

omit h in
/-- A call that has ended need not be reached any more. -/
theorem fewer {call : Nat × Option Nat} (h : s.Reaches x (call :: calls)) : s.Reaches x calls where
  code := h.code
  inside := h.inside
  bound := h.bound
  entered mem := h.entered (List.mem_cons_of_mem _ mem)
  called mem := h.called (List.mem_cons_of_mem _ mem)

/-- A name may be bound if it is another one, or where no function relies on it. -/
theorem declare (free : y = x → s.Vacant x calls env) : (s.declare env y v).Reaches x calls where
  code found := h.code found
  inside found := by
    rw [size_declare]
    exact h.inside found
  -- Setting another name changes nothing about `x`; setting `x` is allowed in a vacant environment
  -- only.
  bound {ref c} found self := by
    by_cases same : y = x
    · rw [own?_declare_elsewhere ((free same).unused found self).symm]
      exact h.bound found self
    · rw [own?_declare_ne (Ne.symm same)]
      exact h.bound found self
  entered mem := by
    rw [size_declare]
    exact h.entered mem
  called {home ref} mem := by
    obtain ⟨c, found, before, hidden⟩ := h.called mem
    refine ⟨c, found, before, fun self => ⟨?_, parent?_declare.trans (hidden self).2⟩⟩
    by_cases same : y = x
    · have other : env ≠ home := by
        rintro rfl
        exact (free same).unhidden mem found self
      exact (own?_declare_elsewhere other).trans (hidden self).1
    · exact (own?_declare_ne (Ne.symm same)).trans (hidden self).1

/-- A new environment changes nothing for the calls that are under way. -/
theorem child (parent : Nat) : (s.child parent).2.Reaches x calls where
  code found := h.code found
  inside found := by
    have := h.inside found
    simp only [Store.child, Array.size_push]
    omega
  bound found self := (own?_child (h.inside found)).trans (h.bound found self)
  entered mem := by
    have := h.entered mem
    simp only [Store.child, Array.size_push]
    omega
  called mem := by
    obtain ⟨c, found, before, hidden⟩ := h.called mem
    exact ⟨c, found, before, fun self => ⟨(own?_child (h.entered mem)).trans (hidden self).1,
      (parent?_child (h.entered mem)).trans (hidden self).2⟩⟩

/-- A function may be made if it is bound to the name by which it can call itself. -/
theorem newClosure {c : Closure}
    (code : ∃ l form, Tree.Consists (Tree.Fair x) (.node l (.function form c.id c.params c.body)))
    (inside : c.environment < s.environments.size)
    (bound : c.selfName? = some x → s.own? c.environment x = some (.function s.closures.size)) :
    (s.newClosure c).2.Reaches x calls where
  code found := by
    -- The closures are the old ones and the new one.
    rcases closure_newClosure found with old | ⟨-, rfl⟩
    · exact h.code old
    · exact code
  inside found := by
    rcases closure_newClosure found with old | ⟨-, rfl⟩
    · exact h.inside old
    · exact inside
  bound found self := by
    rcases closure_newClosure found with old | ⟨rfl, rfl⟩
    · exact h.bound old self
    · exact bound self
  entered := h.entered
  called mem := by
    obtain ⟨c', found, rest⟩ := h.called mem
    obtain ⟨within, -⟩ := Array.getElem?_eq_some_iff.mp found
    refine ⟨c', ?_, rest⟩
    rwa [Store.newClosure, Array.getElem?_push, if_neg (Nat.ne_of_lt within)]

end Reaches

/-- What has to hold while names are bound in an environment, with the names that are still to be
bound. -/
structure Ready (x : Text) (calls : List (Nat × Option Nat)) (env : Nat) (names : List Text)
    (s : Store) : Prop where
  reaches : s.Reaches x calls
  inside : env < s.environments.size
  vacant : x ∈ names → s.Vacant x calls env

namespace Ready

variable {x y : Text} {names : List Text} {calls : List (Nat × Option Nat)} {s : Store} {env : Nat}
  (h : s.Ready x calls env (y :: names))

include h

/-- Names that are still to come may be left out. -/
theorem skip : s.Ready x calls env names :=
  ⟨h.reaches, h.inside, fun mem => h.vacant (List.mem_cons_of_mem y mem)⟩

/-- A name to come that is the one of the function is free. -/
theorem free (same : y = x) : s.Vacant x calls env := h.vacant (same ▸ List.mem_cons_self)

/-- Declaring a name that is not the one of the function changes nothing. -/
theorem declare (v : Value) : (s.declare env y v).Ready x calls env names where
  reaches := h.reaches.declare h.free
  inside := by
    rw [size_declare]
    exact h.inside
  vacant mem :=
    have vacant := h.skip.vacant mem
    ⟨fun found => vacant.unused found, fun mem found => vacant.unhidden mem found⟩

/-- A function is made and declared. There is no other one to be declared of a name by which it can
call itself. -/
theorem newFunction {c : Closure}
    (code : ∃ l form, Tree.Consists (Tree.Fair x) (.node l (.function form c.id c.params c.body)))
    (here : c.environment = env) (named : c.selfName? = some x → y = x)
    (once : y = x → x ∉ names) :
    ((s.newClosure c).2.declare env y (.function s.closures.size)).Ready x calls env names := by
  subst here
  -- Between the two steps the function is not bound to its name. They can be taken the other way
  -- round, since neither looks at what the other one does.
  have declared := h.declare (.function s.closures.size)
  have swap : (s.newClosure c).2.declare c.environment y (.function s.closures.size) =
      ((s.declare c.environment y (.function s.closures.size)).newClosure c).2 := rfl
  rw [swap]
  refine ⟨declared.reaches.newClosure code declared.inside fun self => ?_, declared.inside,
    fun mem => ?_⟩
  · rw [named self]
    exact own?_declare_self h.inside
  · have vacant := declared.vacant mem
    have other : c.selfName? ≠ some x := fun self => once (named self) mem
    refine ⟨fun found self => ?_, fun mem found => ?_⟩
    · rcases closure_newClosure found with old | ⟨-, rfl⟩
      · exact vacant.unused old self
      · exact absurd self other
    · rcases closure_newClosure found with old | ⟨-, rfl⟩
      · exact vacant.unhidden mem old
      · exact other

end Ready

end Store

namespace Tree

variable {x : Text} {l : Option Location} {form : FunctionForm} {id params body : Tree}

/-- The parts of a function in fair code: a name, if it has one and always if it is declared, and
rows of parameters and of statements. -/
theorem Consists.function_parts (h : Consists (Fair x) (.node l (.function form id params body))) :
    (form = .declaration ∨ id.isNull = false → ∃ li y, id = .node li (.identifier (.text y))) ∧
    ∃ ps lb ss, params = .tuple ps ∧ body = .node lb (.block (.tuple ss)) ∧
      (∀ p ∈ ps, Validity.IsName p) ∧ ∀ s ∈ ss, Consists (Fair x) s := by
  obtain ⟨checked, c, wf⟩ := h.own.wellFormed rfl
  cases wf with
  | function named name params =>
    cases h with
    | plain h => cases h
    | node _ inert => cases inert
    | function own parts =>
      refine ⟨fun present => ?_, _, _, _, rfl, rfl, params, parts⟩
      obtain ⟨li, spelled⟩ := present.elim named name
      exact ⟨li, _, rfl⟩

/-- A well-formed program that does not set the name is fair, if none of its scopes declares two
functions of the name. -/
theorem consists_fair {checked : Bool} {c : Validity.Targets} {t : Tree}
    (wf : Validity.WellFormed checked c t) (unset : t.Unset x)
    (once : ∀ f ∈ t.scopes, f.DeclaresOnce x) : t.Consists (Fair x) := by
  have all : t.All fun u => (∀ v ∈ u.targets, v.nameText? ≠ some x) ∧
      (u.isFunction = true → u.DeclaresOnce x) := fun u hu =>
    ⟨unset u hu, fun function => once u (wf.byParts Validity.byParts_functions u hu function)⟩
  refine (wf.consists all).imp fun u fair => ?_
  exact ⟨fair.1.1, fair.1.2, fun function => ⟨checked, fair.2 function⟩⟩

/-- The functions of a row are declared, and in fair code. -/
def Declared (x : Text) (fs : List Tree) : Prop :=
  ∀ f ∈ fs, ∃ l id params body,
    f = .node l (.function .declaration id params body) ∧ f.Consists (Fair x)

/-- When a program or function is entered, its variables and its inner functions are found. -/
theorem Consists.hoisted {f : Tree} (h : f.Consists (Fair x)) {checked : Bool}
    {c : Validity.Targets} (wf : Validity.WellFormed checked c f) :
    (Tree.tuple f.statements).hoisted = .ok ⟨f.scopeVars.map .text, f.scopeFunctions⟩ ∧
      Declared x f.scopeFunctions := by
  have found := hoisted_statements wf.isNamed_scope
  refine ⟨found, fun g hg => ?_⟩
  obtain ⟨⟨l, id, params, body, rfl⟩, code⟩ :=
    (heritable_consists _).hoisted h.statements found hg
  exact ⟨l, id, params, body, rfl, code⟩

end Tree

namespace Eval

open Routines Tree Simulation

/-! ## An evaluation that knows whose call it is in -/

/-- The functions with some fuel, for the call of a function. There is an alarm where the function
is about to call something else by the name by which it can call itself. -/
def aware (x : Text) (alarm : Interrupt) (limit : Nat) :
    (fuel : Nat) → (caller : Option Nat) → Routines
  | 0, _ => idle
  | fuel + 1, caller =>
    { (aware x alarm limit fuel caller).layer limit fuel id with
      evaluate := fun env t => do
        let m ← get
        if (argumentsOf? (some x) t).isSome && !m.store.findsItself x caller env then throw alarm
        else (aware x alarm limit fuel caller).evaluateBy env t
      call := fun f args => (aware x alarm limit fuel f.closure?).callBy limit id f args }

/-! ## Names are bound -/

section Binding

variable {x : Text} {calls : List (Nat × Option Nat)} {env : Nat} {names : List Text}

/-- Binding parameters reaches a store that is ready for the names after them. -/
theorem ready_bindParameters {ps : List Tree} (named : ∀ p ∈ ps, Validity.IsName p)
    (args : List Value) {m : Machine}
    (h : m.store.Ready x calls env (ps.filterMap identifierName? ++ names)) :
    ∃ s, bindParameters env ps args m = .ok () { m with store := s } ∧
      s.Ready x calls env names := by
  induction ps generalizing args m with
  | nil => exact ⟨m.store, rfl, h⟩
  | cons p ps ih =>
    obtain ⟨⟨l, -⟩, rest⟩ := List.forall_mem_cons.mp named
    rename_i y
    let v := args.head?.getD .undefined
    exact ih rest args.tail (m := { m with store := m.store.declare env y v }) (h.declare v)

/-- So does declaring variables. -/
theorem ready_declareVariables {xs : List Text} {m : Machine}
    (h : m.store.Ready x calls env (xs ++ names)) :
    ∃ s, (xs.map Tree.text).forM (declareVariable env) m = .ok () { m with store := s } ∧
      s.Ready x calls env names := by
  induction xs generalizing m with
  | nil => exact ⟨m.store, rfl, h⟩
  | cons y xs ih =>
    let s := if m.store.declares env y then m.store else m.store.declare env y .undefined
    have first : s.Ready x calls env (xs ++ names) := by
      change Store.Ready x calls env _ (if m.store.declares env y then _ else _)
      split
      · exact h.skip
      · exact h.declare _
    exact ih (m := { m with store := s }) first

/-- Making a function with a body gives the number of the next function. -/
theorem exists_makeFunction (env : Nat) (id params : Tree) (lb : Option Location) (ss : List Tree)
    (m : Machine) : ∃ strict, makeFunction env id params (.node lb (.block (.tuple ss))) m =
      .ok (.function m.store.closures.size)
        { m with store :=
          (m.store.newClosure ⟨id, params, .node lb (.block (.tuple ss)), env, strict⟩).2 } := by
  obtain ⟨store, depth, strict⟩ := m
  cases strict with
  | true => exact ⟨true, rfl⟩
  | false => cases ss with
    | nil => exact ⟨_, rfl⟩
    | cons t ss => exact ⟨_, rfl⟩

/-- Declaring functions, at most one of which has the name, makes that one reach itself. -/
theorem ready_declareFunctions {fs : List Tree} (declared : Declared x fs)
    (once : fs.countP (·.nameText? == some x) ≤ 1) {m : Machine}
    (h : m.store.Ready x calls env (fs.filterMap nameText?)) :
    ∃ s, fs.forM (declareFunction env) m = .ok () { m with store := s } ∧
      s.Ready x calls env [] := by
  induction fs generalizing m with
  | nil => exact ⟨m.store, rfl, h⟩
  | cons f fs ih =>
    obtain ⟨⟨l, id, params, body, rfl, code⟩, rest⟩ := List.forall_mem_cons.mp declared
    obtain ⟨named, ps, lb, ss, rfl, rfl, -⟩ := code.function_parts
    obtain ⟨li, y, rfl⟩ := named (.inl rfl)
    obtain ⟨strict, made⟩ :=
      exists_makeFunction env (.node li (.identifier (.text y))) (.tuple ps) lb ss m
    rw [List.countP_cons] at once
    let c : Closure :=
      ⟨.node li (.identifier (.text y)), .tuple ps, .node lb (.block (.tuple ss)), env, strict⟩
    let s := (m.store.newClosure c).2.declare env y (.function m.store.closures.size)
    have first : s.Ready x calls env (fs.filterMap nameText?) := by
      refine Store.Ready.newFunction h ⟨l, .declaration, code⟩ rfl (fun self => ?_)
        fun same mem => ?_
      · exact Option.some.inj (Closure.nameText?_of_selfName? self)
      · obtain ⟨g, hg, called⟩ := List.mem_filterMap.mp mem
        have more : 0 < fs.countP (·.nameText? == some x) :=
          List.countP_pos_iff.mpr ⟨g, hg, beq_iff_eq.mpr called⟩
        -- With this one there would be two of the name.
        rw [if_pos (by rw [← same]; exact beq_iff_eq.mpr rfl)] at once
        omega
    obtain ⟨s', done, ready⟩ := ih rest (by omega) (m := { m with store := s }) first
    refine ⟨s', ?_, ready⟩
    have step : declareFunction env (.node l (.function .declaration
        (.node li (.identifier (.text y))) (.tuple ps) (.node lb (.block (.tuple ss))))) m =
          .ok () { m with store := s } := by
      change (makeFunction env _ _ _ >>= fun f => change fun s => s.declare env y f) m = _
      rw [bind_of_ok made]
      rfl
    change (declareFunction env _ >>= fun _ => fs.forM (declareFunction env)) m = _
    rw [bind_of_ok step]
    exact done

/-- Entering a body makes it ready for what it runs. -/
theorem ready_hoist {xs : List Text} {fs : List Tree} {body : Tree}
    (found : body.hoisted = .ok ⟨xs.map .text, fs⟩) (declared : Declared x fs)
    (once : fs.countP (·.nameText? == some x) ≤ 1) {m : Machine}
    (h : m.store.Ready x calls env (xs ++ fs.filterMap nameText?)) :
    ∃ s, hoist env body m = .ok () { m with store := s } ∧ s.Ready x calls env [] := by
  obtain ⟨s, first, ready⟩ := ready_declareVariables h
  obtain ⟨s', second, ready'⟩ :=
    ready_declareFunctions declared once (m := { m with store := s }) ready
  refine ⟨s', ?_, ready'⟩
  rw [hoist, found]
  change ((xs.map Tree.text).forM (declareVariable env) >>= fun _ =>
    fs.forM (declareFunction env)) m = _
  rw [bind_of_ok first]
  exact second

/-- Any names can be bound in a new environment. -/
theorem ready_new {s : Store} (h : s.Reaches x calls) (parent : Nat) (names : List Text) :
    (s.child parent).2.Ready x calls s.environments.size names where
  reaches := h.child parent
  inside := by simp [Store.child]
  vacant _ := ⟨fun found _ => Nat.ne_of_lt (h.inside found),
    fun mem _ => absurd (h.entered mem) (Nat.lt_irrefl _)⟩

/-- When a function is called, its names can be bound in a new environment. -/
theorem ready_child {s : Store} (h : s.Reaches x calls) {ref : Nat} {c : Closure}
    (found : s.closures[ref]? = some c) {names : List Text}
    (hidden : c.selfName? = some x → x ∉ names) :
    (s.child c.environment).2.Ready x ((s.environments.size, some ref) :: calls)
      s.environments.size names := by
  have size : (s.child c.environment).2.environments.size = s.environments.size + 1 := by
    simp [Store.child]
  have child := h.child c.environment
  -- The new environment is the greatest number, and it is the environment of the new call.
  refine ⟨{ child with entered := fun mem => ?_, called := fun mem => ?_ }, by omega, fun mem => ?_⟩
  · rcases List.mem_cons.mp mem with ⟨⟨⟩⟩ | mem
    · omega
    · exact child.entered mem
  · rcases List.mem_cons.mp mem with ⟨⟨⟩⟩ | mem
    · exact ⟨c, found, h.inside found, fun _ => ⟨Store.own?_child_self, Store.parent?_child_self⟩⟩
    · exact child.called mem
  · refine ⟨fun found _ => Nat.ne_of_lt (h.inside found), fun {ref' c'} call found' => ?_⟩
    rcases List.mem_cons.mp call with ⟨⟨⟩⟩ | call
    · cases found.symm.trans found'
      exact fun self => hidden self mem
    · exact absurd (h.entered call) (Nat.lt_irrefl _)

end Binding

/-! ## The discipline -/

/-- What an evaluation does in fair code with the calls under way: functions stay what their names
stand for, and an evaluation that knows whose call it is in does the same. -/
def selfCalls (x : Text) (caller : Option Nat) : Discipline (List (Nat × Option Nat)) where
  Obeys calls _ act act' := (∀ m : Machine, m.store.Reaches x calls → act' m = act m) ∧
    Always (fun m => m.store.Reaches x calls) (fun _ => True) act
  Runs calls env t := (env, caller) ∈ calls ∧ t.Consists (Tree.Fair x)
  Sets _ _ t := t.nameText? ≠ some x

section Laws

variable {x : Text} {caller : Option Nat} {calls : List (Nat × Option Nat)} {α β : Type}

/-- Evaluations that keep what functions are called are compared with themselves. -/
theorem selfCalls_self {act : Eval α}
    (h : Always (fun m => m.store.Reaches x calls) (fun _ => True) act) :
    (selfCalls x caller).Obeys calls act act := ⟨fun _ _ => rfl, h⟩

/-- What does not touch variables keeps every call reaching its function. -/
theorem selfCalls_plain {act : Eval α} (h : ∀ m, Plain m act) :
    (selfCalls x caller).Obeys calls act act :=
  selfCalls_self (.of_plain (fun reaches same => reaches.congr same.environments same.closures) h)

/-- One step after the other keeps them reaching their functions if each of them does. -/
theorem selfCalls_bind {a b : Eval α} {f g : α → Eval β} (h : (selfCalls x caller).Obeys calls a b)
    (next : ∀ v, (selfCalls x caller).Obeys calls (f v) (g v)) :
    (selfCalls x caller).Obeys calls (a >>= f) (b >>= g) := by
  refine ⟨fun m reaches => ?_, h.2.bind fun v => (next v).2⟩
  have same := h.1 m reaches
  have kept := h.2 m reaches
  cases done : a m with
  | ok v m' =>
    rw [bind_of_ok done, bind_of_ok (same.trans done)]
    exact (next v).1 m' (kept.of_ok done)
  | error e m' => rw [bind_of_error done, bind_of_error (same.trans done)]

/-- What is spelled like a name is a key of no other name than this. -/
theorem eq_text_of_key {name : Tree} {y : Text} (key : name.key = .ok y)
    (spelled : Validity.isNameLine y = true) : name = .text y := by
  -- The keys of names that are no texts begin with a mark, which is in no name.
  have marked (rest : Text) : Validity.isNameLine (keyMark :: rest) = false := by
    have first (t : Text) : Text.isName (keyMark :: t) = false := rfl
    cases rest with
    | nil => rfl
    | cons c rest =>
      rw [Validity.isNameLine, List.dropLast_cons_cons, first, first, Bool.and_false, Bool.or_false]
  unfold Tree.key at key
  split at key
  · cases key
    rfl
  · split at key
    · cases key
      cases (marked _).symm.trans spelled
    · cases key

/-- A name that is not spelled like one is that of no function. -/
theorem selfName?_isNameLine {s : Store} (h : s.Reaches x calls) {ref : Nat} {c : Closure}
    (found : s.closures[ref]? = some c) (self : c.selfName? = some x) :
    Validity.isNameLine x = true := by
  obtain ⟨l, form, code⟩ := h.code found
  obtain ⟨checked, targets, wf⟩ := code.own.wellFormed rfl
  have named := Closure.nameText?_of_selfName? self
  generalize c.id = id at wf named
  generalize c.params = params at wf
  generalize c.body = body at wf
  -- The name of a closure is that of the function it was made from.
  cases wf with
  | function _ name =>
    cases id with
    | null => cases named
    | node =>
      obtain ⟨li, spelled⟩ := name rfl
      cases named
      exact spelled
    | _ => cases named

/-- Setting another name keeps them, and the name itself is never set. -/
theorem selfCalls_writeName {env : Nat} {t name : Tree} (sets : t.nameText? ≠ some x)
    (named : t.name = .ok name) (l : Option Location) (v : Value) :
    (selfCalls x caller).Obeys calls (writeName env name l v) (writeName env name l v) := by
  refine selfCalls_self ?_
  have declares {y : Text} (key : name.key = .ok y) (m : Machine)
      (reaches : m.store.Reaches x calls) (env : Nat) :
      (m.store.declare env y v).Reaches x calls := by
    refine reaches.declare fun same => ?_
    -- If the key of the name that is set is `x`, then no function can call itself by `x`: its name
    -- would be spelled like one, and so be the name that is set.
    have other {ref : Nat} {c : Closure} (found : m.store.closures[ref]? = some c) :
        c.selfName? ≠ some x := by
      intro self
      have text := eq_text_of_key key (same ▸ selfName?_isNameLine reaches found self)
      refine sets ?_
      unfold Tree.name at named
      split at named
      · rename_i here
        cases named
        rw [nameText?, here, text, same]
      · cases named
    exact ⟨fun found self => absurd self (other found), fun _ found => other found⟩
  refine .attempt_bind (fun _ => trivial) fun y key => ?_
  refine Always.bind (.changeGet fun m reaches => ?_) fun bound => .ite (fun _ => .pure _) fun _ =>
    .get fun m _ => .ite (fun _ => .fail trivial) fun _ => .change fun m reaches =>
      declares key m reaches _
  unfold Store.assign
  split
  · exact declares key m reaches _
  · exact reaches

/-- A function expression with a name has an environment in which only the name is bound. -/
theorem selfCalls_function {env : Nat} {l : Option Location} {id params body : Tree}
    (entered : (env, caller) ∈ calls)
    (code : (Tree.node l (.function .expression id params body)).Consists (Tree.Fair x)) :
    Always (fun m => m.store.Reaches x calls) (fun _ => True)
      (idle.evaluateBy env (.node l (.function .expression id params body))) := by
  intro m reaches
  obtain ⟨named, ps, lb, ss, rfl, rfl, -⟩ := code.function_parts
  rw [evaluateBy]
  split
  · -- A function without a name cannot call itself.
    rename_i absent
    obtain ⟨strict, made⟩ := exists_makeFunction env id (.tuple ps) lb ss m
    rw [made]
    refine .ok (reaches.newClosure ⟨l, .expression, code⟩ (reaches.entered entered) fun self => ?_)
    have named := Closure.nameText?_of_selfName? self
    cases id <;> first | cases named | cases absent
  -- A function with a name is bound to it in an environment of its own.
  · rename_i present
    obtain ⟨li, y, rfl⟩ := named (.inr (Bool.eq_false_iff.mpr present))
    let own := m.store.environments.size
    have ready : (m.store.child env).2.Ready x calls own [y] := ready_new reaches env [y]
    obtain ⟨strict, made⟩ := exists_makeFunction own (.node li (.identifier (.text y))) (.tuple ps)
      lb ss { m with store := (m.store.child env).2 }
    have done := ready.newFunction ⟨l, .expression, code⟩
      (c := ⟨.node li (.identifier (.text y)), .tuple ps, .node lb (.block (.tuple ss)), own, strict⟩)
      rfl (fun self => Option.some.inj (Closure.nameText?_of_selfName? self)) fun _ =>
        List.not_mem_nil
    change Ended _ _ ((makeFunction own _ _ _ >>= fun f =>
      change (fun s => s.declare own y f) >>= fun _ => pure f)
        { m with store := (m.store.child env).2 })
    rw [bind_of_ok made]
    exact .ok done.reaches

/-- So the property passes through the ways in which evaluations are put together. -/
theorem composes_selfCalls (x : Text) (caller : Option Nat) : (selfCalls x caller).Composes where
  pure a := selfCalls_self (.pure a)
  throw e := selfCalls_self (.throw trivial)
  bind := selfCalls_bind
  pass {_ labels _ _} h :=
    ⟨fun m reaches => by simp only [pass, h.1 m reaches], h.2.pass⟩
  labeled {_ labels _ _} h :=
    ⟨fun m reaches => by simp only [labeled, h.1 m reaches], h.2.labeled⟩
  operation h := selfCalls_plain h.plain
  item runs row mem := ⟨runs.1, (heritable_consists _).item runs.2 row mem⟩
  field _ runs inert found := ⟨runs.1, (heritable_consists _).field runs.2 inert found⟩
  -- Targets and declared names are set, which the code does not do to `x`.
  target {_ _ t u} runs mem := by
    cases t with
    | node l shape => exact runs.2.own.unset u mem
    | _ => cases mem
  declared {calls env l declarations kind t u} runs first found := by
    obtain ⟨ts, row, mem⟩ := Tree.mem_of_item first
    obtain ⟨ld, id, init, rfl, code⟩ := runs.2.declarator row mem
    have named := (heritable_consists _).field code rfl found
    cases found
    exact ⟨⟨runs.1, named⟩, code.own.unset _ List.mem_cons_self⟩
  readName {_ env l name} _ := selfCalls_plain fun _ => plain_readName env name l
  isUnbound {_ env t} _ := selfCalls_plain fun _ => plain_isUnbound env t
  writeName sets named l v := selfCalls_writeName sets named l v
  function runs := selfCalls_self (selfCalls_function runs.1 runs.2)

/-- A call of a function gives back what it takes. -/
theorem selfCalls_inCall (strict : Bool) {a b : Eval Unit}
    (h : (selfCalls x caller).Obeys calls a b) :
    (∀ m : Machine, m.store.Reaches x calls → inCall strict b m = inCall strict a m) ∧
      Always (fun m => m.store.Reaches x calls) (fun _ => True) (inCall strict a) := by
  constructor
  · rintro ⟨store, depth, outer⟩ reaches
    have same := h.1 ⟨store, depth + 1, strict⟩ reaches
    simp only [inCall, same]
  · exact Always.inCall (fun _ reaches => reaches) (fun _ _ _ kept => kept)
      (fun _ _ _ => trivial) h.2

/-- What a call does once its names are bound. -/
theorem activateBy_eq (r : Routines) {c : Closure} {lb : Option Location} {ps ss : List Tree}
    (params : c.params = .tuple ps) (body : c.body = .node lb (.block (.tuple ss)))
    {env : Nat} {args : List Value} {m m₁ m₂ : Machine}
    (bound : bindParameters env ps args m = .ok () m₁)
    (hoisted : hoist env (.tuple ss) m₁ = .ok () m₂) :
    r.activateBy id c args env m = inCall c.strict (ss.forM (r.execute env)) m₂ := by
  rw [activateBy, params, body]
  change (bindParameters env ps args >>= fun _ => hoist env (.tuple ss) >>= fun _ =>
    inCall c.strict (ss.forM (r.execute env))) m = _
  rw [bind_of_ok bound, bind_of_ok hoisted]

/-- A function is called in the environment of the call, in which it is found by its name. -/
theorem selfCalls_callBy {r r' : Routines} {ref : Nat}
    (upheld : (selfCalls x (some ref)).Upheld r r') (limit : Nat) (args : List Value) :
    (selfCalls x caller).Obeys calls (r.callBy limit id (.function ref) args)
      (r'.callBy limit id (.function ref) args) := by
  suffices h : ∀ m : Machine, m.store.Reaches x calls →
      r'.callBy limit id (.function ref) args m = r.callBy limit id (.function ref) args m ∧
      Ended (fun m => m.store.Reaches x calls) (fun _ => True)
        (r.callBy limit id (.function ref) args m) from
    ⟨fun m reaches => (h m reaches).1, fun m reaches => (h m reaches).2⟩
  intro m reaches
  rw [callBy_function, callBy_function]
  split
  · exact ⟨rfl, .error reaches trivial⟩
  split
  · exact ⟨rfl, .error reaches trivial⟩
  rename_i c found
  obtain ⟨l, form, code⟩ := reaches.code found
  obtain ⟨-, ps, lb, ss, params, body, named, statements⟩ := code.function_parts
  rw [params, body] at code
  obtain ⟨checked, targets, wf⟩ := code.own.wellFormed rfl
  obtain ⟨hoisted, declared⟩ := code.hoisted wf
  let own := m.store.environments.size
  -- By what name it can call itself does not depend on how the function was made.
  have self : c.selfName? = (Tree.node l (.function form c.id (.tuple ps)
      (.node lb (.block (.tuple ss))))).selfName? := by
    rw [Closure.selfName?, params, body]
    rfl
  have ready := ready_child reaches found fun named =>
    notMem_boundNames_of_selfName? (self.symm.trans named)
  rw [boundNames, List.append_assoc] at ready
  obtain ⟨s₁, bound, ready₁⟩ := ready_bindParameters named args
    (m := { m with store := (m.store.child c.environment).2 }) ready
  obtain ⟨s₂, hoists, ready₂⟩ := ready_hoist hoisted declared (code.own.once rfl)
    (m := { m with store := s₁ }) ready₁
  have entered (r : Routines) : r.enterBy id c args m =
      inCall c.strict (ss.forM (r.execute own)) { m with store := s₂ } :=
    activateBy_eq r params body bound hoists
  -- The body runs in the call of `ref`, whoever the caller is.
  have inside : (selfCalls x (some ref)).Obeys ((own, some ref) :: calls) (ss.forM (r.execute own))
      (ss.forM (r'.execute own)) :=
    (composes_selfCalls x (some ref)).forM fun t ht =>
      upheld.execute ⟨List.mem_cons_self, statements t ht⟩
  obtain ⟨same, kept⟩ := selfCalls_inCall c.strict inside
  rw [entered, entered]
  exact ⟨same _ ready₂.reaches, (kept _ ready₂.reaches).weaken fun _ after => after.fewer⟩

end Laws

/-- To know whose call it is in makes no difference in fair code. -/
theorem upheld_aware (x : Text) (alarm : Interrupt) (limit fuel : Nat) (caller : Option Nat) :
    (selfCalls x caller).Upheld (ofFuel limit fuel) (aware x alarm limit fuel caller) := by
  -- A call goes on with the function that is called as the caller.
  induction fuel generalizing caller with
  | zero =>
    rw [ofFuel_zero]
    exact (composes_selfCalls x caller).idle
  | succ fuel ih =>
    have composes := composes_selfCalls x caller
    have upheld := ih caller
    rw [ofFuel_succ]
    exact {
      evaluate := fun {calls env t} runs => by
        obtain ⟨same, kept⟩ := composes.obeys_evaluateBy upheld runs
        refine ⟨fun m reaches => ?_, kept⟩
        -- The alarm is not given, since the function is found by its name.
        change (if (argumentsOf? (some x) t).isSome && !m.store.findsItself x caller env then _
          else _ : Eval Value) m = _
        rw [reaches.findsItself runs.1, Bool.not_true, Bool.and_false]
        exact same m reaches
      propertyKey := composes.obeys_propertyKeyBy upheld
      assignTo := composes.obeys_assignToBy upheld
      call := fun calls f args => by
        cases f with
        | function ref => exact selfCalls_callBy (ih (some ref)) limit args
        | native n => exact composes.operation (.callNative n.action args)
        | _ => exact composes.bind (composes.operation (.textOf _)) fun _ => composes.fail _
      execute := composes.obeys_executeBy upheld
      executeLabeled := composes.obeys_executeLabeledBy upheld
      startVariable := composes.obeys_startVariableBy upheld
      executeLoop := composes.obeys_executeLoopBy upheld fun h => composes.repeating h fuel }

/-! ## Programs -/

/-- What the run of a program does once its names are bound. -/
theorem runProgramBy_eq (r : Routines) {l : Option Location} {ss : List Tree} {m m' : Machine}
    (hoisted : hoist Store.globalEnvironment (.tuple ss) { m with strict := startStrict ss } =
      .ok () m') :
    r.runProgramBy (.node l (.program (.tuple ss))) m =
      guarded (ss.foldlM r.runStatementBy .undefined) m' := by
  have start : Eval.attempt (Tree.tuple ss).startsStrict = pure (startStrict ss) := by
    rw [startsStrict_tuple]
    rfl
  change (Eval.attempt (Tree.tuple ss).startsStrict >>= fun strict =>
    modify (fun m => { m with strict }) >>= fun _ => hoist Store.globalEnvironment (.tuple ss) >>=
      fun _ => guarded (ss.foldlM r.runStatementBy .undefined)) m = _
  rw [start, pure_bind]
  change (hoist Store.globalEnvironment (.tuple ss) >>= fun _ => _)
    { m with strict := startStrict ss } = _
  rw [bind_of_ok hoisted]

section Programs

variable {x : Text} {l : Option Location} {ss : List Tree} {checked : Bool} {c : Validity.Targets}
  (wf : Validity.WellFormed checked c (.node l (.program (.tuple ss))))
  (code : (Tree.node l (.program (.tuple ss))).Consists (Tree.Fair x))
  (once : (Tree.node l (.program (.tuple ss))).DeclaresOnce x)

include wf code once

/-- A program is run where there are no functions yet. -/
theorem aware_runProgram (alarm : Interrupt) (limit fuel : Nat) {m : Machine}
    (new : m.store.closures = #[]) (inside : Store.globalEnvironment < m.store.environments.size) :
    (aware x alarm limit fuel none).runProgramBy (.node l (.program (.tuple ss))) m =
        runProgram limit fuel (.node l (.program (.tuple ss))) m ∧
      Ended (fun m => m.store.Reaches x [(Store.globalEnvironment, none)]) (fun _ => True)
        (runProgram limit fuel (.node l (.program (.tuple ss))) m) := by
  have nothing {ref : Nat} {c : Closure} : m.store.closures[ref]? ≠ some c := by
    rw [new]
    exact nofun
  have ready : m.store.Ready x [(Store.globalEnvironment, none)] Store.globalEnvironment
      (Tree.node l (.program (.tuple ss))).boundNames :=
    { reaches :=
        { code := fun found => absurd found nothing
          inside := fun found => absurd found nothing
          bound := fun found => absurd found nothing
          entered := fun mem => by
            cases List.mem_singleton.mp mem
            exact inside
          called := fun mem => nomatch List.mem_singleton.mp mem }
      inside
      vacant := fun _ => ⟨fun found => absurd found nothing, fun _ found => absurd found nothing⟩ }
  obtain ⟨hoisted, declared⟩ := code.hoisted wf
  obtain ⟨s, hoists, ready⟩ := ready_hoist hoisted declared once
    (m := { m with strict := startStrict ss }) ready
  have composes := composes_selfCalls x none
  -- The statements are run one by one, each with the value of the one before.
  have statement (v : Value) (t : Tree) (ht : t ∈ ss) :
      (selfCalls x none).Obeys [(Store.globalEnvironment, none)]
        ((ofFuel limit fuel).runStatementBy v t)
        ((aware x alarm limit fuel none).runStatementBy v t) := by
    have upheld := upheld_aware x alarm limit fuel none
    have runs :
        (selfCalls x none).Runs [(Store.globalEnvironment, none)] Store.globalEnvironment t :=
      ⟨List.mem_singleton_self _, (heritable_consists _).tuple.mp code.statements t ht⟩
    unfold runStatementBy
    split
    · exact upheld.evaluate (composes.field "expression" runs rfl rfl)
    · exact composes.bind (upheld.execute runs) fun _ => composes.pure v
  obtain ⟨same, kept⟩ := composes.foldlM (fun t ht v => statement v t ht) .undefined
  have entered (r : Routines) : r.runProgramBy (.node l (.program (.tuple ss))) m =
      guarded (ss.foldlM r.runStatementBy .undefined) ⟨s, m.depth, startStrict ss⟩ :=
    runProgramBy_eq r hoists
  rw [runProgram_eq, entered, entered]
  have agrees := same ⟨s, m.depth, startStrict ss⟩ ready.reaches
  refine ⟨?_, kept.guarded trivial _ ready.reaches⟩
  simp only [guarded, agrees]

end Programs

end Eval

namespace Interpreter

open Eval Tree Elimination

/-- Functions reach themselves by their names. Let no node of a program set a name, and let no scope
of the program declare two functions of the name. Then in each call of a function that can call
itself by the name, wherever something is called by the name, it is this very function: an alarm
for anything else is never given, neither while the program is run nor in any call afterwards. -/
theorem self_calls_reach_themselves {checked : Bool} {c : Validity.Targets} {l : Option Location}
    {ss : List Tree} {x : Text}
    (wf : Validity.WellFormed checked c (.node l (.program (.tuple ss))))
    (unset : (Tree.node l (.program (.tuple ss))).Unset x)
    (once : ∀ f ∈ (Tree.node l (.program (.tuple ss))).scopes, f.DeclaresOnce x)
    (limit : Nat) (alarm : Interrupt) :
    (∀ fuel, (aware x alarm limit fuel none).runProgramBy (.node l (.program (.tuple ss)))
        (new limit).machine =
      runProgram limit fuel (.node l (.program (.tuple ss))) (new limit).machine) ∧
    ∀ r i, Leads limit (.node l (.program (.tuple ss))) (r, i) → ∀ fuel f args,
      (aware x alarm limit fuel none).call f args i.machine =
        Eval.call limit fuel f args i.machine := by
  have code : (Tree.node l (.program (.tuple ss))).Consists (Tree.Fair x) :=
    consists_fair wf unset once
  have first : (Tree.node l (.program (.tuple ss))).DeclaresOnce x :=
    once _ (scopes_program ss ▸ List.mem_cons_self)
  have runs (fuel : Nat) := aware_runProgram wf code first alarm limit fuel
    (m := (new limit).machine) rfl Store.chained_initial.positive
  refine ⟨fun fuel => (runs fuel).1, fun r i leads fuel f args => ?_⟩
  -- What holds after the program is kept by every answer up to this point.
  have upheld (limit fuel : Nat) := upheld_aware x alarm limit fuel none
  have reaches : i.machine.store.Reaches x [(Store.globalEnvironment, none)] :=
    keeps_of_leads (I := fun m => m.store.Reaches x [(Store.globalEnvironment, none)])
      (fun reaches same => reaches.congr same.environments same.closures)
      (fun fuel => (runs fuel).2.performed)
      (fun limit fuel f args => ((upheld limit fuel).call _ f args).2) leads
  exact ((upheld limit fuel).call _ f args).1 _ reaches

end Interpreter

namespace Elimination

/-- The functions `f`, which assigns `g` to its own name before it calls itself by that name, and
`g`. -/
def rebinding : List Tree :=
  [Tree.new (.function .declaration (.identifier "f") (.tuple [.identifier "n"])
    (.block [
      Tree.new (.expressionStatement (Tree.assign "f" (.identifier "g"))),
      Tree.new (.ifStatement (.identifier "n") (Tree.new (.returnStatement (.identifier "n"))) .null),
      Tree.new (.returnStatement (Tree.new (.call (.identifier "f")
        (.tuple [Tree.new (.literal (.bool true))]))))])),
   Tree.new (.function .declaration (.identifier "g") (.tuple [.identifier "n"])
    (.block [Tree.new (.returnStatement (Tree.new (.literal .null)))]))]

end Elimination

namespace Interpreter

open Eval Tree Elimination

/-- A function `f` that calls itself in tail position, and another one by an expression of this
name, which does so as well. -/
def twoNamed : List Tree :=
  let body := Tree.new (.block (.tuple [
    Tree.new (.ifStatement (.identifier "n") (Tree.new (.returnStatement (Tree.new
      (.call (.identifier "f") (.tuple [Tree.new (.literal .null)]))))) .null),
    Tree.new (.returnStatement (.identifier "n"))]))
  [Tree.new (.function .declaration (.identifier "f") (.tuple [.identifier "n"]) body),
   Tree.declaration [Tree.declarator "g"
    (Tree.new (.function .expression (.identifier "f") (.tuple [.identifier "n"]) body))]]

/-- Both are functions of the program that is meant, and their calls are converted: they reach the
function that they are in. In `rebinding`, where the name is set, the alarm is given. -/
theorem self_calls_reach_themselves_twoNamed :
    Validity.WellFormed true {} (.node none (.program (.tuple twoNamed))) ∧
      (Tree.node none (.program (.tuple twoNamed))).Unset "f" ∧
      (∀ f ∈ (Tree.node none (.program (.tuple twoNamed))).scopes, f.DeclaresOnce "f") ∧
      (∃ t' stats, (Tree.node none (.program (.tuple twoNamed))).eliminateTailCalls {} =
        .ok (t', stats) ∧ stats.calls = 2) ∧
      (∀ r i, Leads 5 (.node none (.program (.tuple twoNamed))) (r, i) → ∀ fuel f args,
        (aware "f" (.broke .null) 5 fuel none).call f args i.machine =
          Eval.call 5 fuel f args i.machine) ∧
      strays (((new 3).run (.node none (.program (.tuple rebinding))) 20).2.perform
        ((aware "f" (.broke .null) 3 20 none).call (.function 0) [.null])).1 = true := by
  -- Both functions are called by their name and set it nowhere; the last run shows one that does.
  have wf : Validity.WellFormed true {} (.node none (.program (.tuple twoNamed))) :=
    Validity.wellFormed_of_validate rfl (by decide)
  have unset : (Tree.node none (.program (.tuple twoNamed))).Unset "f" := by decide
  have once : ∀ f ∈ (Tree.node none (.program (.tuple twoNamed))).scopes, f.DeclaresOnce "f" := by
    decide
  exact ⟨wf, unset, once, ⟨_, _, rfl, rfl⟩,
    (self_calls_reach_themselves wf unset once 5 (.broke .null)).2, by decide +kernel⟩

end Interpreter

namespace Elimination

/-- A call is converted by its name alone: the call in `f` reaches `g`, which gives null as it does
when it is called itself, and after elimination it goes on with `f`. -/
theorem eliminateTailCalls_session_rebinds :
    ∃ t' stats, (Tree.node none (.program (.tuple rebinding))).eliminateTailCalls {} =
        .ok (t', stats) ∧ stats.functions = ["f"] ∧
      (Interpreter.session 3 Interpreter.defaultFuel (.node none (.program (.tuple rebinding)))
        [.call "g" [.bool true], .call "f" [.null]]).map (·.result.toOption.map Value.truthy) =
          [some false, some false, some false] ∧
      (Interpreter.session 3 Interpreter.defaultFuel t'
        [.call "g" [.bool true], .call "f" [.null]]).map (·.result.toOption.map Value.truthy) =
          [some false, some false, some true] := by
  refine ⟨_, _, rfl, rfl, ?_, ?_⟩
  · decide +kernel
  · decide +kernel

end Elimination

end TailLoop
