import TailLoop.Proofs.Interpreter.Lockstep
import TailLoop.Proofs.Interpreter.Regimes

/-!
# What names mean while a program runs

Environments are shared by all functions that were made in them, and they are written to by
assignments, by calls and by functions that declare their own name. Still, the names that an
environment binds are settled once it is filled: an evaluation only fills environments that it has
made itself, and adds names to the global one (`Stable`). Parents come before their children, so that
every chain of them ends in the global environment (`Chained`). Hence a name means the same variable
before and after any evaluation (`Stable.resolve?_eq`).
-/

namespace TailLoop

namespace Store

/-- Chains of parents end in the global environment: it is the first one, the parent of any other
one was made before it, and all functions were made in environments of the store. -/
structure Chained (s : Store) : Prop where
  globals : ∃ bindings, s.environments[globalEnvironment]? = some ⟨none, bindings⟩
  parent {env : Nat} {e : Environment} (other : globalEnvironment < env)
    (found : s.environments[env]? = some e) : ∃ p < env, e.parent = some p
  closure {ref : Nat} {c : Closure} (found : s.closures[ref]? = some c) :
    c.environment < s.environments.size

/-- All environments of a store are left with their parents, and with the names that they bind; the
global one can get further names. -/
structure Stable (s s' : Store) : Prop where
  size : s.environments.size ≤ s'.environments.size
  parent (env : Nat) (inside : env < s.environments.size) :
    s'.environments[env]?.map (·.parent) = s.environments[env]?.map (·.parent)
  names (env : Nat) (other : globalEnvironment < env) (inside : env < s.environments.size) :
    s'.names env = s.names env
  globals : s.names globalEnvironment <+: s'.names globalEnvironment

/-! ## Names of environments -/

/-- A value is found for exactly the names that have an entry. -/
theorem isSome_lookup_iff (x : Text) (b : List (Text × Value)) :
    (b.lookup x).isSome = true ↔ x ∈ b.map (·.1) := by
  induction b with
  | nil => simp
  | cons entry rest ih =>
    obtain ⟨y, v⟩ := entry
    by_cases same : x = y
    · simp [same]
    · simp [List.lookup_cons, beq_eq_false_iff_ne.mpr same, ih, same]

/-- An environment binds its names. -/
theorem declares_iff_mem_names (s : Store) (env : Nat) (x : Text) :
    s.declares env x = true ↔ x ∈ s.names env := by
  unfold declares names
  cases s.environments[env]? with
  | none => simp
  | some e => exact isSome_lookup_iff x e.bindings

/-- An entry of a new name comes after the others; that of an old one stays where it is. -/
theorem map_fst_putEntry (x : Text) (v : Value) (b : List (Text × Value)) :
    (putEntry x v b).map (·.1) =
      if x ∈ b.map (·.1) then b.map (·.1) else b.map (·.1) ++ [x] := by
  induction b with
  | nil => rfl
  | cons entry rest ih =>
    obtain ⟨y, w⟩ := entry
    by_cases same : y = x
    · simp [putEntry, same]
    · rw [putEntry, if_neg same, List.map_cons, List.map_cons, ih]
      by_cases mem : x ∈ rest.map (·.1)
      · rw [if_pos mem, if_pos (List.mem_cons_of_mem _ mem)]
      · rw [if_neg mem, if_neg fun h => (List.mem_cons.mp h).elim (fun e => same e.symm) mem]
        rfl

/-- Declaring a name leaves the names of the other environments. -/
theorem names_declare_ne (s : Store) {env other : Nat} (h : env ≠ other) (x : Text) (v : Value) :
    (s.declare env x v).names other = s.names other := by
  unfold names
  rw [Simulation.environments_declare, if_neg h]

/-- Binding a name adds it at the end, unless it is there. -/
theorem names_declare_self (s : Store) {env : Nat} (inside : env < s.environments.size) (x : Text)
    (v : Value) :
    (s.declare env x v).names env =
      if x ∈ s.names env then s.names env else s.names env ++ [x] := by
  unfold names
  rw [Simulation.environments_declare, if_pos rfl, Array.getElem?_eq_getElem inside]
  exact map_fst_putEntry x v _

/-- Binding a name leaves all parents. -/
theorem parent_declare (s : Store) (env other : Nat) (x : Text) (v : Value) :
    (s.declare env x v).environments[other]?.map (·.parent) =
      s.environments[other]?.map (·.parent) := by
  rw [Simulation.environments_declare]
  split
  · rw [Option.map_map]
    rfl
  · rfl

/-! ## Where names are found -/

section Chains

variable {s s' : Store} {env : Nat}

/-- There is a global environment. -/
theorem Chained.positive (h : s.Chained) : globalEnvironment < s.environments.size := by
  obtain ⟨bindings, here⟩ := h.globals
  exact (Array.getElem?_eq_some_iff.mp here).1

/-- A chain of parents is finished after as many steps as the number of its environment tells. -/
theorem resolveWithin_enough (h : s.Chained) (x : Text) {fuel fuel' : Nat} (more : env < fuel)
    (more' : env < fuel') : s.resolveWithin x fuel env = s.resolveWithin x fuel' env := by
  -- By induction on the number of the environment, as a parent has a smaller one.
  induction env using Nat.strongRecOn generalizing fuel fuel' with
  | _ env ih =>
  obtain ⟨k, rfl⟩ : ∃ k, fuel = k + 1 := ⟨fuel - 1, by omega⟩
  obtain ⟨k', rfl⟩ : ∃ k', fuel' = k' + 1 := ⟨fuel' - 1, by omega⟩
  rw [resolveWithin, resolveWithin]
  cases found : s.environments[env]? with
  | none => rfl
  | some e =>
    obtain ⟨parent, bindings⟩ := e
    cases parent with
    | none => rfl
    | some p =>
      have before : p < env := by
        rcases Nat.eq_zero_or_pos env with rfl | other
        · obtain ⟨bindings', here⟩ := h.globals
          rw [globalEnvironment, found] at here
          cases here
        · obtain ⟨q, less, same⟩ := h.parent other found
          cases same
          exact less
      have inner : s.resolveWithin x k p = s.resolveWithin x k' p :=
        ih p before (by omega) (by omega)
      simp only [inner]

/-- The global environment is found at the end of every chain. -/
theorem rootWithin_enough (h : s.Chained) {fuel : Nat} (more : env < fuel)
    (inside : env < s.environments.size) : s.rootWithin fuel env = globalEnvironment := by
  induction env using Nat.strongRecOn generalizing fuel with
  | _ env ih =>
  obtain ⟨k, rfl⟩ : ∃ k, fuel = k + 1 := ⟨fuel - 1, by omega⟩
  rw [rootWithin]
  rcases Nat.eq_zero_or_pos env with rfl | other
  · obtain ⟨bindings, here⟩ := h.globals
    rw [globalEnvironment] at here
    rw [here]
    rfl
  · have found := Array.getElem?_eq_getElem inside
    obtain ⟨p, less, parent⟩ := h.parent other found
    rw [found, Option.bind_some, parent]
    exact ih p less (by omega) (by omega)

/-- An environment that does not bind a name looks it up in its parent. -/
theorem resolve?_parent (h : s.Chained) (other : globalEnvironment < env)
    (inside : env < s.environments.size) :
    ∃ p < env, (∀ x, s.resolve? env x = if s.declares env x then some env else s.resolve? p x) ∧
      s.environments[env]?.map (·.parent) = some (some p) := by
  obtain ⟨⟨parent, bindings⟩, found⟩ : ∃ e, s.environments[env]? = some e :=
    ⟨_, Array.getElem?_eq_getElem inside⟩
  obtain ⟨p, less, rfl⟩ := h.parent other found
  refine ⟨p, less, fun x => ?_, by rw [found]; rfl⟩
  have inner : s.resolveWithin x env p = s.resolve? p x :=
    resolveWithin_enough h x less (Nat.lt_succ_self p)
  rw [resolve?, resolveWithin, declares, found]
  simp only [Option.any_some, inner]

/-- From the global environment a name resolves there or nowhere. -/
theorem resolve?_global (h : s.Chained) (x : Text) :
    s.resolve? globalEnvironment x =
      if s.declares globalEnvironment x then some globalEnvironment else none := by
  obtain ⟨bindings, here⟩ := h.globals
  rw [resolve?, resolveWithin, declares, here]
  rfl

/-- A name is found in an environment that binds it. -/
theorem declares_of_resolve? (h : s.Chained) (inside : env < s.environments.size) {x : Text}
    {found : Nat} (resolved : s.resolve? env x = some found) :
    s.declares found x = true ∧ found < s.environments.size := by
  -- By induction on the number of the environment: a name is found here or from the parent on.
  induction env using Nat.strongRecOn with
  | _ env ih =>
  rcases Nat.eq_zero_or_pos env with rfl | other
  · rw [← globalEnvironment, resolve?_global h] at resolved
    split at resolved
    · rename_i binds
      cases resolved
      exact ⟨binds, inside⟩
    · cases resolved
  · obtain ⟨p, less, step, -⟩ := resolve?_parent h other inside
    rw [step] at resolved
    split at resolved
    · rename_i binds
      cases resolved
      exact ⟨binds, inside⟩
    · exact ih p less (by omega) resolved

namespace Stable

/-- A store keeps its own names. -/
theorem refl (s : Store) : Stable s s :=
  ⟨Nat.le_refl _, fun _ _ => rfl, fun _ _ _ => rfl, List.prefix_refl _⟩

/-- Stores with the same environments. -/
theorem congr (h : Stable s s') {s'' : Store} (same : s''.environments = s'.environments) :
    Stable s s'' := by
  have names (env : Nat) : s''.names env = s'.names env := by rw [Store.names, same, Store.names]
  refine ⟨same ▸ h.size, fun env inside => ?_, fun env other inside => ?_, ?_⟩
  · rw [same]
    exact h.parent env inside
  · rw [names]
    exact h.names env other inside
  · rw [names]
    exact h.globals

/-- What was bound is bound. -/
theorem declares (h : Stable s s') (inside : env < s.environments.size) {x : Text}
    (binds : s.declares env x = true) : s'.declares env x = true := by
  rw [declares_iff_mem_names] at binds ⊢
  rcases Nat.eq_zero_or_pos env with rfl | other
  · exact h.globals.subset binds
  · rw [h.names env other inside]
    exact binds

/-- A name that is found somewhere is found there afterwards. -/
theorem resolve?_eq (h : Stable s s') (chained : s.Chained) (chained' : s'.Chained)
    (inside : env < s.environments.size) {x : Text} {found : Nat}
    (resolved : s.resolve? env x = some found) : s'.resolve? env x = some found := by
  -- By induction on the number of the environment. Below the global one both have the same parent
  -- and the same names.
  induction env using Nat.strongRecOn with
  | _ env ih =>
  rcases Nat.eq_zero_or_pos env with rfl | other
  · rw [← globalEnvironment, resolve?_global chained] at resolved
    rw [← globalEnvironment, resolve?_global chained']
    split at resolved
    · rename_i binds
      rw [if_pos (h.declares chained.positive binds)]
      exact resolved
    · cases resolved
  · obtain ⟨p, less, step, parent⟩ := resolve?_parent chained other inside
    obtain ⟨p', -, step', parent'⟩ :=
      resolve?_parent chained' other (Nat.lt_of_lt_of_le inside h.size)
    have same : p' = p := by
      have kept := h.parent env inside
      rw [parent, parent'] at kept
      cases kept
      rfl
    subst same
    have binds : s'.declares env x = s.declares env x := by
      rw [Bool.eq_iff_iff, declares_iff_mem_names, declares_iff_mem_names,
        h.names env other inside]
    rw [step] at resolved
    rw [step', binds]
    split at resolved
    · rename_i here
      rw [if_pos here]
      exact resolved
    · rename_i missing
      rw [if_neg missing]
      exact ih p' less (by omega) resolved

/-- A name may be bound in the global environment, in a new one, and where it is bound. -/
theorem declare (h : Stable s s') {x : Text} (v : Value)
    (allowed : env = globalEnvironment ∨ s.environments.size ≤ env ∨ s'.declares env x = true) :
    Stable s (s'.declare env x v) := by
  -- Declaring a name that is declared adds no name.
  have known (binds : s'.declares env x = true) (other : Nat) :
      (s'.declare env x v).names other = s'.names other := by
    by_cases here : env = other
    · subst here
      have inside : env < s'.environments.size := by
        by_contra outside
        rw [Store.declares, Array.getElem?_eq_none (by omega)] at binds
        cases binds
      rw [names_declare_self s' inside, if_pos ((declares_iff_mem_names ..).mp binds)]
    · exact names_declare_ne s' here x v
  -- Size, parents, names of inner environments, names of the global one.
  refine ⟨?_, fun other inside => ?_, fun other later inside => ?_, ?_⟩
  · simpa [Store.declare] using h.size
  · rw [parent_declare]
    exact h.parent other inside
  · rw [← h.names other later inside]
    rcases allowed with rfl | new | binds
    · exact names_declare_ne s' (Nat.ne_of_lt later) x v
    · exact names_declare_ne s' (by omega) x v
    · exact known binds other
  · refine h.globals.trans ?_
    by_cases here : env = globalEnvironment
    · subst here
      by_cases inside : globalEnvironment < s'.environments.size
      · rw [names_declare_self s' inside]
        split
        · exact List.prefix_refl _
        · exact List.prefix_append _ _
      · rw [Store.names, Array.getElem?_eq_none (by omega)]
        exact List.nil_prefix
    · simp [names_declare_ne s' here]

/-- A new environment. -/
theorem child (h : Stable s s') (parent : Nat) : Stable s (s'.child parent).2 := by
  have old {i : Nat} (inside : i < s'.environments.size) :
      (s'.child parent).2.environments[i]? = s'.environments[i]? := by
    simp [Store.child, Array.getElem?_push, Nat.ne_of_lt inside]
  have names {i : Nat} (inside : i < s'.environments.size) :
      (s'.child parent).2.names i = s'.names i := by
    rw [Store.names, old inside, Store.names]
  -- The new environment comes after all others, so that these are found as they were.
  refine ⟨?_, fun env inside => ?_, fun env other inside => ?_, ?_⟩
  · have more := h.size
    simp only [Store.child, Array.size_push]
    omega
  · rw [old (Nat.lt_of_lt_of_le inside h.size)]
    exact h.parent env inside
  · rw [names (Nat.lt_of_lt_of_le inside h.size)]
    exact h.names env other inside
  · refine h.globals.trans ?_
    by_cases inside : globalEnvironment < s'.environments.size
    · simp [names inside]
    · rw [Store.names, Array.getElem?_eq_none (by omega)]
      exact List.nil_prefix

end Stable

namespace Chained

/-- Whether environments are chained lies in the environments and functions of the store. -/
theorem congr (h : s.Chained) (environments : s'.environments = s.environments)
    (closures : s'.closures = s.closures) : s'.Chained := by
  refine ⟨environments ▸ h.globals, fun other found => ?_, fun found => ?_⟩
  · rw [environments] at found
    exact h.parent other found
  · rw [closures] at found
    rw [environments]
    exact h.closure found

/-- Declaring a name keeps environments chained. -/
theorem declare (h : s.Chained) (env : Nat) (x : Text) (v : Value) :
    (s.declare env x v).Chained := by
  -- The global environment, the parents and the closures are left as they were.
  refine ⟨?_, fun {i e} other found => ?_, fun {ref c} found => ?_⟩
  · obtain ⟨bindings, here⟩ := h.globals
    rw [Simulation.environments_declare, here]
    split
    · exact ⟨_, rfl⟩
    · exact ⟨_, rfl⟩
  · have same := parent_declare s env i x v
    rw [found] at same
    cases before : s.environments[i]? with
    | none => rw [before] at same; cases same
    | some e' =>
      rw [before] at same
      obtain ⟨p, less, parent⟩ := h.parent other before
      exact ⟨p, less, (Option.some.inj same).trans parent⟩
  · have made : s.closures[ref]? = some c := found
    simpa [Store.declare] using h.closure made

/-- An environment of the store may get a child. -/
theorem child (h : s.Chained) (inside : env < s.environments.size) : (s.child env).2.Chained := by
  have positive := h.positive
  refine ⟨?_, fun {i e} other found => ?_, fun {ref c} found => ?_⟩
  · obtain ⟨bindings, here⟩ := h.globals
    refine ⟨bindings, ?_⟩
    simpa [Store.child, Array.getElem?_push, Nat.ne_of_lt positive] using here
  · simp only [Store.child, Array.getElem?_push] at found
    split at found
    · rename_i last
      cases found
      exact ⟨env, by omega, rfl⟩
    · exact h.parent other found
  · have made : s.closures[ref]? = some c := found
    have before := h.closure made
    simp only [Store.child, Array.size_push]
    omega

/-- So does a new function in an environment that exists. -/
theorem newClosure (h : s.Chained) {c : Closure} (inside : c.environment < s.environments.size) :
    (s.newClosure c).2.Chained := by
  refine ⟨h.globals, fun other found => h.parent other found, fun {ref c'} found => ?_⟩
  simp only [Store.newClosure, Array.getElem?_push] at found
  split at found
  · cases found
    exact inside
  · exact h.closure found

end Chained

/-- The first store has one environment, which lies in no other. -/
theorem chained_initial : Store.initial.Chained := by
  refine ⟨⟨builtins, rfl⟩, fun {env e} other found => ?_, fun {ref c} found => ?_⟩
  · have inside := (Array.getElem?_eq_some_iff.mp found).1
    simp only [Store.initial, List.size_toArray, List.length_cons, List.length_nil] at inside
    rw [globalEnvironment] at other
    omega
  · have inside := (Array.getElem?_eq_some_iff.mp found).1
    exact absurd inside (Nat.not_lt_zero ref)

end Chains

end Store

/-! ## Evaluations -/

namespace Eval

open Routines

/-- Chained stores with at least `n` environments, in which the environments of a store `s` are
stable; code runs in one of the first `n` environments. -/
def stableSince (s : Store) : Regime Nat where
  Holds n m := s.Stable m.store ∧ m.store.Chained ∧ n ≤ m.store.environments.size
  Runs n env _ := env < n

section Steps

variable {s : Store} {n env : Nat}

/-- Names are bound in the global environment and in new ones. -/
theorem stable_declare (allowed : env = Store.globalEnvironment ∨ s.environments.size ≤ env)
    (x : Text) (v : Value) : (stableSince s).Keeps n (change fun s => s.declare env x v) := by
  refine .change fun m hm => ?_
  obtain ⟨stable, chained, enough⟩ := hm
  refine ⟨stable.declare v (allowed.imp_right .inl), chained.declare env x v, ?_⟩
  simpa [Store.declare] using enough

/-- Making a function in an environment that exists keeps the names. -/
theorem stable_makeFunction (inside : env < n) (id params body : Tree) :
    (stableSince s).Keeps n (makeFunction env id params body) := by
  have made (strict : Bool) : (stableSince s).Keeps n
      (Value.function <$> changeGet fun s => s.newClosure ⟨id, params, body, env, strict⟩) := by
    refine .map _ (.changeGet fun m hm => ?_)
    obtain ⟨stable, chained, enough⟩ := hm
    exact ⟨stable.congr rfl, chained.newClosure (Nat.lt_of_lt_of_le inside enough), enough⟩
  refine Always.bind (Regime.keeps_attempt _) fun statements => .get fun m _ => ?_
  split
  · exact made true
  · exact Always.bind (Regime.keeps_attempt _) made

/-- Setting a name keeps the names, but that the global environment may come to bind it. -/
theorem stable_writeName (inside : env < n) (name : Tree) (l : Option Location) (v : Value) :
    (stableSince s).Keeps n (writeName env name l v) := by
  refine (Regime.keeps_keyOf name).bind fun key => ?_
  refine Always.bind (.changeGet fun m hm => ?assign) fun bound => .ite (fun _ => .pure _) fun _ =>
    .get fun m hm => .ite (fun _ => Regime.keeps_fail _) fun _ => ?declare
  case assign =>
    -- The name is written where it was found.
    obtain ⟨stable, chained, enough⟩ := hm
    unfold Store.assign
    split
    · rename_i found resolved
      obtain ⟨binds, -⟩ :=
        Store.declares_of_resolve? chained (Nat.lt_of_lt_of_le inside enough) resolved
      refine ⟨stable.declare v (.inr (.inr binds)), chained.declare found key v, ?_⟩
      simpa [Store.declare] using enough
    · exact ⟨stable, chained, enough⟩
  case declare =>
    refine .change fun m hm => ?_
    -- The name is added to the global environment.
    obtain ⟨stable, chained, enough⟩ := hm
    have root := Store.rootWithin_enough chained (Nat.lt_succ_self env)
      (Nat.lt_of_lt_of_le inside enough)
    refine ⟨stable.declare v (.inl root), chained.declare _ key v, ?_⟩
    simpa [Store.declare] using enough

/-- Entering a body binds names in the global environment or in a new one only. -/
theorem stable_hoist (allowed : env = Store.globalEnvironment ∨ s.environments.size ≤ env)
    (inside : env < n) (body : Tree) : (stableSince s).Keeps n (hoist env body) := by
  refine Regime.keeps_congruent.hoist (stable_declare allowed) (fun name => ?_)
    fun _ _ _ _ _ _ id params inner _ => stable_makeFunction inside id params inner
  refine (Regime.keeps_keyOf name).bind fun key => .change fun m hm => ?_
  split
  · exact hm
  · obtain ⟨stable, chained, enough⟩ := hm
    refine ⟨stable.declare _ (allowed.imp_right .inl), chained.declare env key _, ?_⟩
    simpa [Store.declare] using enough

/-- The invariant of more environments is that of fewer. -/
theorem stable_fewer {n' : Nat} (fewer : n ≤ n') {α : Type}
    {r : EStateM.Result Interrupt Machine α}
    (h : Ended ((stableSince s).Holds n') (fun _ => True) r) :
    Ended ((stableSince s).Holds n) (fun _ => True) r :=
  h.weaken fun _ hm => ⟨hm.1, hm.2.1, Nat.le_trans fewer hm.2.2⟩

/-- What is done in a new environment, by code that may run in it. -/
theorem stable_child (inside : ∀ m : Machine, (stableSince s).Holds n m →
    env < m.store.environments.size)
    {α : Type} {next : Nat → Eval α}
    (h : ∀ own, s.environments.size ≤ own → (stableSince s).Keeps (own + 1) (next own)) :
    (stableSince s).Keeps n (changeGet (fun s => s.child env) >>= next) := by
  intro m hm
  have parent := inside m hm
  obtain ⟨stable, chained, enough⟩ := hm
  refine stable_fewer (Nat.le_trans enough (Nat.le_succ _))
    (h m.store.environments.size stable.size { m with store := (m.store.child env).2 } ?_)
  refine ⟨stable.child env, chained.child parent, ?_⟩
  simp [Store.child]

/-- A call restores the mode, which environments have nothing to do with. -/
theorem stable_inCall {strict : Bool} {x : Eval Unit} (h : (stableSince s).Keeps n x) :
    (stableSince s).Keeps n (inCall strict x) :=
  Always.inCall (fun _ hm => hm) (fun _ _ _ kept => kept) (fun _ _ _ => trivial) h

end Steps

/-- So evaluations, executions and calls keep the names, by what each step of them does. -/
theorem lawful_stableSince (s : Store) : (stableSince s).Lawful where
  untouched h same := ⟨h.1.congr same.environments,
    h.2.1.congr same.environments same.closures, same.environments ▸ h.2.2⟩
  item inside _ _ := inside
  field _ inside _ _ := inside
  declared inside _ := inside
  writeName inside := stable_writeName inside
  function {n env l id params body} inside := by
    -- A named function is made in an environment of its own.
    refine .ite (fun _ => stable_makeFunction inside _ _ _) fun _ => ?_
    refine stable_child (fun m hm => Nat.lt_of_lt_of_le inside hm.2.2) fun own new => ?_
    refine (stable_makeFunction (Nat.lt_succ_self own) id params body).bind fun f => ?_
    exact (Regime.keeps_nameOf id).bind fun name => (Regime.keeps_keyOf name).bind fun key =>
      (stable_declare (.inr new) key f).bind fun _ => .pure f
  enter {n m ref c} h found r upheld args := by
    have inside := h.2.1.closure found
    have entered : (stableSince s).Keeps m.store.environments.size (r.enterBy id c args) := by
      -- What is entered is new, so that anything may be declared in it.
      refine stable_child (fun m' hm' => Nat.lt_of_lt_of_le inside hm'.2.2) fun own new => ?_
      refine (Regime.keeps_attempt _).bind fun params => ?_
      refine Always.bind
        (Regime.keeps_congruent.bindParameters (stable_declare (.inr new)) params args) fun _ => ?_
      refine (Regime.keeps_attempt _).bind fun body => ?_
      refine (stable_hoist (.inr new) (Nat.lt_succ_self own) body).bind fun _ => stable_inCall ?_
      exact (Regime.keeps_attempt _).bind fun statements =>
        .forM fun t _ => upheld.execute (Nat.lt_succ_self own)
    exact stable_fewer h.2.2 (entered m ⟨h.1, h.2.1, Nat.le_refl _⟩)

/-- A program runs in the global environment. -/
theorem stable_runProgram {s : Store} {n : Nat} (positive : 0 < n) (limit fuel : Nat)
    (program : Tree) : (stableSince s).Keeps n (runProgram limit fuel program) := by
  have lawful := lawful_stableSince s
  have upheld := lawful.upheld limit fuel
  refine (Regime.keeps_attempt _).bind fun body => (Regime.keeps_attempt _).bind fun strict => ?_
  refine Always.bind (fun m hm => .ok hm) fun _ => (Regime.keeps_attempt _).bind fun statements => ?_
  refine (stable_hoist (.inl rfl) positive body).bind fun _ => Always.guarded ?_ trivial
  refine .foldlM fun t _ v => ?_
  unfold runStatement
  split
  · exact upheld.evaluate positive
  · exact (upheld.execute (t := t) positive).bind fun _ => .pure v

/-- A store in which all names that were found are found where they were: its environments are
stable, and their chains still end in the global one. -/
structure Resolves (s s' : Store) : Prop extends s.Stable s' where
  chained : s'.Chained
  resolve (env : Nat) (inside : env < s.environments.size) (x : Text) (found : Nat) :
    s.resolve? env x = some found → s'.resolve? env x = some found

end Eval

open Eval

/-- Names mean the same as long as a program runs. The store in which a program starts has chains of
environments, and from any machine on with such a store, however an evaluation ends, an execution, a
call or the run of a program: every environment has the parent that it had, and binds the names that
it bound, where only the global one can get more; every name that was found from an environment is
still found in the same one; and the chains still end in the global environment, so that looking for a
name or for the outermost environment comes to an end, whatever number of steps is allowed beyond the
number of the environment. -/
theorem names_stay (limit fuel : Nat) :
    Store.initial.Chained ∧ ∀ m : Machine, m.store.Chained →
      (∀ env t, env < m.store.environments.size →
        Ended (fun m' => Resolves m.store m'.store) (fun _ => True) (evaluate limit fuel env t m)) ∧
      (∀ env t, env < m.store.environments.size →
        Ended (fun m' => Resolves m.store m'.store) (fun _ => True) (execute limit fuel env t m)) ∧
      (∀ f args,
        Ended (fun m' => Resolves m.store m'.store) (fun _ => True) (call limit fuel f args m)) ∧
      (∀ program,
        Ended (fun m' => Resolves m.store m'.store) (fun _ => True)
          (runProgram limit fuel program m)) ∧
      ∀ env steps, env < m.store.environments.size → env < steps →
        m.store.rootWithin steps env = m.store.root env ∧
        m.store.root env = Store.globalEnvironment ∧
        ∀ x, m.store.resolveWithin x steps env = m.store.resolve? env x := by
  refine ⟨Store.chained_initial, fun m chained => ?_⟩
  have lawful := lawful_stableSince m.store
  have upheld := lawful.upheld limit fuel
  have start : (stableSince m.store).Holds m.store.environments.size m :=
    ⟨.refl _, chained, Nat.le_refl _⟩
  -- What the regime keeps is what is claimed at the end of each run.
  have settle {α : Type} {act : Eval α}
      (h : (stableSince m.store).Keeps m.store.environments.size act) :
      Ended (fun m' => Resolves m.store m'.store) (fun _ => True) (act m) :=
    (h m start).weaken fun m' hm' => ⟨hm'.1, hm'.2.1, fun env inside x found resolved =>
      hm'.1.resolve?_eq chained hm'.2.1 inside resolved⟩
  refine ⟨fun env t inside => settle (upheld.evaluate inside),
    fun env t inside => settle (upheld.execute inside), fun f args => settle (upheld.call _ f args),
    fun program => settle (stable_runProgram chained.positive limit fuel program), ?_⟩
  intro env steps inside more
  have root : m.store.root env = Store.globalEnvironment :=
    Store.rootWithin_enough chained (Nat.lt_succ_self env) inside
  exact ⟨(Store.rootWithin_enough chained more inside).trans root.symm, root, fun x =>
    Store.resolveWithin_enough chained x more (Nat.lt_succ_self env)⟩

/-- A function whose calls make a counter of their own, a function `own`, and one such call. A count
tells a global variable, which is new the first time. -/
def makesCounter : Tree :=
  Tree.new (.program (.tuple [
    Tree.new (.function .declaration (.identifier "make") (.tuple [])
      (.block [
        Tree.declaration [Tree.declarator "n" (Tree.new (.literal (.num (.zero false))))],
        Tree.new (.returnStatement (Tree.new (.function .expression (.identifier "own") (.tuple [])
          (.block [
            Tree.new (.expressionStatement (Tree.assign "n"
              (Tree.new (.binary (.text "+") (.identifier "n") (Tree.new (.literal (.num .one))))))),
            Tree.new (.returnStatement (Tree.assign "told" (.identifier "n")))]))))])),
    Tree.new (.expressionStatement (Tree.new (.call (.identifier "make") (.tuple []))))]))

/-- The machine in which a counter has been made. -/
def countingMachine : Machine := ((Interpreter.new 5).run makesCounter 20).2.machine

/-- A count changes the variable of the counter's maker and adds a global variable, but leaves where
names are found. -/
theorem names_stay_countingMachine :
    countingMachine.store.Chained ∧ 2 < countingMachine.store.environments.size ∧
      countingMachine.store.resolve? 2 "n" = some 1 ∧
      countingMachine.store.resolve? 2 "told" = none ∧
      Ended (fun m' => Resolves countingMachine.store m'.store ∧ m'.store.resolve? 2 "n" = some 1 ∧
          m'.store.resolve? 2 "told" = some 0) (fun _ => True)
        (call 5 20 (.function 1) [] countingMachine) ∧
      countingMachine.store.root 2 = Store.globalEnvironment := by
  obtain ⟨initial, stay⟩ := names_stay 5 20
  have chained : countingMachine.store.Chained := by
    obtain ⟨-, -, -, ran, -⟩ := stay (Interpreter.new 5).machine initial
    have ended := ran makesCounter
    exact (Ended.performed ended).chained
  obtain ⟨-, -, called, -, ends⟩ := stay countingMachine chained
  have inside : 2 < countingMachine.store.environments.size := by decide +kernel
  have found : countingMachine.store.resolve? 2 "n" = some 1 := by decide +kernel
  have told : (machineAfter (call 5 20 (.function 1) [] countingMachine)).store.resolve? 2 "told" =
      some 0 := by decide +kernel
  refine ⟨chained, inside, found, by decide +kernel, ?_, (ends 2 3 inside (by decide)).2.1⟩
  have ended := called (.function 1) []
  generalize call 5 20 (.function 1) [] countingMachine = r at ended told
  cases ended with
  | ok stays => exact .ok ⟨stays, stays.resolve 2 inside "n" 1 found, told⟩
  | error stays why => exact .error ⟨stays, stays.resolve 2 inside "n" 1 found, told⟩ trivial

end TailLoop
