import TailLoop.Proofs.Interpreter.Environments
import TailLoop.Proofs.Interpreter.Operations

/-!
# Setting variables one by one

Setting a variable that an environment binds is an update in place: it leaves where names are found
and what the others hold, and two such updates commute (`Store.declare_comm`). So several variables of
an environment can be set in one go (`Store.setEach`). An evaluation ignores variables if it does the
same whatever they are set to, and leaves them as they are (`Eval.Ignores`): this is how generated
variables are kept apart from the rest of a program.
-/

namespace TailLoop

/-- An update in place of a name that is bound commutes with setting another one. -/
theorem putEntry_comm {x y : Text} (other : x ≠ y) (v w : Value) {b : List (Text × Value)}
    (hx : x ∈ b.map (·.1)) :
    putEntry y w (putEntry x v b) = putEntry x v (putEntry y w b) := by
  induction b with
  | nil => cases hx
  | cons entry rest ih =>
    obtain ⟨z, u⟩ := entry
    rw [List.map_cons, List.mem_cons] at hx
    by_cases first : z = x
    · subst first
      simp [putEntry, other]
    · by_cases second : z = y
      · subst second
        simp [putEntry, Ne.symm other]
      · have rest := ih (hx.resolve_left (Ne.symm first))
        simp [putEntry, first, second, rest]

namespace Store

/-- An environment binds all of some names. -/
def Binds (s : Store) (env : Nat) (names : List Text) : Prop :=
  ∀ x ∈ names, s.declares env x = true

/-- A store with variables of an environment set, one after the other. -/
def setEach (s : Store) (env : Nat) (entries : List (Text × Value)) : Store :=
  entries.foldl (fun s e => s.declare env e.1 e.2) s

section Setting

variable {s : Store} {env env' : Nat} {x y : Text} {v w : Value}

/-- Only environments that exist bind names. -/
theorem inside_of_declares (h : s.declares env x = true) : env < s.environments.size := by
  by_contra outside
  rw [declares, Array.getElem?_eq_none (by omega)] at h
  cases h

/-- Setting a variable leaves what is bound. -/
theorem names_declare (bound : s.declares env x = true) (v : Value) (env' : Nat) :
    (s.declare env x v).names env' = s.names env' := by
  by_cases here : env = env'
  · subst here
    rw [names_declare_self s (inside_of_declares bound), if_pos
      ((declares_iff_mem_names ..).mp bound)]
  · exact names_declare_ne s here x v

/-- Setting a bound name does not change which names are bound where. -/
theorem declares_declare (bound : s.declares env x = true) (v : Value) (env' : Nat) (y : Text) :
    (s.declare env x v).declares env' y = s.declares env' y := by
  rw [Bool.eq_iff_iff, declares_iff_mem_names, declares_iff_mem_names, names_declare bound]

/-- A name is looked for in an environment, and then in the one around it. -/
theorem resolveWithin_succ (s : Store) (x : Text) (fuel env : Nat) :
    s.resolveWithin x (fuel + 1) env =
      if s.declares env x then some env
      else ((s.environments[env]?.map (·.parent)).join).bind (s.resolveWithin x fuel) := by
  rw [resolveWithin, declares]
  cases s.environments[env]? with
  | none => rfl
  | some e =>
    simp only [Option.any_some, Option.map_some, Option.join_some]
    split
    · rfl
    · cases e.parent <;> rfl

/-- Setting a variable leaves where names are found. -/
theorem resolve?_declare (bound : s.declares env x = true) (v : Value) (env' : Nat) (y : Text) :
    (s.declare env x v).resolve? env' y = s.resolve? env' y := by
  have steps (fuel env' : Nat) :
      (s.declare env x v).resolveWithin y fuel env' = s.resolveWithin y fuel env' := by
    induction fuel generalizing env' with
    | zero => rfl
    | succ fuel ih =>
      rw [resolveWithin_succ, resolveWithin_succ, declares_declare bound, parent_declare]
      congr 2
      funext parent
      exact ih parent
  exact steps (env' + 1) env'

/-- Setting a variable leaves the outermost environments. -/
theorem root_declare (s : Store) (env : Nat) (x : Text) (v : Value) (env' : Nat) :
    (s.declare env x v).root env' = s.root env' := by
  have parents (i : Nat) : ((s.declare env x v).environments[i]?).bind (·.parent) =
      (s.environments[i]?).bind (·.parent) := by
    have joined (e? : Option Environment) : e?.bind (·.parent) = (e?.map (·.parent)).join := by
      cases e? <;> rfl
    rw [joined, joined, parent_declare]
  have steps (fuel env' : Nat) :
      (s.declare env x v).rootWithin fuel env' = s.rootWithin fuel env' := by
    induction fuel generalizing env' with
    | zero => rfl
    | succ fuel ih =>
      rw [rootWithin, rootWithin, parents]
      cases (s.environments[env']?).bind (·.parent) with
      | none => rfl
      | some parent => exact ih parent
  exact steps (env' + 1) env'

/-- What a name stands for goes by the environments. -/
theorem lookup?_congr {s' : Store} (same : s'.environments = s.environments) (env : Nat) (x : Text) :
    s'.lookup? env x = s.lookup? env x := by
  have declared (i : Nat) : s'.declares i x = s.declares i x := by rw [declares, same, declares]
  have steps (fuel env : Nat) : s'.resolveWithin x fuel env = s.resolveWithin x fuel env := by
    induction fuel generalizing env with
    | zero => rfl
    | succ fuel ih =>
      rw [resolveWithin_succ, resolveWithin_succ, declared, same]
      congr 2
      funext parent
      exact ih parent
  rw [lookup?, lookup?, resolve?, resolve?, steps, same]

/-- A bound name is found at once. -/
theorem resolve?_of_declares (h : s.declares env x = true) : s.resolve? env x = some env := by
  rw [resolve?, resolveWithin_succ, if_pos h]

/-- Setting a variable leaves the others. -/
theorem lookup?_declare_ne (bound : s.declares env x = true) (other : y ≠ x) (v : Value)
    (env' : Nat) : (s.declare env x v).lookup? env' y = s.lookup? env' y := by
  rw [lookup?, lookup?, resolve?_declare bound]
  congr 1
  funext i
  rw [Simulation.environments_declare]
  split
  · cases s.environments[i]? with
    | none => rfl
    | some e => exact Simulation.lookup_putEntry_ne other v e.bindings
  · rfl

/-- A variable has the value that it was set to. -/
theorem lookup?_declare_self (bound : s.declares env x = true) (v : Value) :
    (s.declare env x v).lookup? env x = some v := by
  rw [lookup?, resolve?_declare bound, resolve?_of_declares bound, Option.bind_some,
    Simulation.environments_declare, if_pos rfl,
    Array.getElem?_eq_getElem (inside_of_declares bound)]
  exact lookup_putEntry_self x v _

/-- Setting a variable that is bound commutes with setting another one. -/
theorem declare_comm (bound : s.declares env x = true) (apart : env ≠ env' ∨ x ≠ y) (v w : Value) :
    (s.declare env x v).declare env' y w = (s.declare env' y w).declare env x v := by
  have same : (s.environments.modify env (·.bind x v)).modify env' (·.bind y w) =
      (s.environments.modify env' (·.bind y w)).modify env (·.bind x v) := by
    apply Array.ext_getElem?
    intro i
    simp only [Array.getElem?_modify]
    -- Only in one and the same environment do the two writes meet, and there the names differ.
    by_cases here : env = i
    · by_cases there : env' = i
      · subst here
        subst there
        have other : x ≠ y := apart.resolve_left fun h => h rfl
        rw [declares_iff_mem_names, names] at bound
        cases found : s.environments[env']? with
        | none => simp
        | some e =>
          rw [found] at bound
          simp [Environment.bind, putEntry_comm other v w bound]
      · simp [here, there]
    · simp [here]
  rw [declare, declare, declare, declare]
  simp only [same]

/-! ## Several variables -/

variable {entries entries' : List (Text × Value)}

/-- No variables are set. -/
@[simp]
theorem setEach_nil (s : Store) (env : Nat) : s.setEach env [] = s := rfl

/-- Variables are set one after the other. -/
@[simp]
theorem setEach_cons (s : Store) (env : Nat) (e : Text × Value) (entries : List (Text × Value)) :
    s.setEach env (e :: entries) = (s.declare env e.1 e.2).setEach env entries := rfl

/-- Setting two rows of variables is setting one after the other. -/
theorem setEach_append (s : Store) (env : Nat) (entries entries' : List (Text × Value)) :
    s.setEach env (entries ++ entries') = (s.setEach env entries).setEach env entries' :=
  List.foldl_append ..

/-- The first of some bound variables is bound. -/
theorem Binds.head {e : Text × Value} (h : s.Binds env ((e :: entries).map (·.1))) :
    s.declares env e.1 = true :=
  h e.1 List.mem_cons_self

/-- The others are bound after the first one is set. -/
theorem Binds.tail {e : Text × Value} (h : s.Binds env ((e :: entries).map (·.1))) :
    (s.declare env e.1 e.2).Binds env (entries.map (·.1)) := by
  intro x hx
  rw [declares_declare h.head]
  exact h x (List.mem_cons_of_mem _ hx)

/-- Setting bound variables does not change which names are bound where. -/
theorem declares_setEach (bound : s.Binds env (entries.map (·.1))) (env' : Nat) (y : Text) :
    (s.setEach env entries).declares env' y = s.declares env' y := by
  induction entries generalizing s with
  | nil => rfl
  | cons e entries ih => rw [setEach_cons, ih bound.tail, declares_declare bound.head]

/-- Names resolve as before when bound variables are set. -/
theorem resolve?_setEach (bound : s.Binds env (entries.map (·.1))) (env' : Nat) (y : Text) :
    (s.setEach env entries).resolve? env' y = s.resolve? env' y := by
  induction entries generalizing s with
  | nil => rfl
  | cons e entries ih => rw [setEach_cons, ih bound.tail, resolve?_declare bound.head]

/-- The other variables keep their values. -/
theorem lookup?_setEach_of_notMem (bound : s.Binds env (entries.map (·.1)))
    (other : y ∉ entries.map (·.1)) (env' : Nat) :
    (s.setEach env entries).lookup? env' y = s.lookup? env' y := by
  induction entries generalizing s with
  | nil => rfl
  | cons e entries ih =>
    rw [List.map_cons, List.mem_cons, not_or] at other
    rw [setEach_cons, ih bound.tail other.2, lookup?_declare_ne bound.head other.1]

/-- Each of some distinct variables has the value that it was set to. -/
theorem lookup?_setEach_of_mem (bound : s.Binds env (entries.map (·.1)))
    (distinct : (entries.map (·.1)).Nodup) {e : Text × Value} (he : e ∈ entries) :
    (s.setEach env entries).lookup? env e.1 = some e.2 := by
  induction entries generalizing s with
  | nil => cases he
  | cons first entries ih =>
    rw [List.map_cons, List.nodup_cons] at distinct
    rcases List.mem_cons.mp he with rfl | he
    · rw [setEach_cons, lookup?_setEach_of_notMem bound.tail distinct.1,
        lookup?_declare_self bound.head]
    · exact ih bound.tail distinct.2 he

/-- Setting some variables and declaring another one can be done in either order. -/
theorem declare_setEach (bound : s.Binds env (entries.map (·.1)))
    (apart : env ≠ env' ∨ y ∉ entries.map (·.1)) (w : Value) :
    (s.setEach env entries).declare env' y w = (s.declare env' y w).setEach env entries := by
  induction entries generalizing s with
  | nil => rfl
  | cons e entries ih =>
    have first : env ≠ env' ∨ e.1 ≠ y :=
      apart.imp_right fun other same => other (same ▸ List.mem_cons_self)
    have rest : env ≠ env' ∨ y ∉ entries.map (·.1) :=
      apart.imp_right fun other mem => other (List.mem_cons_of_mem _ mem)
    rw [setEach_cons, setEach_cons, ih bound.tail rest, declare_comm bound.head first]

/-- Variables that are not the same can be set in any order. -/
theorem setEach_comm (bound : s.Binds env (entries.map (·.1)))
    (bound' : s.Binds env' (entries'.map (·.1)))
    (apart : env ≠ env' ∨ ∀ y ∈ entries'.map (·.1), y ∉ entries.map (·.1)) :
    (s.setEach env entries).setEach env' entries' =
      (s.setEach env' entries').setEach env entries := by
  induction entries' generalizing s with
  | nil => rfl
  | cons e entries' ih =>
    have first : env ≠ env' ∨ e.1 ∉ entries.map (·.1) :=
      apart.imp_right fun other => other e.1 List.mem_cons_self
    have rest : env ≠ env' ∨ ∀ y ∈ entries'.map (·.1), y ∉ entries.map (·.1) :=
      apart.imp_right fun other y hy => other y (List.mem_cons_of_mem _ hy)
    have still : (s.declare env' e.1 e.2).Binds env (entries.map (·.1)) := fun x hx => by
      rw [declares_declare bound'.head]
      exact bound x hx
    rw [setEach_cons, setEach_cons, declare_setEach bound first,
      ih still bound'.tail rest]

/-- The outermost environment stays the same. -/
theorem root_setEach (s : Store) (env : Nat) (entries : List (Text × Value)) (env' : Nat) :
    (s.setEach env entries).root env' = s.root env' := by
  induction entries generalizing s with
  | nil => rfl
  | cons e entries ih => rw [setEach_cons, ih, root_declare]

/-- Setting variables is about environments only, and goes by what they are. -/
theorem setEach_eq {s' : Store} (same : s'.environments = s.environments) (env : Nat)
    (entries : List (Text × Value)) :
    s'.setEach env entries = s'.withEnvironments (s.setEach env entries).environments := by
  induction entries generalizing s s' with
  | nil => rw [setEach_nil, setEach_nil, ← same]; rfl
  | cons e entries ih =>
    have stays : (s'.declare env e.1 e.2).environments = (s.declare env e.1 e.2).environments := by
      rw [declare, declare, same]
    rw [setEach_cons, setEach_cons, ih stays]
    rfl

/-- The environments around each other stay the same. -/
theorem Chained.setEach (h : s.Chained) (env : Nat) (entries : List (Text × Value)) :
    (s.setEach env entries).Chained := by
  induction entries generalizing s with
  | nil => exact h
  | cons e entries ih => exact ih (h.declare env e.1 e.2)

/-- Bound names stay bound while the store grows. -/
theorem Stable.binds {s' : Store} (h : Stable s s') {names : List Text} (bound : s.Binds env names) :
    s'.Binds env names := fun x hx =>
  h.declares (inside_of_declares (bound x hx)) (bound x hx)

end Setting

end Store

/-- A machine with variables of an environment set. -/
def Machine.setEach (m : Machine) (env : Nat) (entries : List (Text × Value)) : Machine :=
  { m with store := m.store.setEach env entries }

/-- Setting two rows of variables of a machine is setting one after the other. -/
theorem Machine.setEach_append (m : Machine) (env : Nat) (entries entries' : List (Text × Value)) :
    m.setEach env (entries ++ entries') = (m.setEach env entries).setEach env entries' := by
  rw [setEach, Store.setEach_append]
  rfl

/-- Variables that are not the same can be set in any order. -/
theorem Machine.setEach_comm {m : Machine} {env env' : Nat} {entries entries' : List (Text × Value)}
    (bound : m.store.Binds env (entries.map (·.1))) (bound' : m.store.Binds env' (entries'.map (·.1)))
    (apart : env ≠ env' ∨ ∀ y ∈ entries'.map (·.1), y ∉ entries.map (·.1)) :
    (m.setEach env entries).setEach env' entries' =
      (m.setEach env' entries').setEach env entries :=
  congrArg (Machine.mk · m.depth m.strict) (Store.setEach_comm bound bound' apart)

namespace Eval

open Simulation (writeName_eq)

/-- Variables that an evaluation neither reads nor sets: whatever they are set to, it does the same
and leaves them so. -/
def Ignores (names : List Text) (env : Nat) {α : Type} (act : Eval α) (m : Machine) : Prop :=
  ∀ entries : List (Text × Value), (∀ e ∈ entries, e.1 ∈ names) →
    act (m.setEach env entries) = afterwards (·.setEach env entries) (act m)

section Ignoring

variable {names : List Text} {env : Nat} {m : Machine} {α β : Type}

/-- Variables among bound names are bound. -/
theorem binds_entries (bound : m.store.Binds env names) {entries : List (Text × Value)}
    (among : ∀ e ∈ entries, e.1 ∈ names) : m.store.Binds env (entries.map (·.1)) := by
  intro x hx
  obtain ⟨e, he, rfl⟩ := List.mem_map.mp hx
  exact bound e.1 (among e he)

/-- A name that is not among some names is none of the variables among them. -/
theorem notMem_entries {x : Text} (other : x ∉ names) {entries : List (Text × Value)}
    (among : ∀ e ∈ entries, e.1 ∈ names) : x ∉ entries.map (·.1) := by
  intro hx
  obtain ⟨e, he, rfl⟩ := List.mem_map.mp hx
  exact other (among e he)

/-- If no step reads or sets some variables, the steps together do not. -/
theorem Ignores.bind {act : Eval α} {f : α → Eval β} (h : Ignores names env act m)
    (next : ∀ a m', act m = .ok a m' → Ignores names env (f a) m') :
    Ignores names env (act >>= f) m := by
  intro entries among
  have first := h entries among
  cases done : act m with
  | ok a m' =>
    rw [done] at first
    rw [Simulation.bind_of_ok first, Simulation.bind_of_ok done]
    exact next a m' done entries among
  | error e m' =>
    rw [done] at first
    rw [Simulation.bind_of_error first, Simulation.bind_of_error done]
    rfl

/-- Giving a value neither reads nor sets variables. -/
theorem Ignores.pure (a : α) : Ignores names env (pure a : Eval α) m := fun _ _ => rfl

/-- Reading a name gives its value where it is bound, and an error elsewhere. -/
theorem readName_eq {name : Tree} {x : Text} (key : name.key = .ok x) (env : Nat)
    (l : Option Location) (m : Machine) :
    readName env name l m =
      match m.store.lookup? env x with
      | some v => .ok v m
      | none => .error (.failed (.notDefined name.inline l)) m := by
  have keyed : keyOf name = Pure.pure x := by rw [keyOf, key]; rfl
  rw [readName, keyed, pure_bind]
  change (match m.store.lookup? env x with | some v => _ | none => _ : Eval Value) m = _
  cases m.store.lookup? env x <;> rfl

/-- A name that was read is bound, and the machine is as before. -/
theorem readName_ok {env : Nat} {x : Text} {l : Option Location} {m m' : Machine} {v : Value}
    (h : readName env (.text x) l m = .ok v m') : m.store.lookup? env x = some v ∧ m' = m := by
  rw [readName_eq (Simulation.keyed x)] at h
  cases found : m.store.lookup? env x with
  | none => rw [found] at h; cases h
  | some u => rw [found] at h; cases h; exact ⟨rfl, rfl⟩

/-- Setting a variable that is bound. -/
theorem writeName_bound {x : Text} (bound : m.store.declares env x = true) (l : Option Location)
    (v : Value) : writeName env (.text x) l v m = .ok () (m.setEach env [(x, v)]) :=
  Simulation.writeName_of_resolve? l v (Simulation.keyed x) (Store.resolve?_of_declares bound)

/-- An identifier is evaluated by reading its name. -/
theorem evaluate_identifier (limit k env : Nat) (x : Text) :
    evaluate limit (k + 1) env (.identifier x) = readName env (.text x) none := by
  rw [Tree.identifier, Tree.new, evaluate]

/-- A name that is not among some others is not their text. -/
theorem key_ne_of_notMem {x : Text} (other : x ∉ names) : ∀ y ∈ names, (Tree.text x).key ≠ .ok y := by
  rintro y hy ⟨⟩
  exact other hy

/-- Reading another variable. -/
theorem Ignores.readName (bound : m.store.Binds env names) {name : Tree}
    (other : ∀ x ∈ names, name.key ≠ .ok x) (env' : Nat) (l : Option Location) :
    Ignores names env (readName env' name l) m := by
  cases key : name.key with
  | error fault =>
    have fails : Eval.readName env' name l = Eval.fail (.malformed fault) := by
      rw [Eval.readName, keyOf, key]
      rfl
    rw [fails]
    exact fun _ _ => rfl
  | ok x =>
    intro entries among
    have unnamed : x ∉ names := fun hx => other x hx key
    have same := Store.lookup?_setEach_of_notMem (binds_entries bound among)
      (notMem_entries unnamed among) env'
    rw [readName_eq key, readName_eq key, Machine.setEach, same]
    cases m.store.lookup? env' x <;> rfl

/-- Setting another variable. -/
theorem Ignores.writeName (bound : m.store.Binds env names) {name : Tree}
    (other : ∀ x ∈ names, name.key ≠ .ok x) (env' : Nat) (l : Option Location) (v : Value) :
    Ignores names env (writeName env' name l v) m := by
  -- The name that is written is none of those that are set, so that both orders give one store.
  cases key : name.key with
  | error fault =>
    have fails : Eval.writeName env' name l v = Eval.fail (.malformed fault) := by
      rw [Eval.writeName, keyOf, key]
      rfl
    rw [fails]
    exact fun _ _ => rfl
  | ok x =>
    intro entries among
    have unnamed : x ∉ names := fun hx => other x hx key
    have bound := binds_entries bound among
    have order (s : Store) (bound : s.Binds env (entries.map (·.1))) (i : Nat) :
        (s.setEach env entries).declare i x v = (s.declare i x v).setEach env entries :=
      Store.declare_setEach bound (.inr (notMem_entries unnamed among)) v
    obtain ⟨store, depth, strict⟩ := m
    rw [writeName_eq key, writeName_eq key, Machine.setEach, Store.resolve?_setEach bound,
      Store.root_setEach]
    cases store.resolve? env' x with
    | some i => simp only [afterwards, Machine.setEach, order store bound]
    | none =>
      cases strict with
      | true => rfl
      | false =>
        simp only [Bool.false_eq_true, if_false, afterwards, Machine.setEach, order store bound]

/-- Whether a name is bound does not change. -/
theorem Ignores.isUnbound (bound : m.store.Binds env names) (env' : Nat) (t : Tree) :
    Ignores names env (isUnbound env' t) m := by
  unfold Eval.isUnbound
  -- Only a name can be unbound, and it is looked up where the set names are bound anyway.
  split
  · rename_i l name
    cases key : name.key with
    | error fault =>
      have fails : keyOf name = Eval.fail (.malformed fault) := by rw [keyOf, key]; rfl
      rw [fails]
      exact fun _ _ => rfl
    | ok x =>
      have keyed : keyOf name = Pure.pure x := by rw [keyOf, key]; rfl
      rw [keyed, pure_bind]
      intro entries among
      change EStateM.Result.ok ((m.store.setEach env entries).resolve? env' x).isNone _ = _
      rw [Store.resolve?_setEach (binds_entries bound among)]
      rfl
  · exact .pure _

/-- What does not look at environments ignores all variables. -/
theorem Ignores.aside {act : Eval α} (h : Aside act) : Ignores names env act m := by
  intro entries among
  have changed := h m (m.store.setEach env entries).environments
  -- Environments stay as they are: this is how putting back the same ones ends.
  have stays := h m m.store.environments
  change act m = _ at stays
  have set : m.setEach env entries =
      m.withEnvironments (m.store.setEach env entries).environments :=
    congrArg (Machine.mk · m.depth m.strict) (Store.setEach_eq rfl env entries)
  have after {m' : Machine} (same : m' = m'.withEnvironments m.store.environments) :
      m'.withEnvironments (m.store.setEach env entries).environments = m'.setEach env entries :=
    congrArg (Machine.mk · m'.depth m'.strict)
      (Store.setEach_eq (congrArg (·.store.environments) same) env entries).symm
  rw [set, changed]
  cases done : act m with
  | ok a m' =>
    rw [done] at stays
    injection stays with _ same
    exact congrArg (EStateM.Result.ok a) (after same)
  | error e m' =>
    rw [done] at stays
    injection stays with _ same
    exact congrArg (EStateM.Result.error e) (after same)

/-- What an environment binds it binds after an evaluation. -/
theorem binds_of_evaluate {limit fuel env' : Nat} {t : Tree} {v : Value} {m' : Machine}
    (chained : m.store.Chained) (inside : env' < m.store.environments.size)
    (bound : m.store.Binds env names) (done : evaluate limit fuel env' t m = .ok v m') :
    m'.store.Binds env names ∧ m'.store.Chained ∧
      m.store.environments.size ≤ m'.store.environments.size := by
  have upheld := (lawful_stableSince m.store).upheld limit fuel
  have ended := upheld.evaluate (t := t) inside m ⟨.refl _, chained, Nat.le_refl _⟩
  change Ended _ _ (evaluate limit fuel env' t m) at ended
  rw [done] at ended
  cases ended with
  | ok kept => exact ⟨kept.1.binds bound, kept.2.1, kept.2.2⟩

end Ignoring

end Eval

end TailLoop
