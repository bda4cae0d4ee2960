import TailLoop.Proofs.Interpreter.Heritable
import TailLoop.Proofs.Interpreter.Regimes
import TailLoop.Proofs.Interpreter.Variables

/-!
# Variables that no code mentions

An evaluation looks up the names that the nodes of its code carry, and those that the functions it
calls carry; other variables are out of its reach. So it ignores the variables of an environment
that neither the code nor any function mentions (`evaluate_ignores`): whatever they are set to, it
does the same and leaves them so. To ignore such variables is a discipline (`discreet`), with the
number of environments that there are at least as its index.
-/

namespace TailLoop

/-! ## The names in a tree -/

namespace Tree

/-- The rules that list names. -/
def mentionRules : Rules (List Text) where
  atom _ := []
  tuple := List.flatten
  list _ := List.flatten
  dict _ _ := []
  node t shape :=
    let own := (t.name?.bind fun name => name.key.toOption).toList
    match shape with
    | .generic kind children => own ++ (kind ++ children.flatMap (·.2))
    | shape => own ++ shape.children.flatMap (·.2)

/-- The names that the nodes of a tree carry. -/
def mentions (t : Tree) : List Text := fold mentionRules t

/-- A tree that mentions none of some names. -/
def Avoids (names : List Text) (t : Tree) : Prop := ∀ x ∈ names, x ∉ t.mentions

instance (names : List Text) (t : Tree) : Decidable (t.Avoids names) :=
  inferInstanceAs (Decidable (∀ x ∈ names, x ∉ t.mentions))

variable {names : List Text} {t u : Tree}

/-- A row mentions what its items mention. -/
theorem mentions_items (items : List Tree) :
    (Tree.tuple items).mentions = items.flatMap mentions ∧
      (Tree.list items).mentions = items.flatMap mentions := by
  constructor <;>
  · rw [mentions, fold, foldItems_eq_map]
    exact List.flatten_eq_flatMap.trans (List.flatMap_map ..)

/-- A part of a node mentions what the node mentions. -/
theorem mentions_part {l : Option Location} {shape : Shape Tree} (hu : u ∈ shape.parts) :
    u.mentions ⊆ (Tree.node l shape).mentions := by
  have listed : u.mentions ⊆ shape.parts.flatMap mentions := fun x here =>
    List.mem_flatMap.mpr ⟨u, hu, here⟩
  have below : shape.parts.flatMap mentions =
      (shape.map (fold mentionRules)).children.flatMap (·.2) := by
    rw [Shape.children_map, Shape.parts, List.flatMap_map, List.flatMap_map]
    rfl
  rw [below] at listed
  refine List.Subset.trans listed ?_
  rw [mentions, fold_node]
  cases shape with
  | generic kind children =>
    exact List.Subset.trans (List.subset_append_right _ _) (List.subset_append_right _ _)
  | _ => exact List.subset_append_right _ _

/-- A node mentions the name that it carries. -/
theorem mem_mentions_of_name {name : Tree} {x : Text} (named : t.name = .ok name)
    (key : name.key = .ok x) : x ∈ t.mentions := by
  unfold Tree.name at named
  split at named
  · rename_i here
    cases named
    cases t with
    | node l shape =>
      rw [mentions, fold_node]
      have own : x ∈ ((Tree.node l shape).name?.bind fun name => name.key.toOption).toList := by
        rw [here, Option.bind_some, key]
        exact List.mem_singleton_self x
      cases shape with
      | identifier | function => exact List.mem_append_left _ own
      | _ => cases here
    | _ => cases here
  · cases named

/-- That a tree mentions none of some names passes to the parts of the tree. -/
theorem heritable_avoids (names : List Text) : Heritable (Avoids names) where
  plain {t} h := by
    cases t with
    | null | bool | int | num | text => exact fun x _ => List.not_mem_nil
    | _ => cases h
  place l := fun x _ => List.not_mem_nil
  tuple {items} := by
    simp only [Avoids, (mentions_items items).1, List.mem_flatMap, not_exists, not_and]
    exact ⟨fun h u hu x hx here => h x hx u hu here, fun h x hx u hu here => h u hu x hx here⟩
  list {items u} h hu x hx here :=
    h x hx ((mentions_items items).2 ▸ List.mem_flatMap.mpr ⟨u, hu, here⟩)
  part _ h hu x hx here := h x hx (mentions_part hu here)
  kind {l name children} h x hx here := by
    refine h x hx ?_
    rw [mentions, fold_node]
    exact List.mem_append_right _ (List.mem_append_left _ here)

/-- A part of a node avoids the names that the node avoids. -/
theorem Avoids.part {l : Option Location} {shape : Shape Tree} (h : (Tree.node l shape).Avoids names)
    (hu : u ∈ shape.parts) : u.Avoids names :=
  fun x hx here => h x hx (mentions_part hu here)

/-- The name that a node carries is none of those it avoids. -/
theorem Avoids.name {name : Tree} (h : t.Avoids names) (named : t.name = .ok name) :
    ∀ x ∈ names, name.key ≠ .ok x :=
  fun x hx key => h x hx (mem_mentions_of_name named key)

/-- The field of a tree for its declared name. -/
theorem Avoids.declared (h : t.Avoids names) (found : t.field "id" = .ok u) : u.Avoids names := by
  by_cases inert : t.isFunction = false
  · exact (heritable_avoids names).field h inert found
  · cases t with
    | node l shape =>
      cases shape with
      | function form id params body =>
        cases found
        exact h.part List.mem_cons_self
      | _ => exact absurd rfl inert
    | _ => exact absurd rfl inert

/-- The statements of a body. -/
theorem Avoids.body (h : t.Avoids names) (found : t.field "body" = .ok u) : u.Avoids names := by
  by_cases inert : t.isFunction = false
  · exact (heritable_avoids names).field h inert found
  · cases t with
    | node l shape =>
      cases shape with
      | function form id params body =>
        cases found
        exact h.part (List.mem_of_getElem? (i := 2) rfl)
      | _ => exact absurd rfl inert
    | _ => exact absurd rfl inert

end Tree

namespace Store

variable {s : Store} {names : List Text} {env : Nat}

/-- What is bound stays so when another variable is set. -/
theorem Binds.declare (h : s.Binds env names) (env' : Nat) (x : Text) (v : Value) :
    (s.declare env' x v).Binds env names := by
  intro y hy
  have bound := h y hy
  have inside := inside_of_declares bound
  rw [declares_iff_mem_names] at bound ⊢
  by_cases here : env' = env
  · subst here
    rw [names_declare_self s inside]
    split
    · exact bound
    · exact List.mem_append_left _ bound
  · rwa [names_declare_ne s here]

/-- A new environment leaves the bound names bound. -/
theorem Binds.child (h : s.Binds env names) (parent : Nat) : (s.child parent).2.Binds env names := by
  intro y hy
  have inside := inside_of_declares (h y hy)
  have bound := h y hy
  rw [declares] at bound ⊢
  rwa [Store.child, Array.getElem?_push, if_neg (Nat.ne_of_lt inside)]

/-- A new environment can be made before variables of another one are set. -/
theorem child_setEach (inside : env < s.environments.size) (entries : List (Text × Value))
    (parent : Nat) :
    (s.setEach env entries).child parent =
      ((s.child parent).1, (s.child parent).2.setEach env entries) := by
  -- By induction on the entries: setting an old environment and adding a new one can be done in
  -- either order.
  induction entries generalizing s with
  | nil => rfl
  | cons e entries ih =>
    have still : env < (s.declare env e.1 e.2).environments.size := by
      simpa [Store.declare] using inside
    have pushed : (s.environments.modify env (·.bind e.1 e.2)).push ⟨some parent, []⟩ =
        (s.environments.push ⟨some parent, []⟩).modify env (·.bind e.1 e.2) := by
      apply Array.ext_getElem?
      intro i
      simp only [Array.getElem?_push, Array.getElem?_modify, Array.size_modify]
      by_cases last : i = s.environments.size
      · simp [last, Nat.ne_of_lt inside]
      · simp [last]
    have first : (s.declare env e.1 e.2).child parent =
        ((s.child parent).1, (s.child parent).2.declare env e.1 e.2) := by
      simp only [Store.declare, Store.child, Array.size_modify, ← pushed]
    rw [setEach_cons, ih still, first]
    rfl

end Store

/-! ## Evaluations -/

namespace Eval

open Routines

/-- A machine with at least `n` environments, one of which binds some names that no function
mentions. -/
structure Sparing (names : List Text) (home n : Nat) (m : Machine) : Prop where
  chained : m.store.Chained
  enough : n ≤ m.store.environments.size
  inside : home < m.store.environments.size
  bound : m.store.Binds home names
  functions {ref : Nat} {c : Closure} (found : m.store.closures[ref]? = some c) :
    c.body.Avoids names

variable {names : List Text} {home n : Nat} {m : Machine} {α β : Type}

namespace Sparing

variable (h : Sparing names home n m)

include h

/-- The conditions hold on a machine of which nothing else was touched. -/
theorem untouched {m' : Machine} (same : Untouched m m') : Sparing names home n m' where
  chained := h.chained.congr same.environments same.closures
  enough := same.environments ▸ h.enough
  inside := same.environments ▸ h.inside
  bound x hx := by
    rw [Store.declares, same.environments]
    exact h.bound x hx
  functions found := h.functions (same.closures ▸ found)

/-- Declaring a name in another environment keeps them. -/
theorem declare (env : Nat) (x : Text) (v : Value) :
    Sparing names home n { m with store := m.store.declare env x v } where
  chained := h.chained.declare env x v
  enough := by simpa [Store.declare] using h.enough
  inside := by simpa [Store.declare] using h.inside
  bound := h.bound.declare env x v
  functions found := h.functions found

/-- A new environment keeps them, and is one more that there is at least. -/
theorem child {env : Nat} (parent : env < m.store.environments.size) :
    Sparing names home (m.store.environments.size + 1) { m with store := (m.store.child env).2 } where
  chained := h.chained.child parent
  enough := by simp [Store.child]
  inside := by
    have := h.inside
    simp only [Store.child, Array.size_push]
    omega
  bound := h.bound.child env
  functions found := h.functions found

/-- A new function keeps them if its body avoids the names. -/
theorem newClosure {c : Closure} (inside : c.environment < n) (avoids : c.body.Avoids names) :
    Sparing names home n { m with store := (m.store.newClosure c).2 } where
  chained := h.chained.newClosure (Nat.lt_of_lt_of_le inside h.enough)
  enough := h.enough
  inside := h.inside
  bound := h.bound
  functions {ref c'} found := by
    simp only [Store.newClosure, Array.getElem?_push] at found
    split at found
    · cases found
      exact avoids
    · exact h.functions found

/-- With fewer environments that there are at least they hold as well. -/
theorem fewer {n' : Nat} (less : n' ≤ n) : Sparing names home n' m :=
  { h with enough := Nat.le_trans less h.enough }

end Sparing

/-! ## What takes up interrupts -/

namespace Ignores

variable {x : Eval Unit}

/-- A pass of a loop ignores the variables that its body ignores. -/
theorem pass (h : Ignores names home x m) (labels : List Text) :
    Ignores names home (Eval.pass labels x) m := by
  intro entries among
  unfold Eval.pass
  rw [h entries among]
  cases x m with
  | ok => rfl
  | error e m' =>
    cases e with
    | broke label | continued label =>
      simp only [afterwards]
      split <;> rfl
    | _ => rfl

/-- A labeled statement ignores the variables that its body ignores. -/
theorem labeled (h : Ignores names home x m) (labels : List Text) :
    Ignores names home (Eval.labeled labels x) m := by
  intro entries among
  unfold Eval.labeled
  rw [h entries among]
  cases x m with
  | ok => rfl
  | error e m' =>
    cases e with
    | broke label =>
      simp only [afterwards]
      split <;> rfl
    | _ => rfl

/-- A change of the store that commutes with setting the variables. -/
theorem change {f : Store → Store} (h : ∀ entries : List (Text × Value),
      (∀ e ∈ entries, e.1 ∈ names) →
        f (m.store.setEach home entries) = (f m.store).setEach home entries) :
    Ignores names home (Eval.change f) m := by
  intro entries among
  change EStateM.Result.ok ()
    (Machine.mk (f (m.store.setEach home entries)) m.depth m.strict) = _
  rw [h entries among]
  rfl

end Ignores

/-! ## The discipline -/

/-- Code that does not mention some variables, run where no function mentions them. -/
def sparing (names : List Text) (home : Nat) : Regime Nat where
  Holds n m := Sparing names home n m
  Runs n env t := env < n ∧ t.Avoids names

/-- An evaluation keeps what is known of some variables and ignores them. -/
def Discreet (names : List Text) (home n : Nat) {α : Type} (act : Eval α) : Prop :=
  (sparing names home).Keeps n act ∧ ∀ m, Sparing names home n m → Ignores names home act m

/-- To keep what is known of some variables and to ignore them. -/
def discreet (names : List Text) (home : Nat) : Discipline Nat where
  Obeys n _ act _ := Discreet names home n act
  Runs := (sparing names home).Runs
  Sets := (sparing names home).Runs

section Steps

variable {env : Nat}

/-- Two steps are discreet if each of them is. -/
theorem discreet_bind {act : Eval α} {f : α → Eval β} (h : Discreet names home n act)
    (next : ∀ a, Discreet names home n (f a)) :
    Discreet names home n (act >>= f) := by
  refine ⟨h.1.bind fun a => (next a).1, fun m spares => (h.2 m spares).bind fun a m' done => ?_⟩
  have ended := h.1 m spares
  rw [done] at ended
  cases ended with
  | ok kept => exact (next a).2 m' kept

/-- What has nothing to do with environments ignores all variables. -/
theorem discreet_aside {act : Eval α} (keeps : (sparing names home).Keeps n act) (h : Aside act) :
    Discreet names home n act :=
  ⟨keeps, fun _ _ => .aside h⟩

/-- What touches no variables keeps the conditions. -/
theorem sparing_plain {act : Eval α} (h : ∀ m, Plain m act) : (sparing names home).Keeps n act :=
  .of_plain (fun spares same => spares.untouched same) h

/-- An operation on values is discreet. -/
theorem discreet_operation {act : Eval α} (h : Operation act) :
    Discreet names home n act :=
  discreet_aside (sparing_plain h.plain) h.aside

/-- Giving a value is discreet. -/
theorem discreet_pure (a : α) : Discreet names home n (pure a : Eval α) :=
  discreet_operation (.attempt (.ok a))

/-- A fault is discreet. -/
theorem discreet_attempt (r : Except Fault α) : Discreet names home n (attempt r) :=
  discreet_operation (.attempt r)

/-- Making a function of code that avoids the names is discreet. -/
theorem discreet_makeFunction {body : Tree} (inside : env < n) (avoids : body.Avoids names)
    (id params : Tree) : Discreet names home n (makeFunction env id params body) := by
  refine discreet_aside ?_ (aside_makeFunction env id params body)
  have made (strict : Bool) : (sparing names home).Keeps n
      (Value.function <$> changeGet fun s => s.newClosure ⟨id, params, body, env, strict⟩) :=
    .map _ (.changeGet fun m spares => spares.newClosure inside avoids)
  refine (Regime.keeps_attempt _).bind fun statements => .get fun m _ => ?_
  split
  · exact made true
  · exact Always.bind (Regime.keeps_attempt _) made

/-- Names may be bound in other environments. -/
theorem discreet_declare (other : home ≠ env) (x : Text) (v : Value) :
    Discreet names home n (change fun s => s.declare env x v) :=
  ⟨.change fun _ spares => spares.declare env x v, fun _ spares => .change fun _ among =>
    Store.declare_setEach (binds_entries spares.bound among) (.inl other) v⟩

/-- Declaring a variable in another environment is discreet. -/
theorem discreet_declareVariable (other : home ≠ env) (name : Tree) :
    Discreet names home n (declareVariable env name) := by
  refine discreet_bind (discreet_attempt _) fun key =>
    ⟨.change fun m spares => ?_, fun m spares => .change fun entries among => ?_⟩
  · split
    · exact spares
    · exact spares.declare env key _
  · have bound := binds_entries spares.bound among
    simp only [Store.declares_setEach bound, Store.declare_setEach bound (.inl other)]
    split <;> rfl

/-- Discreet evaluations compose. -/
theorem congruent_discreet : Congruent fun {_} x _ => Discreet names home n x :=
  ⟨fun r => discreet_attempt r, fun h next => discreet_bind h next⟩

/-- The functions of a body mention what the body mentions. -/
theorem discreet_hoist {body : Tree} (other : home ≠ env) (inside : env < n)
    (avoids : body.Avoids names) : Discreet names home n (hoist env body) := by
  refine congruent_discreet.hoist (discreet_declare other) (discreet_declareVariable other)
    fun found hoists f hf l form id params inner parts => ?_
  have within := ((Tree.heritable_avoids names).hoisted avoids hoists hf).2
  subst parts
  exact discreet_makeFunction inside (within.part (List.mem_of_getElem? (i := 2) rfl)) id params

/-- What is done in a new environment. -/
theorem discreet_child {next : Nat → Eval α}
    (inside : ∀ m, Sparing names home n m → env < m.store.environments.size)
    (h : ∀ own, home < own → Discreet names home (own + 1) (next own)) :
    Discreet names home n (changeGet (fun s => s.child env) >>= next) := by
  have entered (m : Machine) (spares : Sparing names home n m) := spares.child (inside m spares)
  constructor
  · intro m spares
    have ended := (h m.store.environments.size spares.inside).1 _ (entered m spares)
    exact ended.weaken fun _ kept => kept.fewer (Nat.le_trans spares.enough (Nat.le_succ _))
  · intro m spares entries among
    have ignored := (h m.store.environments.size spares.inside).2 _ (entered m spares) entries among
    refine Eq.trans ?_ ignored
    change next ((m.store.setEach home entries).child env).1
      (Machine.mk ((m.store.setEach home entries).child env).2 m.depth m.strict) = _
    rw [Store.child_setEach spares.inside]
    rfl

/-- A call restores the calls under way and the mode, which variables have nothing to do with. -/
theorem discreet_inCall {strict : Bool} {x : Eval Unit} (h : Discreet names home n x) :
    Discreet names home n (inCall strict x) := by
  have entered {m : Machine} (spares : Sparing names home n m) :
      Sparing names home n ⟨m.store, m.depth + 1, strict⟩ := { spares with }
  constructor
  · exact Always.inCall (fun _ => entered) (fun _ _ _ kept => { kept with })
      (fun _ _ _ => trivial) h.1
  · rintro ⟨store, depth, outer⟩ spares entries among
    have inner := h.2 _ (entered spares) entries among
    unfold inCall
    simp only [Machine.setEach] at inner ⊢
    rw [inner]
    cases x ⟨store, depth + 1, strict⟩ with
    | ok => rfl
    | error e m' => cases e <;> rfl

/-- Setting a name other than those is discreet. -/
theorem discreet_writeName {name : Tree} (other : ∀ x ∈ names, name.key ≠ .ok x)
    (l : Option Location) (v : Value) : Discreet names home n (writeName env name l v) := by
  refine ⟨(Regime.keeps_keyOf name).bind fun key => ?_, fun m spares =>
    .writeName spares.bound other env l v⟩
  refine Always.bind (.changeGet fun m spares => ?_) fun bound => .ite (fun _ => .pure _) fun _ =>
    .get fun m _ => .ite (fun _ => Regime.keeps_fail _) fun _ => .change fun m spares =>
      spares.declare _ key v
  unfold Store.assign
  split
  · exact spares.declare _ key v
  · exact spares

/-- A function runs in an environment of its own. -/
theorem discreet_enterBy {r : Routines} (upheld : (discreet names home).Upheld r r)
    (spares : Sparing names home n m) {ref : Nat} {c : Closure}
    (found : m.store.closures[ref]? = some c) (args : List Value) :
    Discreet names home m.store.environments.size (r.enterBy id c args) := by
  -- The environment that is entered is new, and the body mentions none of the names.
  have made := spares.chained.closure found
  refine discreet_child (fun m' spares' => Nat.lt_of_lt_of_le made spares'.enough) fun own later => ?_
  have other := Nat.ne_of_lt later
  refine discreet_bind (discreet_attempt _) fun params => ?_
  refine discreet_bind (congruent_discreet.bindParameters (discreet_declare other) params args)
    fun _ => ?_
  cases body : c.body.field "body" with
  | error fault => exact discreet_attempt (.error fault)
  | ok statements =>
    have avoids := (spares.functions found).body body
    have hoisted : Discreet names home (own + 1) (hoist own statements) :=
      discreet_hoist other (Nat.lt_succ_self own) avoids
    change Discreet names home (own + 1) (hoist own statements >>= fun _ =>
      inCall c.strict (attempt statements.items >>= fun ts => ts.forM (r.execute own)))
    refine discreet_bind hoisted fun _ => discreet_inCall ?_
    cases row : statements.items with
    | error fault => exact discreet_attempt (.error fault)
    | ok ts =>
      exact congruent_discreet.forM (g := r.execute own) fun t ht => upheld.execute
        ⟨Nat.lt_succ_self own, (Tree.heritable_avoids names).item avoids row ht⟩

end Steps

/-- Code that avoids some names is discreet, whatever functions it calls. -/
theorem lawful_discreet (names : List Text) (home : Nat) : (discreet names home).Lawful where
  pure a := discreet_pure a
  throw e := discreet_aside (.throw trivial) (.throw e)
  bind := discreet_bind
  pass {_ labels _ _} h :=
    ⟨h.1.pass, fun m spares => (h.2 m spares).pass labels⟩
  labeled {_ labels _ _} h :=
    ⟨h.1.labeled, fun m spares => (h.2 m spares).labeled labels⟩
  operation := discreet_operation
  item runs row mem := ⟨runs.1, (Tree.heritable_avoids names).item runs.2 row mem⟩
  field _ runs inert found := ⟨runs.1, (Tree.heritable_avoids names).field runs.2 inert found⟩
  target runs mem := by
    obtain ⟨inert, name, found⟩ := Tree.field_of_mem_targets mem
    exact ⟨runs.1, (Tree.heritable_avoids names).field runs.2 inert found⟩
  declared {_ _ _ declarations _ _ _} runs first found := by
    obtain ⟨ts, row, mem⟩ := Tree.mem_of_item first
    have avoids : declarations.Avoids names := runs.2.part (List.mem_of_getElem? (i := 0) rfl)
    have id := ((Tree.heritable_avoids names).item avoids row mem).declared found
    exact ⟨⟨runs.1, id⟩, runs.1, id⟩
  readName {n env l name} runs := ⟨sparing_plain fun _ => plain_readName env name l,
    fun m spares => .readName spares.bound (runs.2.name rfl) env l⟩
  isUnbound {n env t} _ := ⟨sparing_plain fun _ => plain_isUnbound env t,
    fun m spares => .isUnbound spares.bound env t⟩
  writeName runs named l v := discreet_writeName (runs.2.name named) l v
  function {n env l id params body} runs := by
    have body : body.Avoids names := runs.2.part (List.mem_of_getElem? (i := 2) rfl)
    refine Discipline.Composes.ite (d := discreet names home)
      (discreet_makeFunction runs.1 body _ _) ?_
    refine discreet_child (fun m spares => Nat.lt_of_lt_of_le runs.1 spares.enough)
      fun own later => ?_
    refine discreet_bind (discreet_makeFunction (Nat.lt_succ_self own) body _ _) fun f => ?_
    exact discreet_bind (discreet_attempt _) fun name => discreet_bind (discreet_attempt _) fun key =>
      discreet_bind (discreet_declare (Nat.ne_of_lt later) key f) fun _ => discreet_pure f
  call {r} upheld n limit ref args := by
    have entered {m : Machine} {c : Closure} (spares : Sparing names home n m)
        (found : m.store.closures[ref]? = some c) :=
      discreet_enterBy upheld spares found args
    refine ⟨fun m spares => ?_, fun m spares entries among => ?_⟩
    · rw [callBy_function]
      split
      -- Once for what is kept, and once for what a change of the names leaves alone.
      · exact .error spares trivial
      · split
        · exact .error spares trivial
        · rename_i c found
          have ended := (entered spares found).1 m { spares with enough := Nat.le_refl _ }
          exact ended.weaken fun _ kept => kept.fewer spares.enough
    · have same : (m.setEach home entries).store.closures = m.store.closures :=
        (congrArg Store.closures (Store.setEach_eq (s := m.store) rfl home entries)).trans rfl
      rw [callBy_function, callBy_function, same]
      by_cases full : limit ≤ m.depth
      · rw [if_pos full, if_pos (show limit ≤ (m.setEach home entries).depth from full)]
        rfl
      · rw [if_neg full, if_neg (show ¬limit ≤ (m.setEach home entries).depth from full)]
        cases found : m.store.closures[ref]? with
        | none => rfl
        | some c =>
          exact (entered spares found).2 m { spares with enough := Nat.le_refl _ } entries among

namespace Sparing

variable {env : Nat} {t : Tree} (h : Sparing names home n m) (inside : env < n)
  (avoids : t.Avoids names) (limit fuel : Nat)

include h inside avoids

/-- So an evaluation of such code ignores the variables. -/
theorem ignores : Ignores names home (evaluate limit fuel env t) m :=
  (((lawful_discreet names home).upheld limit fuel).evaluate ⟨inside, avoids⟩).2 m h

/-- It also keeps the conditions, however it ends. -/
theorem evaluate : Ended (Sparing names home n) (fun _ => True) (evaluate limit fuel env t m) :=
  (((lawful_discreet names home).upheld limit fuel).evaluate ⟨inside, avoids⟩).1 m h

end Sparing

/-- Variables that no code mentions do not matter. Let an environment bind some names, and let neither
an expression nor any function that has been made mention one of them. Then the evaluation of the
expression, in whatever environment, ignores them. -/
theorem evaluate_ignores {names : List Text} {home env : Nat} {t : Tree} {m : Machine}
    (chained : m.store.Chained) (inside : env < m.store.environments.size)
    (home_inside : home < m.store.environments.size) (bound : m.store.Binds home names)
    (functions : ∀ (ref : Nat) (c : Closure), m.store.closures[ref]? = some c → c.body.Avoids names)
    (avoids : t.Avoids names) (limit fuel : Nat) :
    Ignores names home (evaluate limit fuel env t) m :=
  Sparing.ignores ⟨chained, Nat.le_refl _, home_inside, bound, functions _ _⟩ inside avoids limit fuel

end Eval

end TailLoop
