import TailLoop.Proofs.Simulation.Hoisting

/-!
# Activations

What a call does before the body of the function runs: it makes an environment, binds the parameters
to the arguments and declares the variables (`call_function`). The bindings of a new activation are
`fresh`. Two stores that are alike stay so when both enter a function, with a new frame for the two
environments, and when both leave it.
-/

namespace TailLoop.Simulation

open Eval Validity Elimination

/-! ## Bindings of a new activation -/

/-- Parameters bound to the arguments at their positions. -/
def bindAll : List Text → List Value → Bindings → Bindings
  | [], _, b => b
  | x :: xs, vs, b => bindAll xs vs.tail (putEntry x (vs.head?.getD .undefined) b)

/-- Variables declared, unless they are bound already. -/
def declareAll (names : List Text) (b : Bindings) : Bindings :=
  names.foldl (fun b x => if (b.lookup x).isSome then b else putEntry x .undefined b) b

/-- The bindings of a new activation. -/
def fresh (params : List Text) (args : List Value) (names : List Text) : Bindings :=
  declareAll names (bindAll params args [])

/-- A name is bound after a call if it is a parameter or was bound before. -/
theorem isSome_lookup_bindAll (x : Text) (xs : List Text) (vs : List Value) (b : Bindings) :
    ((bindAll xs vs b).lookup x).isSome = true ↔ x ∈ xs ∨ (b.lookup x).isSome = true := by
  induction xs generalizing vs b with
  | nil => simp [bindAll]
  | cons y xs ih =>
    rw [bindAll, ih, lookup_putEntry, List.mem_cons]
    by_cases h : x = y
    · simp [h]
    · simp [h]

/-- Parameters that are given data are bound to data. -/
theorem isData_bindAll {xs : List Text} {vs : List Value} {b : Bindings}
    (args : ∀ v ∈ vs, v.isData = true) (data : ∀ x v, b.lookup x = some v → v.isData = true) :
    ∀ x v, (bindAll xs vs b).lookup x = some v → v.isData = true := by
  induction xs generalizing vs b with
  | nil => exact data
  | cons y xs ih =>
    refine ih (fun v hv => args v (List.mem_of_mem_tail hv)) fun x v hx => ?_
    rw [lookup_putEntry] at hx
    split at hx
    · cases hx
      cases vs with
      | nil => rfl
      | cons u vs => exact args u List.mem_cons_self
    · exact data x v hx

/-- A variable that is bound keeps its value, and any other starts undefined. -/
theorem lookup_declareAll (x : Text) (names : List Text) (b : Bindings) :
    (declareAll names b).lookup x =
      if (b.lookup x).isSome then b.lookup x else if x ∈ names then some .undefined else none := by
  -- By induction on the names: a name that is bound keeps its value, and a new one is unset.
  induction names generalizing b with
  | nil =>
    cases h : b.lookup x <;> simp [declareAll, h]
  | cons y names ih =>
    have step : declareAll (y :: names) b =
        declareAll names (if (b.lookup y).isSome then b else putEntry y .undefined b) := rfl
    rw [step, ih]
    by_cases bound : (b.lookup y).isSome = true
    · rw [if_pos bound]
      by_cases h : x = y
      · rw [h, if_pos bound, if_pos bound]
      · simp [h]
    · rw [if_neg bound]
      by_cases h : x = y
      · simp [h, bound]
      · rw [lookup_putEntry_ne h]
        simp [h]

/-- A call starts with its parameters bound to the arguments, and its variables undefined. -/
theorem lookup_fresh (x : Text) (params : List Text) (args : List Value) (names : List Text) :
    (fresh params args names).lookup x =
      if x ∈ params then (bindAll params args []).lookup x
      else if x ∈ names then some .undefined else none := by
  have bound := isSome_lookup_bindAll x params args []
  rw [fresh, lookup_declareAll]
  by_cases h : x ∈ params
  · rw [if_pos (bound.mpr (.inl h)), if_pos h]
  · rw [if_neg fun some => (bound.mp some).elim h nofun, if_neg h]

/-- So it starts with data. -/
theorem isData_fresh {params : List Text} {args : List Value} (names : List Text)
    (data : ∀ v ∈ args, v.isData = true) :
    ∀ x v, (fresh params args names).lookup x = some v → v.isData = true := by
  intro x v hx
  rw [lookup_fresh] at hx
  split at hx
  · exact isData_bindAll data (by simp) x v hx
  · split at hx
    · cases hx
      rfl
    · cases hx

/-- It binds its parameters and its variables, and nothing else. -/
theorem isSome_lookup_fresh (x : Text) (params : List Text) (args : List Value)
    (names : List Text) :
    ((fresh params args names).lookup x).isSome = true ↔ x ∈ params ∨ x ∈ names := by
  have bound := isSome_lookup_bindAll x params args []
  rw [lookup_fresh]
  by_cases hp : x ∈ params
  · rw [if_pos hp, bound]
    simp [hp]
  · by_cases hn : x ∈ names <;> simp [hp, hn]

/-! ## Entering a function -/

/-- The store with an environment for a new activation. -/
def enter (s : Store) (b : Bindings) : Store :=
  { s with environments := s.environments.push ⟨some 0, b⟩ }

/-- The environment of a call is the last one, in the global one. -/
theorem environments_enter (s : Store) (b : Bindings) :
    (enter s b).environments[s.environments.size]? = some ⟨some 0, b⟩ :=
  Array.getElem?_push_size

/-- The environments that are there stay as they are. -/
theorem environments_enter_of_some {s : Store} {b : Bindings} {i : Nat} {e : Environment}
    (h : s.environments[i]? = some e) : (enter s b).environments[i]? = some e := by
  obtain ⟨hi, he⟩ := Array.getElem?_eq_some_iff.mp h
  rw [enter, Array.getElem?_push_lt hi, he]

/-- Declaring a name in the environment of a call changes its bindings. -/
theorem declare_enter (s : Store) (b : Bindings) (x : Text) (v : Value) :
    (enter s b).declare s.environments.size x v = enter s (putEntry x v b) := by
  have same : (s.environments.push ⟨some 0, b⟩).modify s.environments.size (·.bind x v) =
      s.environments.push ⟨some 0, putEntry x v b⟩ := by
    apply Array.ext_getElem?
    intro i
    rw [Array.getElem?_modify, Array.getElem?_push, Array.getElem?_push]
    split
    · rename_i h
      rw [if_pos h.symm, if_pos h.symm]
      rfl
    · rename_i h
      rw [if_neg (Ne.symm h), if_neg (Ne.symm h)]
  rw [Store.declare, enter, enter, same]

/-- A name is declared there if it is bound. -/
theorem declares_enter (s : Store) (b : Bindings) (x : Text) :
    (enter s b).declares s.environments.size x = (b.lookup x).isSome := by
  rw [Store.declares, environments_enter]
  rfl

/-- A parameter of the given name. -/
def IsParameter (p : Tree) (x : Text) : Prop := ∃ l, p = .node l (.identifier (.text x))

/-- Binding the parameters of a call makes entries for them. -/
theorem bindParameters_enter {ps : List Tree} {xs : List Text}
    (params : List.Forall₂ IsParameter ps xs)
    (s : Store) (depth : Nat) (strict : Bool) (args : List Value) (b : Bindings) :
    bindParameters s.environments.size ps args ⟨enter s b, depth, strict⟩ =
      .ok () ⟨enter s (bindAll xs args b), depth, strict⟩ := by
  induction params generalizing args b with
  | nil => rfl
  | cons param _ ih =>
    obtain ⟨l, rfl⟩ := param
    rw [bindParameters, bindAll, ← ih, ← declare_enter]
    rfl

/-- Declaring the variables of a call makes entries for those that have none. -/
theorem declareVariables_enter (names : List Text) (s : Store) (depth : Nat) (strict : Bool)
    (b : Bindings) :
    (names.map Tree.text).forM (declareVariable s.environments.size) ⟨enter s b, depth, strict⟩ =
      .ok () ⟨enter s (declareAll names b), depth, strict⟩ := by
  -- By induction on the names, each of which is declared in the environment that was entered.
  induction names generalizing b with
  | nil => rfl
  | cons x names ih =>
    have first : declareVariable s.environments.size (.text x) ⟨enter s b, depth, strict⟩ =
        .ok () ⟨enter s (if (b.lookup x).isSome then b else putEntry x .undefined b), depth,
          strict⟩ := by
      change EStateM.Result.ok () (Machine.mk (if (enter s b).declares s.environments.size x
        then enter s b
        else (enter s b).declare s.environments.size x .undefined) depth strict) = _
      rw [declares_enter, declare_enter]
      split <;> rfl
    simp only [List.map_cons, List.forM]
    rw [bind_of_ok first]
    exact ih _

/-- Declaring what a body without functions declares. -/
theorem hoist_enter {body : Tree} (declares : body.All Tree.Declares) (s : Store) (depth : Nat)
    (strict : Bool) (b : Bindings) :
    hoist s.environments.size body ⟨enter s b, depth, strict⟩ =
      .ok () ⟨enter s (declareAll body.varNames b), depth, strict⟩ := by
  rw [hoist, Tree.hoisted_eq declares]
  change ((body.varNames.map Tree.text).forM (declareVariable _) >>= fun _ => _) _ = _
  rw [bind_of_ok (declareVariables_enter ..)]
  rfl

/-- A function whose parameters and body are as the language has them, and that contains no other. -/
structure Closure.Flat (c : Closure) (params : List Text) (ss : List Tree) : Prop where
  params : ∃ ps, c.params = .tuple ps ∧ List.Forall₂ IsParameter ps params
  body : ∃ l, c.body = .node l (.block (.tuple ss))
  environment : c.environment = 0
  declares : (Tree.tuple ss).All Tree.Declares

/-- Calling a function that is called not too deeply. -/
theorem call_function {limit ref : Nat} {c : Closure} {xs : List Text} {ss : List Tree} {m : Machine}
    (found : m.store.closures[ref]? = some c) (flat : Closure.Flat c xs ss)
    (shallow : m.depth < limit) (fuel : Nat) (args : List Value) :
    call limit (fuel + 1) (.function ref) args m =
      inCall c.strict (ss.forM (execute limit fuel m.store.environments.size))
        { m with store := enter m.store (fresh xs args (Tree.tuple ss).varNames) } := by
  -- The parts of the closure are what a flat function has: names of parameters and a row of
  -- statements.
  obtain ⟨ps, hps, params⟩ := flat.params
  obtain ⟨l, hbody⟩ := flat.body
  have entered : Eval.changeGet (fun s => s.child c.environment) m =
      .ok m.store.environments.size { m with store := enter m.store [] } := by
    rw [flat.environment]
    rfl
  have items : Eval.attempt c.params.items = pure ps := by rw [hps]; rfl
  have body : Eval.attempt (c.body.field "body") = pure (.tuple ss) := by rw [hbody]; rfl
  have row : Eval.attempt (Tree.tuple ss).items = pure ss := rfl
  simp only [call, get_bind, found, if_neg (Nat.not_le.mpr shallow)]
  rw [bind_of_ok entered]
  simp only [items, body, row, pure_bind]
  rw [bind_of_ok (bindParameters_enter params ..), bind_of_ok (hoist_enter flat.declares ..)]
  rfl

/-- A call that is too deep is refused before anything is looked at. -/
theorem call_tooDeep {limit ref : Nat} {m : Machine} (deep : limit ≤ m.depth) (fuel : Nat)
    (args : List Value) :
    call limit (fuel + 1) (.function ref) args m = .error (.failed .stackOverflow) m := by
  simp only [call, get_bind, if_pos deep]
  rfl

/-! ## Frames of activations -/

section Frames

variable {w : World} {frames : List Frame} {f : Frame} {s s' : Store}

/-- Stores that are alike have an environment at least. -/
theorem Alike.size_pos (h : Alike w frames s s') :
    0 < s.environments.size ∧ 0 < s'.environments.size := by
  obtain ⟨g, here, there, -⟩ := h.globals
  exact ⟨(Array.getElem?_eq_some_iff.mp here).1, (Array.getElem?_eq_some_iff.mp there).1⟩

/-- Both stores enter a function. -/
theorem Alike.enter {b b' : Bindings} (h : Alike w frames s s')
    (source : f.source = s.environments.size) (target : f.target = s'.environments.size)
    (binds : f.Binds w b b') :
    Alike w (f :: frames) (Simulation.enter s b) (Simulation.enter s' b') where
  heap := ⟨h.heap.arrays, h.heap.objects, h.heap.natives, h.heap.foreigns, h.heap.constants,
    h.heap.dataItems, h.heap.dataProperties⟩
  source := h.source
  target := h.target
  globals := by
    obtain ⟨g, here, there, alike⟩ := h.globals
    exact ⟨g, environments_enter_of_some here, environments_enter_of_some there, alike⟩
  related := by
    -- The new frame is the innermost one; the others find their environments where they were.
    refine List.forall_mem_cons.mpr ⟨?_, fun g hg => ?_⟩
    · have sizes := h.size_pos
      refine ⟨source ▸ sizes.1, target ▸ sizes.2, b, b', ?_, ?_, binds⟩
      · rw [source, environments_enter]
      · rw [target, environments_enter]
    · obtain ⟨hs, ht, c, c', here, there, binds⟩ := h.related g hg
      exact ⟨hs, ht, c, c', environments_enter_of_some here, environments_enter_of_some there,
        binds⟩
  apart := by
    refine List.pairwise_cons.mpr ⟨fun g hg => ?_, h.apart⟩
    obtain ⟨-, -, c, c', here, there, -⟩ := h.related g hg
    have hs := (Array.getElem?_eq_some_iff.mp here).1
    have ht := (Array.getElem?_eq_some_iff.mp there).1
    exact ⟨by omega, by omega⟩

/-- Both stores leave a function. -/
theorem Alike.leave (h : Alike w (f :: frames) s s') : Alike w frames s s' where
  heap := h.heap
  source := h.source
  target := h.target
  globals := h.globals
  related g hg := h.related g (List.mem_cons_of_mem f hg)
  apart := (List.pairwise_cons.mp h.apart).2

end Frames

/-! ## Statements that do nothing -/

section Idle

variable {limit env : Nat} {m : Machine}

/-- Statements that do nothing do nothing one after the other. -/
theorem forM_idle {ts : List Tree} {k : Nat} (h : ∀ t ∈ ts, execute limit k env t m = .ok () m) :
    ts.forM (execute limit k env) m = .ok () m := by
  induction ts with
  | nil => rfl
  | cons t ts ih =>
    rw [List.forall_mem_cons] at h
    simp only [List.forM]
    rw [bind_of_ok h.1, ih h.2]

/-- A directive does nothing. -/
theorem execute_directive {t : Tree} (h : t.isStrictDirective = true) (k : Nat) :
    execute limit (k + 2) env t m = .ok () m := by
  obtain ⟨l, le, rfl⟩ := eq_strictDirective h
  rw [execute, evaluate]
  rfl

/-- Declaring variables without initial values does nothing: they are declared on entry. -/
theorem execute_declaration (names : List Text) (k : Nat) :
    execute limit (k + 2) env (Tree.declaration (names.map (Tree.declarator · .null))) m =
      .ok () m := by
  have each : ∀ ds : List Text,
      (ds.map (Tree.declarator · .null)).forM (startVariable limit (k + 1) env) m = .ok () m := by
    intro ds
    induction ds with
    | nil => rfl
    | cons x ds ih =>
      have first : startVariable limit (k + 1) env (Tree.declarator x .null) m = .ok () m := by
        rw [startVariable]
        rfl
      simp only [List.map_cons, List.forM]
      rw [bind_of_ok first, ih]
  rw [Tree.declaration, Tree.new, execute]
  exact each names

/-- A declaration of several names does nothing when it is executed. -/
theorem execute_declareAll (names : List Text) (k : Nat) :
    ∀ t ∈ Tree.declareAll names, execute limit (k + 2) env t m = .ok () m := by
  intro t ht
  unfold Tree.declareAll at ht
  split at ht
  · cases ht
  · rw [List.mem_singleton.mp ht]
    exact execute_declaration names k

/-- Neither do declarations of one name each. -/
theorem execute_declareEach (names : List Text) (k : Nat) :
    ∀ t ∈ Tree.declareEach names [], execute limit (k + 2) env t m = .ok () m := by
  intro t ht
  obtain ⟨i, hi, rfl⟩ := List.mem_mapIdx.mp ht
  exact execute_declaration [names[i]] k

end Idle

/-! ## Resets of fresh variables -/

section Resets

variable {limit env : Nat} {m : Machine} {locals : List Text}

/-- Setting an undefined variable to the undefined value does nothing. -/
theorem evaluate_reset (unset : Unset env locals m) {e : Tree} (h : e.isReset locals = .ok true)
    (k : Nat) : evaluate limit (k + 2) env e m = .ok .undefined m := by
  unfold Tree.isReset at h
  -- A reset that counts is an assignment of the undefined value to a local.
  split at h
  · rename_i l operator li name value
    split at h
    · rename_i plain
      rw [Bool.and_eq_true] at plain
      obtain rfl := eq_text_of_same plain.1
      obtain ⟨lv, rfl⟩ := eq_identifier_of_same plain.2
      cases key : name.key with
      | error fault => rw [key] at h; cases h
      | ok x =>
        rw [key] at h
        have known : x ∈ locals := by
          simpa [Except.map] using h
        exact evaluate_unset unset known key k
    · cases h
  · cases h

/-- Resets of variables that are unset leave the machine as it is. -/
theorem foldlM_resets (limit : Nat) (unset : Unset env locals m) {es : List Tree}
    (h : Tree.areResets locals es = .ok true) (k : Nat) (v : Value) :
    ∃ u, es.foldlM (fun _ e => evaluate limit (k + 2) env e) v m = .ok u m := by
  induction es generalizing v with
  | nil => exact ⟨v, rfl⟩
  | cons e es ih =>
    rw [Tree.areResets] at h
    obtain ⟨isReset, first, rest⟩ := bind_ok.mp h
    cases isReset with
    | false => cases rest
    | true =>
      obtain ⟨u, hu⟩ := ih rest .undefined
      refine ⟨u, ?_⟩
      rw [List.foldlM_cons, bind_of_ok (evaluate_reset unset first k), hu]

/-- So does a statement of such resets. -/
theorem execute_reset (unset : Unset env locals m) {t : Tree}
    (h : t.isResetStatement locals = .ok true) (k : Nat) :
    execute limit (k + 4) env t m = .ok () m := by
  unfold Tree.isResetStatement at h
  split at h
  · rename_i l ls parts
    obtain ⟨es, items, resets⟩ := bind_ok.mp h
    obtain ⟨u, hu⟩ := foldlM_resets limit unset resets k .undefined
    have row : Eval.attempt parts.items = pure es := by rw [items]; rfl
    have value : evaluate limit (k + 3) env (.node ls (.sequence parts)) m = .ok u m := by
      rw [evaluate, row, pure_bind]
      exact hu
    rw [execute_expression, bind_of_ok value]
    rfl
  · rw [execute_expression, bind_of_ok (evaluate_reset unset h (k + 1))]
    rfl
  · cases h

/-- Statements run as they do without the resets at their start. -/
theorem forM_dropResets (unset : Unset env locals m) {ts rest : List Tree}
    (h : dropResets locals ts = .ok rest) (k : Nat) :
    ts.forM (execute limit (k + 4) env) m = rest.forM (execute limit (k + 4) env) m := by
  -- By induction on the statements up to the first that is no reset.
  induction ts with
  | nil =>
    cases h
    rfl
  | cons t ts ih =>
    rw [dropResets] at h
    obtain ⟨isReset, first, more⟩ := bind_ok.mp h
    cases isReset with
    | false =>
      cases more
      rfl
    | true =>
      simp only [List.forM]
      rw [bind_of_ok (execute_reset unset first k)]
      exact ih more

end Resets

end TailLoop.Simulation
