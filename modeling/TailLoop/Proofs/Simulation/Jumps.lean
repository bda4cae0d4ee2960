import TailLoop.Proofs.Simulation.Bodies

/-!
# Tail calls and jumps

A tail call that was converted sets the parameters to the values of the arguments and jumps back to
the start of the body. The program evaluates all arguments, in a frame that nothing changes until the
call is made; the rewritten program evaluates those that change a parameter, and sets temporaries or
parameters in between. Where it ends, the parameters have the values of the arguments (`Ready`).
-/

namespace TailLoop.Simulation

open Eval Validity Elimination

/-! ## Several bindings at once -/

/-- Bindings with several names set, one after the other. -/
def putAll (entries : Bindings) (b : Bindings) : Bindings :=
  entries.foldl (fun b e => putEntry e.1 e.2 b) b

/-- A name without a new entry keeps its value. -/
theorem lookup_putAll_of_notMem {x : Text} {entries : Bindings} (h : x ∉ entries.map (·.1))
    (b : Bindings) : (putAll entries b).lookup x = b.lookup x := by
  induction entries generalizing b with
  | nil => rfl
  | cons e entries ih =>
    rw [List.map_cons, List.mem_cons, not_or] at h
    change (putAll entries (putEntry e.1 e.2 b)).lookup x = _
    rw [ih h.2, lookup_putEntry_ne h.1]

/-- A name has the value of its only new entry. -/
theorem lookup_putAll_of_mem {e : Text × Value} {entries : Bindings}
    (distinct : (entries.map (·.1)).Nodup) (h : e ∈ entries) (b : Bindings) :
    (putAll entries b).lookup e.1 = some e.2 := by
  induction entries generalizing b with
  | nil => cases h
  | cons d entries ih =>
    rw [List.map_cons, List.nodup_cons] at distinct
    change (putAll entries (putEntry d.1 d.2 b)).lookup e.1 = _
    rcases List.mem_cons.mp h with rfl | h
    · rw [lookup_putAll_of_notMem distinct.1, lookup_putEntry_self]
    · exact ih distinct.2 h _

/-- A name is bound if it has a new entry or was bound before. -/
theorem isSome_lookup_putAll (x : Text) (entries b : Bindings) :
    ((putAll entries b).lookup x).isSome = true ↔
      x ∈ entries.map (·.1) ∨ (b.lookup x).isSome = true := by
  induction entries generalizing b with
  | nil => simp [putAll]
  | cons e entries ih =>
    change ((putAll entries (putEntry e.1 e.2 b)).lookup x).isSome = true ↔ _
    rw [ih, lookup_putEntry, List.map_cons, List.mem_cons]
    by_cases h : x = e.1
    · simp [h]
    · simp [h]

/-! ## Arguments by parameter -/

/-- The value for each parameter, where missing ones are undefined. -/
def padded {α : Type} (missing : α) : List Text → List α → List (Text × α)
  | [], _ => []
  | x :: xs, as => (x, as.head?.getD missing) :: padded missing xs as.tail

/-- The names of a padded row are all of them. -/
theorem map_fst_padded {α : Type} (missing : α) (xs : List Text) (as : List α) :
    (padded missing xs as).map (·.1) = xs := by
  induction xs generalizing as with
  | nil => rfl
  | cons x xs ih => rw [padded, List.map_cons, ih]

/-- Binding parameters is setting each to its argument. -/
theorem bindAll_eq (xs : List Text) (vs : List Value) (b : Bindings) :
    bindAll xs vs b = putAll (padded .undefined xs vs) b := by
  induction xs generalizing vs b with
  | nil => rfl
  | cons x xs ih =>
    rw [bindAll, ih]
    rfl

/-- Whether an argument changes its parameter. -/
def isChange (p : Text × Tree) : Bool := !isIdentifier p.1 p.2

/-- The arguments that change their parameters, with the parameters. -/
def changed (xs : List Text) (es : List Tree) : List (Text × Tree) :=
  (padded .undefined xs es).filter isChange

/-- Each name with its argument, or with `undefined` if there is none, makes up a padded row. -/
theorem mapIdx_eq_padded (xs : List Text) (es : List Tree) :
    xs.mapIdx (fun i x => (x, es[i]?.getD .undefined)) = padded .undefined xs es := by
  induction xs generalizing es with
  | nil => rfl
  | cons x xs ih =>
    rw [List.mapIdx_cons, padded, ← ih]
    cases es <;> simp

/-- The changes of a call are the names whose arguments change them. -/
theorem map_changes (xs : List Text) (es : List Tree) :
    (changes xs es).map (fun c => (c.param, c.value)) = changed xs es := by
  have all : padded .undefined xs es =
      (xs.mapIdx fun i x => (⟨i, x, es[i]?.getD .undefined⟩ : Change)).map
        fun c => (c.param, c.value) := by
    rw [← mapIdx_eq_padded]
    apply List.ext_getElem <;> simp
  rw [changed, all, List.filter_map]
  rfl

/-! ## Generated assignments -/

/-- The statements that set names to the values of expressions. -/
def assigning (entries : List (Text × Tree)) : List Tree :=
  entries.map fun e => Tree.new (.expressionStatement (Tree.assign e.1 e.2))

/-- A value that is there is the one at its position. -/
theorem valueAt_of_getElem? {es : List Tree} {i : Nat} {e : Tree} (found : es[i]? = some e)
    (present : e.isNull = false) : Tree.valueAt es i = e := by
  rw [Tree.valueAt, found]
  cases e <;> first | rfl | cases present

/-- Assignments to several names are written one by one. -/
theorem assignAll_eq {α : Type} {rows : List α} {name : α → Text} {value : α → Tree}
    (present : ∀ r ∈ rows, (value r).isNull = false) :
    Tree.assignAll (rows.map name) (rows.map value) =
      assigning (rows.map fun r => (name r, value r)) := by
  apply List.ext_getElem
  · simp [Tree.assignAll, assigning]
  · intro i h _
    have hi : i < rows.length := by simpa [Tree.assignAll] using h
    have found : Tree.valueAt (rows.map value) i = value rows[i] :=
      valueAt_of_getElem? (by simp [hi]) (present _ (List.getElem_mem hi))
    simp [Tree.assignAll, assigning, found]

/-- Without values, all names are assigned `undefined`. -/
theorem assignAll_nil (names : List Text) :
    Tree.assignAll names [] = assigning (names.map (·, Tree.undefined)) := by
  apply List.ext_getElem
  · simp [Tree.assignAll, assigning]
  · intro i _ _
    simp [Tree.assignAll, assigning, Tree.valueAt]

/-- The changes with the last one first. -/
def turned {α : Type} (entries : List α) : List α := entries.getLast?.toList ++ entries.dropLast

/-- To turn a row around is to turn what is made of it. -/
theorem map_turned {α β : Type} (g : α → β) (entries : List α) :
    (turned entries).map g = turned (entries.map g) := by
  cases h : entries.getLast? <;> simp [turned, h]

/-- A turned row has the same items. -/
theorem mem_turned {α : Type} {a : α} {entries : List α} : a ∈ turned entries ↔ a ∈ entries := by
  rcases List.eq_nil_or_concat entries with rfl | ⟨as, b, rfl⟩
  · rfl
  · simp [turned, or_comm]

/-- The temporary for a parameter. -/
def World.temporary (w : World) (x : Text) : Text := w.naming.temporary ++ x

/-- New values of parameters, to be put into their temporaries. -/
def World.staging (w : World) (entries : List (Text × Tree)) : List (Text × Tree) :=
  entries.map fun e => (w.temporary e.1, e.2)

/-- The temporaries of parameters, to be put into them. -/
def World.unstaging (w : World) (entries : List (Text × Tree)) : List (Text × Tree) :=
  entries.map fun e => (e.1, Tree.identifier (w.temporary e.1))

/-- The temporaries of a call are those of the names that it changes. -/
theorem temporariesOf_eq {w : World} {s : Scope}
    (temporaries : s.temporaries = s.params.map w.temporary)
    (args : List Tree) : temporariesOf s (changes s.params args) =
      (changed s.params args).map fun e => w.temporary e.1 := by
  rw [← map_changes, List.map_map]
  refine List.map_congr_left fun c hc => ?_
  rw [temporaries, List.getElem?_map, (mem_changes hc).1]
  rfl

/-- The assignments that take the place of a tail call. -/
theorem callAssignments_eq {w : World} {s : Scope} {args : List Tree}
    (temporaries : s.temporaries = s.params.map w.temporary)
    (present : ∀ e ∈ args, e.isNull = false) :
    callAssignments s args =
      if needsTemporaries (changes s.params args) then
        assigning (w.staging (changed s.params args)) ++
          assigning (w.unstaging (changed s.params args))
      else assigning (turned (changed s.params args)) := by
  -- A missing argument becomes the undefined value, which is a tree as well.
  have values : ∀ e ∈ changed s.params args, e.2.isNull = false := by
    intro e he
    rw [← map_changes] at he
    obtain ⟨c, hc, rfl⟩ := List.mem_map.mp he
    simp only
    rw [(mem_changes hc).2]
    cases found : args[c.index]? with
    | none => rfl
    | some v => exact present v (List.mem_of_getElem? found)
  have names := temporariesOf_eq temporaries args
  have params : (changes s.params args).map (·.param) = (changed s.params args).map (·.1) := by
    rw [← map_changes, List.map_map]
    rfl
  have terms : (changes s.params args).map (·.value) = (changed s.params args).map (·.2) := by
    rw [← map_changes, List.map_map]
    rfl
  unfold callAssignments
  -- The two ways of assigning, as rows of names and trees.
  split
  · rename_i needs
    rw [stagedAssignments, callTemporaries, if_pos needs, names, params, terms]
    congr 1
    · exact assignAll_eq values
    · rw [List.map_map]
      exact assignAll_eq fun _ _ => rfl
  · have order : (lastFirst (changes s.params args)).map (fun c => (c.param, c.value)) =
        turned (changed s.params args) := by
      rw [← map_changes]
      exact map_turned _ _
    rw [directAssignments, assignAll_eq, order]
    intro c hc
    refine values (c.param, c.value) (mem_turned.mp ?_)
    rw [← order]
    exact List.mem_map_of_mem hc

/-- Setting names to the values of expressions, one after the other. -/
def assignEach (limit fuel env : Nat) (entries : List (Text × Tree)) : Eval Unit :=
  entries.forM fun e => do
    let v ← evaluate limit fuel env e.2
    writeName env (.text e.1) none v

/-- Statements that assign run like the assignments that they are. -/
theorem forM_assigning (limit env : Nat) (entries : List (Text × Tree)) (k : Nat) :
    (assigning entries).forM (execute limit (k + 3) env) = assignEach limit (k + 1) env entries := by
  induction entries with
  | nil => rfl
  | cons e entries ih =>
    have first : execute limit (k + 3) env (Tree.new (.expressionStatement (Tree.assign e.1 e.2))) =
        (do
          let v ← evaluate limit (k + 1) env e.2
          writeName env (.text e.1) none v) := by
      rw [Tree.new, execute_expression, Tree.assign, Tree.new, Tree.identifier, Tree.new,
        evaluate_assignment]
      simp
    change (execute limit (k + 3) env _ >>= fun _ => (assigning entries).forM _) = _
    rw [first, ih]
    rfl

/-! ## Expressions whose value is known -/

/-- The value of a name or a literal in an activation, as far as the bindings of the activation
tell. -/
def valueIn (b : Bindings) : Tree → Option Value
  | .node _ (.identifier (.text x)) =>
    (b.lookup x).or (if x = Tree.undefinedName then some .undefined else none)
  | .node _ (.literal value) => Value.ofTree? value
  | _ => none

/-- An activation with the given bindings in a store in which the undefined value has its name. -/
def Runs (env : Nat) (b : Bindings) (s : Store) : Prop :=
  0 < env ∧ s.environments[env]? = some ⟨some 0, b⟩ ∧
    ∃ g, s.environments[0]? = some ⟨none, g⟩ ∧ g.lookup Tree.undefinedName = some .undefined

/-- An argument whose value is known is evaluated to it, with one fuel. -/
theorem evaluate_of_valueIn (limit : Nat) {env : Nat} {b : Bindings} {m : Machine}
    {e : Tree} {v : Value}
    (runs : Runs env b m.store) (value : valueIn b e = some v) (k : Nat) :
    evaluate limit (k + 1) env e m = .ok v m := by
  obtain ⟨positive, here, g, global, undefined⟩ := runs
  unfold valueIn at value
  -- A name that the activation does not bind can only be the undefined value.
  split at value
  · rename_i l x
    rw [evaluate]
    refine readName_of_lookup? l ?_
    rw [lookup?_activation x positive here global]
    cases found : b.lookup x with
    | some u => rw [found] at value; exact value
    | none =>
      rw [found, Option.none_or] at value
      split at value
      · rename_i h
        rw [Option.none_or, h, undefined, value]
      · cases value
  · rename_i l literal
    simp only [evaluate, literalOf, value]
    rfl
  · cases value

/-- The stores are alike, and the rewritten program has one more activation with the given
bindings. -/
structure Beside (w : World) (frames : List Frame) (env : Nat) (b : Bindings) (s s' : Store) :
    Prop where
  alike : Alike w frames s s'
  positive : 0 < env
  here : s'.environments[env]? = some ⟨some 0, b⟩
  apart : ∀ f ∈ frames, f.target ≠ env

section Beside

variable {w : World} {frames : List Frame} {env : Nat} {b : Bindings} {s s' : Store}

/-- The second of two stores that are beside each other runs with the bindings of the environment. -/
theorem Beside.runs (h : Beside w frames env b s s') : Runs env b s' := by
  obtain ⟨g, -, there, globals⟩ := h.alike.globals
  exact ⟨h.positive, h.here, g, there, globals.undefined⟩

/-- Setting a variable of the activation. -/
theorem Beside.set (h : Beside w frames env b s s') (x : Text) (v : Value) :
    Beside w frames env (putEntry x v b) s (s'.declare env x v) where
  alike :=
    { heap := h.alike.heap.declare_right ..
      source := h.alike.source
      target := h.alike.target
      globals := by
        have := h.positive
        rw [environments_declare, if_neg (by omega)]
        exact h.alike.globals
      related := fun f hf => (h.alike.related f hf).declare_right (h.apart f hf).symm
      apart := h.alike.apart }
  positive := h.positive
  here := by
    rw [environments_declare, if_pos rfl, h.here]
    rfl
  apart := h.apart

/-- A name that the activation binds is set there. -/
theorem Beside.resolve? (h : Beside w frames env b s s') {x : Text}
    (bound : (b.lookup x).isSome = true) : s'.resolve? env x = some env := by
  obtain ⟨positive, here, g, global, -⟩ := h.runs
  rw [resolve?_activation x positive here global, if_pos bound]

/-- Setting variables to expressions whose values are known, whatever the other ones are set to. -/
theorem assignEach_known (limit : Nat) (entries : List (Text × Tree × Value))
    {m : Machine} (beside : Beside w frames env b s m.store)
    (bound : ∀ e ∈ entries, (b.lookup e.1).isSome = true)
    (values : ∀ e ∈ entries, ∀ d : Bindings,
      (∀ x, x ∉ entries.map (·.1) → d.lookup x = b.lookup x) → valueIn d e.2.1 = some e.2.2) :
    ∃ s1, (∀ k, assignEach limit (k + 1) env (entries.map fun e => (e.1, e.2.1)) m =
        .ok () { m with store := s1 }) ∧
      Beside w frames env (putAll (entries.map fun e => (e.1, e.2.2)) b) s s1 := by
  -- By induction on the assignments: each value is known whatever the assignments before it have
  -- set, so that the rest starts from one more binding.
  induction entries generalizing b m with
  | nil => exact ⟨m.store, fun _ => rfl, beside⟩
  | cons e entries ih =>
    rw [List.forall_mem_cons] at bound values
    have value := evaluate_of_valueIn limit beside.runs (values.1 b fun _ _ => rfl)
    have written := writeName_of_resolve? (m := m) none e.2.2 (keyed e.1)
      (beside.resolve? bound.1)
    have set := beside.set e.1 e.2.2
    obtain ⟨s1, rest, after⟩ := ih (m := { m with store := m.store.declare env e.1 e.2.2 }) set
      (fun d hd => by
        rw [lookup_putEntry]
        split
        · rfl
        · exact bound.2 d hd)
      (fun d hd γ same => by
        refine values.2 d hd γ fun x hx => ?_
        rw [List.map_cons, List.mem_cons, not_or] at hx
        rw [same x hx.2, lookup_putEntry_ne hx.1])
    refine ⟨s1, fun k => ?_, after⟩
    have first : (do
        let v ← evaluate limit (k + 1) env e.2.1
        writeName env (.text e.1) none v) m =
          .ok () { m with store := m.store.declare env e.1 e.2.2 } :=
      (bind_of_ok (value k)).trans written
    exact (bind_of_ok first).trans (rest k)

end Beside

/-! ## Frames that are held -/

/-- The frame with its bindings held. -/
def Frame.hold (f : Frame) (b b' : Bindings) : Frame := { f with held := some (b, b') }

section Held

variable {w : World} {frames : List Frame} {f : Frame} {b b' : Bindings} {s s' : Store}

/-- Bindings that are held fit the frame that holds them. -/
theorem Frame.Binds.hold (h : f.Binds w b b') : (f.hold b b').Binds w b b' :=
  ⟨h.same, h.data, h.bound, h.spared, by simp [Frame.hold], h.fresh⟩

/-- When they are released, they fit the frame itself. -/
theorem Frame.Binds.release (h : (f.hold b b').Binds w b b') (free : f.held = none) :
    f.Binds w b b' :=
  ⟨h.same, h.data, h.bound, h.spared, by simp [free], h.fresh⟩

/-- A frame can be held with the bindings that it has. -/
theorem Alike.hold (h : Alike w (f :: frames) s s') :
    ∃ b b', Alike w (f.hold b b' :: frames) s s' := by
  obtain ⟨hs, ht, b, b', here, there, binds⟩ := h.related f List.mem_cons_self
  refine ⟨b, b', { h with related := ?_, apart := ?_ }⟩
  · refine List.forall_mem_cons.mpr ⟨⟨hs, ht, b, b', here, there, binds.hold⟩, fun g hg => ?_⟩
    exact h.related g (List.mem_cons_of_mem f hg)
  · obtain ⟨first, rest⟩ := List.pairwise_cons.mp h.apart
    exact List.pairwise_cons.mpr ⟨first, rest⟩

/-- The bindings of a frame that is held. -/
theorem Alike.kept (h : Alike w (f.hold b b' :: frames) s s') :
    s.environments[f.source]? = some ⟨some 0, b⟩ ∧
      s'.environments[f.target]? = some ⟨some 0, b'⟩ ∧ (f.hold b b').Binds w b b' := by
  obtain ⟨-, -, d, d', here, there, binds⟩ := h.related _ List.mem_cons_self
  have same : (b, b') = (d, d') := binds.kept (b, b') rfl
  cases same
  exact ⟨here, there, binds⟩

/-- Stores stay alike when the bindings of the innermost frame are released. -/
theorem Alike.release (h : Alike w (f.hold b b' :: frames) s s') (free : f.held = none) :
    Alike w (f :: frames) s s' := by
  obtain ⟨hs, ht, -⟩ := h.related _ List.mem_cons_self
  obtain ⟨here, there, binds⟩ := h.kept
  refine { h with related := ?_, apart := ?_ }
  · refine List.forall_mem_cons.mpr ⟨⟨hs, ht, b, b', here, there, binds.release free⟩, fun g hg => ?_⟩
    exact h.related g (List.mem_cons_of_mem _ hg)
  · obtain ⟨first, rest⟩ := List.pairwise_cons.mp h.apart
    exact List.pairwise_cons.mpr ⟨first, rest⟩

/-- The activation of the program in a frame that is held. -/
theorem Alike.runs (h : Alike w (f.hold b b' :: frames) s s') : Runs f.source b s := by
  obtain ⟨g, here, -, globals⟩ := h.globals
  exact ⟨(h.related _ List.mem_cons_self).1, h.kept.1, g, here, globals.undefined⟩

/-- The activation of the rewritten program in a frame that is held. -/
theorem Alike.beside (h : Alike w (f.hold b b' :: frames) s s') :
    Beside w frames f.target b' s s' where
  alike := h.leave
  positive := (h.related _ List.mem_cons_self).2.1
  here := h.kept.2.1
  apart g hg := ((List.pairwise_cons.mp h.apart).1 g hg).2.symm

/-- Setting a name of generated code, which the program does not see. -/
theorem Alike.stage (h : Alike w (f.hold b b' :: frames) s s') {x : Text} (hidden : w.hides x = true)
    (v : Value) : Alike w (f.hold b (putEntry x v b') :: frames) s (s'.declare f.target x v) := by
  obtain ⟨hs, ht, -⟩ := h.related _ List.mem_cons_self
  obtain ⟨here, there, binds⟩ := h.kept
  have set := h.beside.set x v
  -- Only hidden names are set, of which the relation between the two activations says nothing but
  -- that they are bound.
  refine { set.alike with related := ?_, apart := ?_ }
  · refine List.forall_mem_cons.mpr ⟨⟨hs, ht, b, putEntry x v b', here, set.here, ?_⟩,
      set.alike.related⟩
    refine ⟨fun y hy => ?_, binds.data, binds.bound, fun y hy => ?_, by simp [Frame.hold], binds.fresh⟩
    · have other : y ≠ x := by
        rintro rfl
        rw [hidden] at hy
        cases hy
      rw [lookup_putEntry_ne other, binds.same y hy]
    · rw [lookup_putEntry]
      split
      · rfl
      · exact binds.spared y hy
  · obtain ⟨first, rest⟩ := List.pairwise_cons.mp h.apart
    exact List.pairwise_cons.mpr ⟨first, rest⟩

/-- An expression that sets nothing runs in a frame that is held. -/
theorem Operand.hold {e : Tree} (operand : Operand w f e) (quiet : e.Quiet) (b b' : Bindings) :
    Operand w (f.hold b b') e := by
  obtain ⟨⟨wellFormed, kind, fits, -⟩, used⟩ := operand
  refine ⟨⟨wellFormed, kind, fun u hu => ?_, .inr quiet⟩, used⟩
  obtain ⟨simple, named, operands, settings, calm⟩ := fits u hu
  exact ⟨simple, named, operands, settings, calm⟩

end Held

/-! ## Evaluating the arguments -/

/-- The parameters that arguments change, with the values of the arguments. -/
def updates : List Text → List Tree → List Value → Bindings
  | [], _, _ => []
  | x :: xs, es, vs =>
    if isChange (x, es.head?.getD .undefined) then
      (x, vs.head?.getD .undefined) :: updates xs es.tail vs.tail
    else updates xs es.tail vs.tail

/-- The parameters that arguments do not change have the values of the arguments. -/
def Keeps (b : Bindings) : List Text → List Tree → List Value → Prop
  | [], _, _ => True
  | x :: xs, es, vs =>
    (isChange (x, es.head?.getD .undefined) = false →
      b.lookup x = some (vs.head?.getD .undefined)) ∧ Keeps b xs es.tail vs.tail

/-- Arguments of a tail call in the activation of a frame, for some of its parameters. -/
structure Passes (w : World) (f : Frame) (xs : List Text) (es : List Tree) : Prop where
  few : es.length ≤ xs.length
  operands : ∀ e ∈ es, Operand w f e
  quiet : ∀ e ∈ es, e.Quiet
  params : ∀ x ∈ xs, x ∈ f.names
  undefined : Tree.undefinedName ∉ f.names ∧ w.hides Tree.undefinedName = false

/-- How the evaluations of the arguments end: with values, or with the same error. -/
inductive Arrives (w : World) (frames : List Frame) (b : Bindings) (xs : List Text) (es : List Tree)
    {α : Type} (Q : List Value → Machine → α → Machine → Prop) :
    EStateM.Result Interrupt Machine (List Value) → EStateM.Result Interrupt Machine α → Prop where
  | ok {vs m a m'} (data : ∀ v ∈ vs, v.isData = true) (keeps : Keeps b xs es vs)
      (machines : Q vs m a m') : Arrives w frames b xs es Q (.ok vs m) (.ok a m')
  | error {e m e' m'} (ends : Throws w frames {} e m e' m') :
    Arrives w frames b xs es Q (.error e m) (.error e' m')

section Arguments

variable {w : World} {frames : List Frame} {f : Frame} {b b' : Bindings} {x : Text} {xs : List Text}
  {es : List Tree} {fuel : Nat}

/-- Arguments for some names, without the first, are ones for the others. -/
theorem Passes.tail (h : Passes w f (x :: xs) es) : Passes w f xs es.tail where
  few := by
    have := h.few
    simp only [List.length_cons, List.length_tail] at this ⊢
    omega
  operands e he := h.operands e (List.mem_of_mem_tail he)
  quiet e he := h.quiet e (List.mem_of_mem_tail he)
  params y hy := h.params y (List.mem_cons_of_mem x hy)
  undefined := h.undefined

/-- An argument that changes nothing is the parameter itself. -/
theorem Passes.unchanged (h : Passes w f (x :: xs) es)
    (same : isChange (x, es.head?.getD .undefined) = false) :
    ∃ l, es = .node l (.identifier (.text x)) :: es.tail := by
  cases es with
  | nil =>
    have known := h.params x List.mem_cons_self
    simp only [isChange, isIdentifier, List.head?_nil, Option.getD_none, Bool.not_eq_false',
      beq_iff_eq] at same
    cases same
    exact (h.undefined.1 known).elim
  | cons e es =>
    simp only [isChange, List.head?_cons, Option.getD_some, Bool.not_eq_false'] at same
    obtain ⟨l, rfl⟩ := isIdentifier_iff.mp same
    exact ⟨l, rfl⟩

/-- The undefined value has its name in the activation. -/
theorem Passes.valueIn_undefined (h : Passes w f xs es) (binds : f.Binds w b b') :
    valueIn b .undefined = some .undefined ∧ valueIn b' .undefined = some .undefined := by
  have unbound : b.lookup Tree.undefinedName = none := by
    rw [← Option.not_isSome_iff_eq_none, binds.bound]
    exact h.undefined.1
  have unbound' : b'.lookup Tree.undefinedName = none := by
    rw [binds.same _ h.undefined.2, unbound]
  constructor
  · simp [valueIn, Tree.undefined, Tree.identifier, Tree.new, unbound]
  · simp [valueIn, Tree.undefined, Tree.identifier, Tree.new, unbound']

/-- A parameter has a value, and the same in both activations. -/
theorem Passes.valueIn_param (h : Passes w f (x :: xs) es) (binds : f.Binds w b b')
    (l : Option Location) :
    ∃ v, b.lookup x = some v ∧ v.isData = true ∧
      valueIn b (.node l (.identifier (.text x))) = some v := by
  obtain ⟨v, hv⟩ := Option.isSome_iff_exists.mp ((binds.bound x).mpr (h.params x List.mem_cons_self))
  exact ⟨v, hv, binds.data x v hv, by simp [valueIn, hv]⟩

/-- The machines while arguments are evaluated: the bindings of the activations are known. -/
abbrev Holds (w : World) (frames : List Frame) (f : Frame) (b b' : Bindings)
  (m m' : Machine) : Prop :=
  Matches w (f.hold b b' :: frames) m m'

/-- An argument that changes its name comes first among the changes. -/
theorem changed_cons_of_change (xs : List Text)
    (change : isChange (x, es.head?.getD .undefined) = true) :
    changed (x :: xs) es = (x, es.head?.getD .undefined) :: changed xs es.tail := by
  rw [changed, padded, List.filter_cons_of_pos change]
  rfl

/-- An argument that does not change its name is left out. -/
theorem changed_cons_of_same (xs : List Text) (same : isChange
    (x, es.head?.getD .undefined) = false) :
    changed (x :: xs) es = changed xs es.tail := by
  rw [changed, padded, List.filter_cons_of_neg (by simp [same])]
  rfl

/-- The same for the values that the names are set to. -/
theorem updates_cons_of_change (change : isChange (x, es.head?.getD .undefined) = true)
    (vs : List Value) :
    updates (x :: xs) es vs = (x, vs.head?.getD .undefined) :: updates xs es.tail vs.tail := by
  rw [updates, if_pos change]

/-- The same for the values of an argument that is left out. -/
theorem updates_cons_of_same (same : isChange (x, es.head?.getD .undefined) = false)
    (vs : List Value) : updates (x :: xs) es vs = updates xs es.tail vs.tail := by
  rw [updates, if_neg (by simp [same])]

/-- The evaluation of one argument. -/
theorem Passes.evaluate_head {e : Tree} {m m' : Machine} (h : Passes w f (x :: xs) (e :: es))
    (agree : ∀ b b', ExpressionsAgree w (f.hold b b') frames (fuel + 1))
    (hm : Holds w frames f b b' m m') :
    SimAt w (f.hold b b' :: frames) (·.isData = true) (Throws w (f.hold b b' :: frames) {})
      (evaluate w.limit fuel f.source e) (fun k => evaluate w.limit k f.target e) m m' :=
  agree b b' fuel (by omega) e
    ((h.operands e List.mem_cons_self).hold (h.quiet e List.mem_cons_self) b b') m m' hm

/-- An error while the bindings are known is one while they are not. -/
theorem throws_release {e e' : Interrupt} {m m' : Machine} (free : f.held = none)
    (h : Throws w (f.hold b b' :: frames) {} e m e' m') : Throws w (f :: frames) {} e m e' m' := by
  obtain ⟨same, allowed, machines⟩ := h
  exact ⟨same, allowed, machines.reframe (machines.stores.release free) rfl⟩

/-- Setting a temporary. -/
theorem Holds.stage {m m' : Machine} (hm : Holds w frames f b b' m m') {y : Text}
    (spare : y ∈ f.spare) (hidden : w.hides y = true) (v : Value) :
    writeName f.target (.text y) none v m' =
        .ok () { m' with store := m'.store.declare f.target y v } ∧
      Holds w frames f b (putEntry y v b') m { m' with store := m'.store.declare f.target y v } := by
  have bound : (b'.lookup y).isSome = true := hm.stores.kept.2.2.spared y spare
  constructor
  · exact writeName_of_resolve? none v rfl (hm.stores.beside.resolve? bound)
  · exact hm.reframe (hm.stores.stage hidden v) rfl

/-- The values of all arguments, from the first one and those of the others. -/
theorem Arrives.cons {α : Type} {Q Q' : List Value → Machine → α → Machine → Prop} {v : Value}
    {rest : Eval (List Value)} {m : Machine} {r' : EStateM.Result Interrupt Machine α}
    (h : Arrives w frames b xs es.tail Q (rest m) r') (data : v.isData = true)
    (keeps : isChange (x, es.head?.getD .undefined) = false → b.lookup x = some v)
    (machines : ∀ vs m1 a m1', Q vs m1 a m1' → Q' (v :: vs) m1 a m1') :
    Arrives w frames b (x :: xs) es Q' ((rest >>= fun vs => pure (v :: vs)) m) r' := by
  -- The head has its value already; the rest decides what comes of the row.
  cases found : rest m with
  | error e m1 =>
    rw [found] at h
    cases h with
    | error ends =>
      rw [bind_of_error found]
      exact .error ends
  | ok vs m1 =>
    rw [found] at h
    cases h with
    | ok others kept reached =>
      rw [bind_of_ok found]
      exact .ok (List.forall_mem_cons.mpr ⟨data, others⟩) ⟨keeps, kept⟩ (machines _ _ _ _ reached)

/-- Evaluating arguments into temporaries. -/
theorem stage_sim (free : f.held = none)
    (agree : ∀ b b', ExpressionsAgree w (f.hold b b') frames (fuel + 2)) (h : Passes w f xs es)
    (spare : ∀ e ∈ changed xs es, w.temporary e.1 ∈ f.spare)
    (hidden : ∀ y, w.hides (w.temporary y) = true) {m m' : Machine}
    (hm : Holds w frames f b b' m m')
    (counts : Counts w (es.mapM (evaluate w.limit (fuel + 1) f.source) m)) :
    ∃ n r', (∀ k, n ≤ k →
        assignEach w.limit (k + 1) f.target (w.staging (changed xs es)) m' = r') ∧
      Arrives w (f :: frames) b xs es
        (fun vs m1 _ m1' => Holds w frames f b
          (putAll ((updates xs es vs).map fun e => (w.temporary e.1, e.2)) b') m1 m1')
        (es.mapM (evaluate w.limit (fuel + 1) f.source) m) r' := by
  induction xs generalizing es b' m m' with
  | nil =>
    have none : es = [] := List.eq_nil_of_length_eq_zero (Nat.le_zero.mp h.few)
    subst none
    have nothing : ([] : List Tree).mapM (evaluate w.limit (fuel + 1) f.source) m = .ok [] m := rfl
    rw [nothing]
    exact ⟨0, .ok () m', fun _ _ => rfl, .ok (by simp) trivial hm⟩
  | cons x xs ih =>
    cases change : isChange (x, es.head?.getD .undefined) with
    | false =>
      -- the argument is the parameter: the program reads it, the rewritten program leaves it
      obtain ⟨l, same⟩ := h.unchanged change
      obtain ⟨v, known, data, value⟩ := h.valueIn_param (hm.stores.kept.2.2.release free) l
      have read := evaluate_of_valueIn w.limit hm.stores.runs value fuel
      rw [changed_cons_of_same _ change] at spare ⊢
      rw [same, List.mapM_cons, bind_of_ok read] at counts ⊢
      obtain ⟨n, r', settled, arrives⟩ := ih h.tail spare hm (counts_of_bind counts)
      refine ⟨n, r', settled, ?_⟩
      rw [← same]
      refine arrives.cons data (fun _ => known) fun vs m1 _ m1' reached => ?_
      rw [updates_cons_of_same change]
      exact reached
    | true =>
      rw [changed_cons_of_change _ change] at spare ⊢
      rw [List.forall_mem_cons] at spare
      cases es with
      | nil =>
        -- a missing argument is undefined
        obtain ⟨-, value⟩ := h.valueIn_undefined (hm.stores.kept.2.2.release free)
        obtain ⟨written, staged⟩ := hm.stage spare.1 (hidden x) .undefined
        obtain ⟨n, r', settled, arrives⟩ := ih h.tail spare.2 staged counts
        refine ⟨n, r', fun k hk => ?_, ?_⟩
        · have read := evaluate_of_valueIn w.limit hm.stores.beside.runs value k
          exact (bind_of_ok ((bind_of_ok read).trans written)).trans (settled k hk)
        · have nothing : ([] : List Tree).mapM (evaluate w.limit (fuel + 1) f.source) m = .ok [] m :=
            rfl
          rw [List.tail_nil, nothing] at arrives
          rw [nothing]
          cases arrives with
          | ok data keeps reached =>
            refine .ok data ⟨fun same => ?_, keeps⟩ ?_
            · rw [change] at same
              cases same
            · rw [updates_cons_of_change change]
              exact reached
      | cons e es =>
        rw [List.mapM_cons] at counts ⊢
        obtain ⟨n, r1', settled, agrees⟩ := h.evaluate_head agree hm (counts_of_bind counts)
        cases found : evaluate w.limit (fuel + 1) f.source e m with
        | error error m1 =>
          rw [found] at agrees
          cases agrees with
          | @error _ error' _ m1' ends =>
            refine ⟨n, .error error' m1', fun k hk => ?_, ?_⟩
            · exact bind_of_error (bind_of_error (settled (k + 1) (by omega)))
            · rw [bind_of_error found]
              exact .error (throws_release free ends)
        | ok v m1 =>
          rw [found] at agrees
          rw [bind_of_ok found] at counts ⊢
          cases agrees with
          | @ok _ _ m1' data machines =>
            obtain ⟨written, staged⟩ := Holds.stage machines spare.1 (hidden x) v
            obtain ⟨n2, r', settled2, arrives⟩ := ih h.tail spare.2 staged (counts_of_bind counts)
            refine ⟨max n n2, r', fun k hk => ?_, ?_⟩
            · have read := settled (k + 1) (by omega)
              exact (bind_of_ok ((bind_of_ok read).trans written)).trans (settled2 k (by omega))
            · refine arrives.cons data (fun same => ?_) fun vs m2 _ m2' reached => ?_
              · rw [change] at same
                cases same
              · rw [updates_cons_of_change change]
                exact reached

/-- Arguments that change no parameter are read, and nothing else happens. -/
theorem Passes.read_unchanged (fuel : Nat) (free : f.held = none) (h : Passes w f xs es)
    (none : changed xs es = []) {m m' : Machine} (hm : Holds w frames f b b' m m') :
    ∃ vs, es.mapM (evaluate w.limit (fuel + 1) f.source) m = .ok vs m ∧
      (∀ v ∈ vs, v.isData = true) ∧ Keeps b xs es vs ∧ updates xs es vs = [] := by
  -- By induction on the parameters: each argument reads the parameter that it stands for.
  induction xs generalizing es with
  | nil =>
    have none : es = [] := List.eq_nil_of_length_eq_zero (Nat.le_zero.mp h.few)
    subst none
    exact ⟨[], rfl, by simp, trivial, rfl⟩
  | cons x xs ih =>
    have same : isChange (x, es.head?.getD .undefined) = false := by
      cases change : isChange (x, es.head?.getD .undefined) with
      | false => rfl
      | true =>
        rw [changed_cons_of_change _ change] at none
        cases none
    rw [changed_cons_of_same _ same] at none
    obtain ⟨l, first⟩ := h.unchanged same
    obtain ⟨v, known, data, value⟩ := h.valueIn_param (hm.stores.kept.2.2.release free) l
    obtain ⟨vs, rest, others, keeps, nothing⟩ := ih h.tail none
    refine ⟨v :: vs, ?_, List.forall_mem_cons.mpr ⟨data, others⟩, ⟨fun _ => known, keeps⟩, ?_⟩
    · rw [first, List.mapM_cons, bind_of_ok (evaluate_of_valueIn w.limit hm.stores.runs value fuel),
        bind_of_ok rest]
      rfl
    · rw [updates_cons_of_same same]
      exact nothing

/-- The value of an expression that reads no variable. -/
def constantValue : Tree → Option Value
  | .node _ (.literal value) => Value.ofTree? value
  | .node _ (.identifier (.text x)) => if x = Tree.undefinedName then some .undefined else none
  | _ => none

/-- A constant has the same value everywhere, unless `undefined` is bound. -/
theorem valueIn_of_constantValue {e : Tree} {v : Value} (h : constantValue e = some v)
    (unbound : b.lookup Tree.undefinedName = none) : valueIn b e = some v := by
  unfold constantValue at h
  split at h
  · exact h
  · split at h
    · rename_i same
      rw [valueIn, same, unbound, if_pos rfl, Option.none_or, ← h]
    · cases h
  · cases h

/-- The value of `undefined` is undefined. -/
theorem constantValue_undefined : constantValue .undefined = some .undefined := by
  rw [Tree.undefined, Tree.identifier, Tree.new, constantValue, if_pos rfl]

/-- Literals are the nodes of their kind. -/
theorem eq_literal {t : Tree} (h : t.hasKind .literal = true) :
    ∃ l value, t = .node l (.literal value) := by
  cases t with
  | node l shape =>
    cases shape with
    | literal value => exact ⟨l, value, rfl⟩
    | function form => cases form <;> cases h
    | jump kind => cases kind <;> cases h
    | forEach domain => cases domain <;> cases h
    | _ => cases h
  | _ => cases h

/-- A constant has a value, which is no function. -/
theorem constantValue_of_isConstant {e : Tree} (h : isConstant e = true)
    (wellFormed : ∃ checked c, WellFormed checked c e) :
    ∃ v, constantValue e = some v ∧ v.isData = true := by
  obtain ⟨checked, c, wellFormed⟩ := wellFormed
  rcases Bool.or_eq_true_iff.mp h with literal | undefined
  · obtain ⟨l, value, rfl⟩ := eq_literal literal
    cases wellFormed with
    | literal plain =>
      cases value with
      | null | bool | int | num | text => exact ⟨_, rfl, rfl⟩
      | _ => cases plain
  · obtain ⟨l, rfl⟩ := isIdentifier_iff.mp undefined
    exact ⟨.undefined, by rw [constantValue, if_pos rfl], rfl⟩

/-- What is known when the last argument that changes a parameter has been evaluated, and the others
that do are constants. -/
structure LastKnown (xs : List Text) (es : List Tree) (q : Text × Tree)
    (vs : List Value) (v : Value) :
    Prop where
  data : v.isData = true
  updates : ∃ us, updates xs es vs = us ++ [(q.1, v)] ∧
    List.Forall₂ (fun e u => u.1 = e.1 ∧ constantValue e.2 = some u.2) (changed xs es).dropLast us

/-- Knowing the last value passes on to more arguments, if the first ones are constants. -/
theorem LastKnown.cons {q : Text × Tree} {vs : List Value} {u v : Value}
    (change : isChange (x, es.head?.getD .undefined) = true)
    (more : changed xs es.tail ≠ [])
    (constant : constantValue (es.head?.getD .undefined) = some u)
    (first : vs.head?.getD .undefined = u)
    (h : LastKnown xs es.tail q vs.tail v) : LastKnown (x :: xs) es q vs v := by
  obtain ⟨data, us, found, constants⟩ := h
  refine ⟨data, (x, u) :: us, ?_, ?_⟩
  · rw [updates_cons_of_change change, first, found]
    rfl
  · rw [changed_cons_of_change _ change, List.dropLast_cons_of_ne_nil more]
    exact .cons ⟨rfl, constant⟩ constants

/-- Evaluating arguments of which only the last that changes a parameter can do anything. -/
theorem last_sim (free : f.held = none)
    (agree : ∀ b b', ExpressionsAgree w (f.hold b b') frames (fuel + 2)) (h : Passes w f xs es)
    {q : Text × Tree} (last : (changed xs es).getLast? = some q)
    (constants : ∀ e ∈ (changed xs es).dropLast, isConstant e.2 = true) {m m' : Machine}
    (hm : Holds w frames f b b' m m')
    (counts : Counts w (es.mapM (evaluate w.limit (fuel + 1) f.source) m)) :
    ∃ n r', (∀ k, n ≤ k → evaluate w.limit (k + 1) f.target q.2 m' = r') ∧
      Arrives w (f :: frames) b xs es
        (fun vs m1 v m1' => Holds w frames f b b' m1 m1' ∧ LastKnown xs es q vs v)
        (es.mapM (evaluate w.limit (fuel + 1) f.source) m) r' := by
  -- By induction on the parameters. Arguments before the last change are constants or read their
  -- own parameter, so that nothing can tell when they are evaluated.
  induction xs generalizing es m m' with
  | nil => cases last
  | cons x xs ih =>
    cases change : isChange (x, es.head?.getD .undefined) with
    | false =>
      obtain ⟨l, same⟩ := h.unchanged change
      obtain ⟨v, known, data, value⟩ := h.valueIn_param (hm.stores.kept.2.2.release free) l
      have read := evaluate_of_valueIn w.limit hm.stores.runs value fuel
      have here := changed_cons_of_same xs change
      rw [here] at last constants
      rw [same, List.mapM_cons, bind_of_ok read] at counts ⊢
      obtain ⟨n, r', settled, arrives⟩ := ih h.tail last constants hm (counts_of_bind counts)
      refine ⟨n, r', settled, ?_⟩
      rw [← same]
      refine arrives.cons data (fun _ => known) fun vs m1 u m1' reached => ⟨reached.1, ?_⟩
      obtain ⟨-, data, us, found, constants⟩ := reached
      refine ⟨data, us, ?_, here ▸ constants⟩
      rw [updates_cons_of_same change]
      exact found
    | true =>
      have here := changed_cons_of_change xs change
      by_cases more : changed xs es.tail = []
      · -- the last one: what comes after it is only read
        rw [here, more, List.getLast?_singleton, Option.some_inj] at last
        subst last
        have only {vs : List Value} {v : Value} (data : v.isData = true)
            (first : vs.head?.getD .undefined = v) (none : updates xs es.tail vs.tail = []) :
            LastKnown (x :: xs) es (x, es.head?.getD .undefined) vs v := by
          refine ⟨data, [], ?_, ?_⟩
          · rw [updates_cons_of_change change, first, none]
            rfl
          · rw [here, more]
            exact .nil
        have changes {P : Prop} (same : isChange (x, es.head?.getD .undefined) = false) : P := by
          rw [change] at same
          cases same
        cases es with
        | nil =>
          obtain ⟨-, value⟩ := h.valueIn_undefined (hm.stores.kept.2.2.release free)
          obtain ⟨vs, rest, data, keeps, none⟩ :=
            h.tail.read_unchanged fuel free more hm
          obtain rfl : vs = [] := by cases rest; rfl
          refine ⟨0, .ok .undefined m', fun k _ => ?_, ?_⟩
          · exact evaluate_of_valueIn w.limit hm.stores.beside.runs value k
          · exact rest ▸ .ok data ⟨changes, keeps⟩ ⟨hm, only rfl rfl none⟩
        | cons e es =>
          rw [List.mapM_cons] at counts ⊢
          obtain ⟨n, r', settled, agrees⟩ := h.evaluate_head agree hm (counts_of_bind counts)
          refine ⟨n, r', fun k hk => settled (k + 1) (by omega), ?_⟩
          cases found : evaluate w.limit (fuel + 1) f.source e m with
          | error error m1 =>
            rw [found] at agrees
            cases agrees with
            | error ends =>
              rw [bind_of_error found]
              exact .error (throws_release free ends)
          | ok v m1 =>
            rw [found] at agrees
            cases agrees with
            | ok data machines =>
              obtain ⟨vs, rest, others, keeps, none⟩ :=
                h.tail.read_unchanged fuel free more machines
              rw [List.tail_cons] at rest
              rw [bind_of_ok found, bind_of_ok rest]
              exact .ok (List.forall_mem_cons.mpr ⟨data, others⟩) ⟨changes, keeps⟩
                ⟨machines, only data rfl none⟩
      · -- a constant: both programs have its value already
        rw [here] at last constants
        rw [List.dropLast_cons_of_ne_nil more, List.forall_mem_cons] at constants
        have last' : (changed xs es.tail).getLast? = some q := by
          obtain ⟨r, rs, eq⟩ := List.exists_cons_of_ne_nil more
          rw [eq] at last ⊢
          simpa using last
        have unbound : b.lookup Tree.undefinedName = none := by
          rw [← Option.not_isSome_iff_eq_none, (hm.stores.kept.2.2.release free).bound]
          exact h.undefined.1
        have changes {P : Prop} (same : isChange (x, es.head?.getD .undefined) = false) : P := by
          rw [change] at same
          cases same
        cases es with
        | nil =>
          obtain ⟨n, r', settled, arrives⟩ := ih h.tail last' constants.2 hm counts
          refine ⟨n, r', settled, ?_⟩
          have nothing : ([] : List Tree).mapM (evaluate w.limit (fuel + 1) f.source) m = .ok [] m :=
            rfl
          rw [List.tail_nil, nothing] at arrives
          rw [nothing]
          cases arrives with
          | ok data keeps reached =>
            refine .ok data ⟨changes, keeps⟩ ⟨reached.1, ?_⟩
            exact .cons change more constantValue_undefined rfl reached.2
        | cons e es =>
          have constant : isConstant e = true := constants.1
          obtain ⟨u, known, data⟩ := constantValue_of_isConstant constant
            (h.operands e List.mem_cons_self).1.wellFormed
          have value := valueIn_of_constantValue known unbound
          have read := evaluate_of_valueIn w.limit hm.stores.runs value fuel
          rw [List.mapM_cons, bind_of_ok read] at counts ⊢
          obtain ⟨n, r', settled, arrives⟩ := ih h.tail last' constants.2 hm (counts_of_bind counts)
          refine ⟨n, r', settled, arrives.cons data changes fun vs m1 v m1' reached => ?_⟩
          exact ⟨reached.1, .cons change more known rfl reached.2⟩

end Arguments

end TailLoop.Simulation
