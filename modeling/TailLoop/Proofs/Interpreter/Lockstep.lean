import TailLoop.Proofs.Interpreter.Outcomes

/-!
# Evaluations in lockstep

Two evaluations go in lockstep if they have the same result and leave the same machine, from every
machine on with enough room for calls below the first one's limit; only where the first one has less
room than the second, it may end because calls are nested too deeply, and then nothing is said of
the second one. Either way the calls under way and the mode are as before, and no environment is lost
(`Kept`).

The rules follow the ways in which evaluations are put together. The body of a call needs room for one
call less than the call (`Lockstep.inCall`); everything else leaves the room as it is.
-/

namespace TailLoop.Eval

/-- A machine with the calls under way and the mode of another one. -/
structure Restored (m m' : Machine) : Prop where
  depth : m'.depth = m.depth
  strict : m'.strict = m.strict

/-- A machine as an evaluation leaves it: it has all the environments that were there before. -/
structure Kept (m m' : Machine) : Prop extends Restored m m' where
  environments : m.store.environments.size ≤ m'.store.environments.size

/-- A machine keeps itself. -/
theorem Kept.refl (m : Machine) : Kept m m := ⟨⟨rfl, rfl⟩, Nat.le_refl _⟩

/-- What is kept on the way is kept. -/
theorem Kept.trans {m m' m'' : Machine} (h : Kept m m') (h' : Kept m' m'') : Kept m m'' :=
  ⟨⟨h'.depth.trans h.depth, h'.strict.trans h.strict⟩, Nat.le_trans h.environments h'.environments⟩

/-- A store with at least as many environments is kept. -/
theorem Kept.store {m : Machine} {s : Store}
    (h : m.store.environments.size ≤ s.environments.size) : Kept m { m with store := s } :=
  ⟨⟨rfl, rfl⟩, h⟩

/-- A machine of which nothing else was touched is kept. -/
theorem Untouched.kept {m m' : Machine} (h : Untouched m m') : Kept m m' :=
  ⟨⟨h.depth, h.strict⟩, Nat.le_of_eq (congrArg Array.size h.environments.symm)⟩

/-- An evaluation from `m` on that keeps what every evaluation keeps, however it ends. -/
abbrev Keeps (m : Machine) {α : Type} (r : EStateM.Result Interrupt Machine α) : Prop :=
  Ended (Kept m) (fun _ => True) r

/-- Results of two evaluations from `m` on with limits of their own for the nesting of calls: they
are the same, unless the first one has ended at a limit that is lower. -/
inductive Tied (limit limit' : Nat) (m : Machine) {α : Type} :
    (r r' : EStateM.Result Interrupt Machine α) → Prop where
  | same {r} (keeps : Keeps m r) : Tied limit limit' m r r
  | refused {m' r'} (less : limit < limit') (kept : Kept m m') :
    Tied limit limit' m (.error (.failed .stackOverflow) m') r'

/-- Two evaluations with limits of their own go in lockstep from every machine on at which so many
calls have room below the first limit. -/
def Lockstep (limit limit' room : Nat) {α : Type} (x y : Eval α) : Prop :=
  ∀ m, m.depth + room ≤ limit → Tied limit limit' m (x m) (y m)

variable {limit limit' room : Nat} {m : Machine} {α β : Type}

namespace Tied

/-- Two results that are tied keep the machine that both started from. -/
theorem keeps {r r' : EStateM.Result Interrupt Machine α} (h : Tied limit limit' m r r') :
    Keeps m r := by
  cases h with
  | same keeps => exact keeps
  | refused less kept => exact .error kept trivial

/-- With one limit the results are the same. -/
theorem eq {r r' : EStateM.Result Interrupt Machine α} (h : Tied limit limit m r r') : r' = r := by
  cases h with
  | same keeps => rfl
  | refused less kept => exact absurd less (Nat.lt_irrefl _)

/-- What is made of a result without changing the machine is made of both results alike, unless it
takes up the end at the limit. -/
theorem map {r r' : EStateM.Result Interrupt Machine α} (h : Tied limit limit' m r r')
    {f : EStateM.Result Interrupt Machine α → EStateM.Result Interrupt Machine β}
    (keeps : ∀ r, Keeps m r → Keeps m (f r))
    (refusal : ∀ m', f (.error (.failed .stackOverflow) m') = .error (.failed .stackOverflow) m') :
    Tied limit limit' m (f r) (f r') := by
  cases h with
  | same kept => exact .same (keeps _ kept)
  | refused less kept =>
    rw [refusal]
    exact .refused less kept

/-- They are also tied to a machine from before. -/
theorem after {m₀ : Machine} (before : Kept m₀ m) {r r' : EStateM.Result Interrupt Machine α}
    (h : Tied limit limit' m r r') : Tied limit limit' m₀ r r' := by
  cases h with
  | same keeps => exact .same (keeps.weaken fun _ kept => before.trans kept)
  | refused less kept => exact .refused less (before.trans kept)

/-- If two evaluations run alike and each result of the first is met by one of the second, the steps
after them run alike. -/
theorem bind {x y : Eval α} {f g : α → Eval β} (h : Tied limit limit' m (x m) (y m))
    (next : ∀ a m', Kept m m' → Tied limit limit' m' (f a m') (g a m')) :
    Tied limit limit' m ((x >>= f) m) ((y >>= g) m) := by
  generalize hx : x m = r at h
  generalize hy : y m = r' at h
  cases h with
  | refused less kept =>
    rw [Simulation.bind_of_error hx]
    exact .refused less kept
  | same keeps =>
    cases keeps with
    | ok kept =>
      rw [Simulation.bind_of_ok hx, Simulation.bind_of_ok hy]
      exact (next _ _ kept).after kept
    | error kept why =>
      rw [Simulation.bind_of_error hx, Simulation.bind_of_error hy]
      exact .same (.error kept why)

end Tied

namespace Lockstep

variable {x y : Eval α}

/-- Giving a value is the same under both limits. -/
theorem pure (a : α) : Lockstep limit limit' room (Pure.pure a) (Pure.pure a) := fun m _ =>
  .same (.ok (.refl m))

/-- An interrupt is the same under both limits. -/
theorem throw (e : Interrupt) :
    Lockstep limit limit' room (MonadExcept.throw e : Eval α) (MonadExcept.throw e) := fun m _ =>
  .same (.error (.refl m) trivial)

/-- An error is the same under both limits. -/
theorem fail (error : RuntimeError) :
    Lockstep limit limit' room (Eval.fail error : Eval α) (Eval.fail error) :=
  throw _

/-- What touches neither variables nor the mode does not depend on a limit. -/
theorem untouched {E : Interrupt → Prop} (h : ∀ m, Always (Untouched m) E x) :
    Lockstep limit limit' room x x := by
  intro m _
  have done := h m m ⟨rfl, rfl, rfl, rfl⟩
  refine .same ?_
  generalize x m = r at done
  cases done with
  | ok same => exact .ok same.kept
  | error same why => exact .error same.kept trivial

/-- A change of the store that gives a value does not look at the limit, and loses no environments. -/
theorem changeGet {f : Store → α × Store}
    (h : ∀ s, s.environments.size ≤ (f s).2.environments.size) :
    Lockstep limit limit' room (Eval.changeGet f) (Eval.changeGet f) := fun m _ =>
  .same (.ok (.store (h m.store)))

/-- A change of the store does not look at the limit, and loses no environments. -/
theorem change {f : Store → Store} (h : ∀ s, s.environments.size ≤ (f s).environments.size) :
    Lockstep limit limit' room (Eval.change f) (Eval.change f) := fun m _ =>
  .same (.ok (.store (h m.store)))

/-- Two steps keep in step if each of them does. -/
theorem bind {f g : α → Eval β} (h : Lockstep limit limit' room x y)
    (next : ∀ a, Lockstep limit limit' room (f a) (g a)) :
    Lockstep limit limit' room (x >>= f) (y >>= g) := by
  intro m hm
  refine (h m hm).bind fun a m' kept => next a m' ?_
  rw [kept.depth]
  exact hm

/-- What is made of the value does not matter. -/
theorem map (f : α → β) (h : Lockstep limit limit' room x y) :
    Lockstep limit limit' room (f <$> x) (f <$> y) := by
  rw [← bind_pure_comp, ← bind_pure_comp]
  exact h.bind fun a => pure _

/-- Both evaluations look at the same machine. -/
theorem get {f g : Machine → Eval α}
    (h : ∀ m, m.depth + room ≤ limit → Tied limit limit' m (f m m) (g m m)) :
    Lockstep limit limit' room (MonadState.get >>= f) (MonadState.get >>= g) :=
  h

/-- The same choice is made under both limits. -/
theorem ite {c : Prop} [Decidable c] {x' y' : Eval α} (h : Lockstep limit limit' room x y)
    (h' : Lockstep limit limit' room x' y') :
    Lockstep limit limit' room (if c then x else x') (if c then y else y') := by
  split
  · exact h
  · exact h'

section Rows

variable {l : List α}

/-- A list is gone through in step. -/
theorem forM {f g : α → Eval PUnit} (h : ∀ a, Lockstep limit limit' room (f a) (g a)) :
    Lockstep limit limit' room (l.forM f) (l.forM g) := by
  induction l with
  | nil => exact pure PUnit.unit
  | cons a l ih => exact (h a).bind fun _ => ih

/-- So it is with a value that is handed on. -/
theorem foldlM {f g : β → α → Eval β} (h : ∀ b a, Lockstep limit limit' room (f b a) (g b a))
    (b : β) : Lockstep limit limit' room (l.foldlM f b) (l.foldlM g b) := by
  induction l generalizing b with
  | nil => exact pure b
  | cons a l ih =>
    rw [List.foldlM_cons, List.foldlM_cons]
    exact (h b a).bind ih

end Rows

section Loops

variable {labels : List Text}

/-- A pass of a loop keeps in step if its body does. -/
theorem pass {x y : Eval Unit} (h : Lockstep limit limit' room x y) :
    Lockstep limit limit' room (Eval.pass labels x) (Eval.pass labels y) := by
  intro m hm
  refine (h m hm).map (f := fun r => Eval.pass labels (fun _ => r) m) ?_ fun m' => rfl
  -- What the loop takes up depends on the end of the pass alone.
  intro r keeps
  cases keeps with
  | ok kept => exact .ok kept
  | @error e m' kept why =>
    unfold Eval.pass
    cases e with
    | broke label | continued label =>
      simp only
      cases concerns labels label with
      | error fault => exact .error kept trivial
      | ok mine => cases mine with
        | true => exact .ok kept
        | false => exact .error kept trivial
    | _ => exact .error kept trivial

/-- A labeled statement keeps in step if its body does. -/
theorem labeled {x y : Eval Unit} (h : Lockstep limit limit' room x y) :
    Lockstep limit limit' room (Eval.labeled labels x) (Eval.labeled labels y) := by
  intro m hm
  refine (h m hm).map (f := fun r => Eval.labeled labels (fun _ => r) m) ?_ fun m' => rfl
  -- What the label takes up depends on the end of the statement alone.
  intro r keeps
  cases keeps with
  | ok kept => exact .ok kept
  | @error e m' kept why =>
    unfold Eval.labeled
    cases e with
    | broke label =>
      simp only
      cases label.key.map labels.contains with
      | error fault => exact .error kept trivial
      | ok mine => cases mine with
        | true => exact .ok kept
        | false => exact .error kept trivial
    | _ => exact .error kept trivial

end Loops

/-- A call takes the room of one call, and gives it back. -/
theorem inCall {strict : Bool} {x y : Eval Unit} (h : Lockstep limit limit' room x y) :
    Lockstep limit limit' (room + 1) (Eval.inCall strict x) (Eval.inCall strict y) := by
  rintro ⟨store, depth, outer⟩ hm
  have inner := h ⟨store, depth + 1, strict⟩ (by simp only at hm ⊢; omega)
  -- The depth is one more inside, and it is taken back at the end.
  have back {m' : Machine} (kept : Kept ⟨store, depth + 1, strict⟩ m') :
      Kept ⟨store, depth, outer⟩ { m' with depth := m'.depth - 1, strict := outer } :=
    ⟨⟨congrArg (· - 1) kept.depth, rfl⟩, kept.environments⟩
  unfold Eval.inCall
  simp only
  generalize x ⟨store, depth + 1, strict⟩ = r at inner
  generalize y ⟨store, depth + 1, strict⟩ = r' at inner
  cases inner with
  | refused less kept => exact .refused less (back kept)
  | same keeps =>
    cases keeps with
    | ok kept => exact .same (.ok (back kept))
    | @error e m' kept why =>
      cases e with
      | returned v => exact .same (.ok (back kept))
      | _ => exact .same (.error (back kept) trivial)

/-- An array that contains itself has no text with either limit. -/
theorem guarded (h : Lockstep limit limit' room x y) :
    Lockstep limit limit' room (Eval.guarded x) (Eval.guarded y) := by
  intro m hm
  refine (h m hm).map (f := fun r => Eval.guarded (fun _ => r) m) ?_ fun m' => rfl
  intro r keeps
  unfold Eval.guarded
  split
  · rename_i found
    cases keeps with
    | ok kept => cases found
    | error kept why => cases found; exact .error kept trivial
  · exact keeps

end Lockstep

/-! ## Variables and functions -/

/-- Declaring a name loses no environments. -/
theorem size_le_declare (s : Store) (env : Nat) (name : Text) (v : Value) :
    s.environments.size ≤ (s.declare env name v).environments.size := by
  simp [Store.declare]

/-- Declaring a name is the same under both limits. -/
theorem lockstep_declare (env : Nat) (name : Text) (v : Value) :
    Lockstep limit limit' room (change fun s => s.declare env name v)
      (change fun s => s.declare env name v) :=
  .change fun s => size_le_declare s env name v

/-- So is making a function. -/
theorem lockstep_makeFunction (env : Nat) (id params body : Tree) :
    Lockstep limit limit' room (makeFunction env id params body)
      (makeFunction env id params body) := by
  have made (strict : Bool) : Lockstep limit limit' room
      (Value.function <$> changeGet fun s => s.newClosure ⟨id, params, body, env, strict⟩)
      (Value.function <$> changeGet fun s => s.newClosure ⟨id, params, body, env, strict⟩) :=
    .map _ (.changeGet fun s => Nat.le_refl _)
  refine Lockstep.bind (.untouched fun _ => plain_attempt _) fun statements => .get fun m hm => ?_
  split
  · exact made true m hm
  · exact Lockstep.bind (.untouched fun _ => plain_attempt _) made m hm

/-- So is setting a name. -/
theorem lockstep_writeName (env : Nat) (name : Tree) (l : Option Location) (v : Value) :
    Lockstep limit limit' room (writeName env name l v) (writeName env name l v) := by
  refine Lockstep.bind (.untouched fun _ => plain_keyOf name) fun key => ?_
  refine Lockstep.bind (.changeGet fun s => ?_) fun bound => ?_
  · unfold Store.assign
    split
    · exact size_le_declare s _ key v
    · exact Nat.le_refl _
  · refine .ite (.pure _) (.get fun m hm => ?_)
    refine Lockstep.ite (.fail _) (.change fun s => ?_) m hm
    exact size_le_declare s _ key v

/-- So is declaring a variable. -/
theorem lockstep_declareVariable (env : Nat) (name : Tree) :
    Lockstep limit limit' room (declareVariable env name) (declareVariable env name) := by
  refine Lockstep.bind (.untouched fun _ => plain_keyOf name) fun key => .change fun s => ?_
  split
  · exact Nat.le_refl _
  · exact size_le_declare s env key .undefined

/-- Evaluations in step compose. -/
theorem congruent_lockstep : Congruent (Lockstep limit limit' room) where
  attempt _ := .untouched fun _ => plain_attempt _
  bind h next := h.bind next

/-- Entering a body is the same under both limits. -/
theorem lockstep_hoist (env : Nat) (body : Tree) :
    Lockstep limit limit' room (hoist env body) (hoist env body) :=
  congruent_lockstep.hoist (lockstep_declare env) (lockstep_declareVariable env)
    fun _ _ _ _ _ _ id params inner _ => lockstep_makeFunction env id params inner

end TailLoop.Eval
