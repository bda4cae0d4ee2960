import TailLoop.Proofs.Interpreter.Disciplines

/-!
# Fuel that is large enough

An evaluation that ends before its fuel is used up ends in the same way with more. `Attains y x`
says this of a family `y` of evaluations by fuel and one evaluation `x`: where `x` ends, `y` ends in
the same way with any fuel that is large enough. The rules follow the ways in which evaluations are
put together. To end in the same way as another evaluation, wherever that one ends, is a discipline,
so that with more fuel every function of an evaluation does what it does with less
(`accord_ofFuel`).

`Equivalent x y` compares two families that use up their fuel at different speeds: what either of
them ends with, the other one ends with as well. Both start from the same machine and leave the same
one, so that nothing has to be known about the machine.
-/

namespace TailLoop.Eval

open Routines Simulation

/-- A result that was come to before the fuel was used up. -/
def Conclusive {α : Type} (r : EStateM.Result Interrupt Machine α) : Prop :=
  ∀ m, r ≠ .error .exhausted m

/-- Where `x` ends before its fuel is used up, `y` ends in the same way with any fuel that is large
enough. -/
def Attains {α : Type} (y : Nat → Eval α) (x : Eval α) : Prop :=
  ∀ m, Conclusive (x m) → ∃ n, ∀ k, n ≤ k → y k m = x m

variable {α β : Type}

/-- The first part of an evaluation that ends has ended. -/
theorem Conclusive.first {x : Eval α} {f : α → Eval β} {m : Machine}
    (h : Conclusive ((x >>= f) m)) : Conclusive (x m) :=
  fun m' hx => h m' (bind_of_error hx)

namespace Attains

variable {x : Eval α} {y : Nat → Eval α}

/-- What needs no fuel ends in the same way with any. -/
theorem const (x : Eval α) : Attains (fun _ => x) x := fun _ _ => ⟨0, fun _ _ => rfl⟩

/-- Nothing is asked for where the fuel is used up. -/
theorem exhausted : Attains y (throw .exhausted) := fun m ends => (ends m rfl).elim

/-- A value is come to with all fuel that is large enough. -/
theorem settles (h : Attains y x) {m m' : Machine} {a : α} (done : x m = .ok a m') :
    ∃ n, ∀ k, n ≤ k → y k m = .ok a m' := by
  obtain ⟨n, settled⟩ := h m fun _ hx => nomatch done.symm.trans hx
  exact ⟨n, fun k hk => (settled k hk).trans done⟩

/-- The family may take one unit of fuel more. -/
theorem later (h : Attains (fun k => y (k + 1)) x) : Attains y x := by
  intro m ends
  obtain ⟨n, settled⟩ := h m ends
  refine ⟨n + 1, fun k hk => ?_⟩
  obtain ⟨j, rfl⟩ : ∃ j, k = j + 1 := ⟨k - 1, by omega⟩
  exact settled j (by omega)

/-- What the family does with enough fuel, it does with more. -/
theorem sooner (h : Attains y x) : Attains (fun k => y (k + 1)) x := by
  intro m ends
  obtain ⟨n, settled⟩ := h m ends
  exact ⟨n, fun k hk => settled (k + 1) (by omega)⟩

/-- Two families that end like two evaluations do so one after the other. -/
theorem bind {f : α → Eval β} {g : Nat → α → Eval β} (h : Attains y x)
    (next : ∀ a, Attains (fun k => g k a) (f a)) :
    Attains (fun k => y k >>= g k) (x >>= f) := by
  intro m ends
  obtain ⟨n, settled⟩ := h m ends.first
  cases hx : x m with
  | error e m1 =>
    exact ⟨n, fun k hk =>
      (bind_of_error ((settled k hk).trans hx)).trans (bind_of_error hx).symm⟩
  | ok a m1 =>
    rw [bind_of_ok hx] at ends ⊢
    obtain ⟨n1, settled1⟩ := next a m1 ends
    exact ⟨max n n1, fun k hk =>
      (bind_of_ok ((settled k (by omega)).trans hx)).trans (settled1 k (by omega))⟩

/-- What is made of the value does not matter. -/
theorem map (f : α → β) (h : Attains y x) : Attains (fun k => f <$> y k) (f <$> x) := by
  simp only [← bind_pure_comp]
  exact h.bind fun a => const _

/-- A choice ends like the one between the evaluations. -/
theorem ite {c : Prop} [Decidable c] {x' : Eval α} {y' : Nat → Eval α} (h : Attains y x)
    (h' : Attains y' x') :
    Attains (fun k => if c then y k else y' k) (if c then x else x') := by
  by_cases hc : c
  · simpa [hc] using h
  · simpa [hc] using h'

/-- What is made of a result alone is made of it with any fuel. -/
theorem wrap {z : Eval β} {w : Nat → Eval β} (F : Machine → EStateM.Result Interrupt Machine α →
      EStateM.Result Interrupt Machine β) (start : Machine → Machine) (h : Attains y x)
    (here : ∀ m, z m = F m (x (start m))) (there : ∀ k m, w k m = F m (y k (start m)))
    (ends : ∀ m m', Conclusive (F m (.error .exhausted m')) → False) : Attains w z := by
  intro m done
  rw [here] at done
  obtain ⟨n, settled⟩ := h (start m) fun m' hx => ends m m' (hx ▸ done)
  exact ⟨n, fun k hk => by rw [there, settled k hk, here]⟩

section Loops

variable {labels : List Text}

/-- Going through the values of a loop ends like it does with the evaluations of a pass. -/
theorem forEachItem {step : Value → Eval Bool} {step' : Nat → Value → Eval Bool}
    (h : ∀ v, Attains (fun k => step' k v) (step v)) (vs : List Value) :
    Attains (fun k => Eval.forEachItem (step' k) vs) (Eval.forEachItem step vs) := by
  induction vs with
  | nil => exact const _
  | cons v vs ih => exact (h v).bind fun goesOn => ite ih (const _)

/-- Passes of a loop: the fuel of the family bounds the passes as well, so that it has to be large
enough for both. -/
theorem repeating {step : Eval Bool} {step' : Nat → Eval Bool} (h : Attains step' step)
    (passes : Nat) :
    Attains (fun k => Eval.repeating (step' k) k) (Eval.repeating step passes) := by
  -- Steps and passes need fuel at the same time, so that the induction is on the passes with two
  -- fuels apart.
  have both (m : Machine) : Conclusive (Eval.repeating step passes m) →
      ∃ n, ∀ k j, n ≤ k → n ≤ j → Eval.repeating (step' k) j m = Eval.repeating step passes m := by
    induction passes generalizing m with
    | zero => exact fun ends => (ends m rfl).elim
    | succ passes ih =>
      intro ends
      obtain ⟨n, settled⟩ := h m ends.first
      cases hx : step m with
      | error e m1 =>
        refine ⟨n + 1, fun k j hk hj => ?_⟩
        obtain ⟨i, rfl⟩ : ∃ i, j = i + 1 := ⟨j - 1, by omega⟩
        have first := (settled k (by omega)).trans hx
        rw [Eval.repeating, Eval.repeating, bind_of_error hx, bind_of_error first]
      | ok goesOn m1 =>
        rw [Eval.repeating, bind_of_ok hx] at ends ⊢
        cases goesOn with
        | false =>
          refine ⟨n + 1, fun k j hk hj => ?_⟩
          obtain ⟨i, rfl⟩ : ∃ i, j = i + 1 := ⟨j - 1, by omega⟩
          rw [Eval.repeating, bind_of_ok ((settled k (by omega)).trans hx)]
          rfl
        | true =>
          obtain ⟨n1, settled1⟩ := ih m1 ends
          refine ⟨max n n1 + 1, fun k j hk hj => ?_⟩
          obtain ⟨i, rfl⟩ : ∃ i, j = i + 1 := ⟨j - 1, by omega⟩
          rw [Eval.repeating, bind_of_ok ((settled k (by omega)).trans hx)]
          exact settled1 k i (by omega) (by omega)
  intro m ends
  obtain ⟨n, settled⟩ := both m ends
  exact ⟨n, fun k hk => settled k k hk hk⟩

/-- A pass ends like that of the evaluation of its body. -/
theorem pass {x : Eval Unit} {y : Nat → Eval Unit} (h : Attains y x) :
    Attains (fun k => Eval.pass labels (y k)) (Eval.pass labels x) :=
  h.wrap (fun m r => Eval.pass labels (fun _ => r) m) id (fun _ => rfl) (fun _ _ => rfl)
    fun _ m' ends => ends m' rfl

/-- So does a labeled statement. -/
theorem labeled {x : Eval Unit} {y : Nat → Eval Unit} (h : Attains y x) :
    Attains (fun k => Eval.labeled labels (y k)) (Eval.labeled labels x) :=
  h.wrap (fun m r => Eval.labeled labels (fun _ => r) m) id (fun _ => rfl) (fun _ _ => rfl)
    fun _ m' ends => ends m' rfl

end Loops

/-- So does the body of a call. -/
theorem inCall {strict : Bool} {x : Eval Unit} {y : Nat → Eval Unit} (h : Attains y x) :
    Attains (fun k => Eval.inCall strict (y k)) (Eval.inCall strict x) :=
  h.wrap (fun m r => Eval.inCall strict (fun _ => r) m)
    (fun m => { m with depth := m.depth + 1, strict }) (fun _ => rfl) (fun _ _ => rfl)
    fun _ _ ends => ends _ rfl

end Attains

/-! ## All functions of an evaluation -/

/-- To end in the same way wherever another evaluation ends, whatever runs. -/
abbrev inAccord : Discipline Unit where
  Obeys _ _ x y := Attains (fun _ => y) x
  Runs _ _ _ := True
  Sets _ _ _ := True

/-- To end in the same way as another evaluation composes. -/
theorem composes_inAccord : inAccord.Composes where
  pure _ := .const _
  throw _ := .const _
  bind h next := h.bind next
  pass h := h.pass
  labeled h := h.labeled
  operation _ := .const _
  item _ _ _ := trivial
  field _ _ _ _ := trivial
  target _ _ := trivial
  declared _ _ _ := ⟨trivial, trivial⟩
  readName _ := .const _
  isUnbound _ := .const _
  writeName _ _ _ _ := .const _
  function _ := .const _

/-- A loop may make more passes. -/
theorem accord_repeating {step step' : Eval Bool} (h : Attains (fun _ => step') step)
    {passes passes' : Nat} (more : passes ≤ passes') :
    Attains (fun _ => repeating step' passes') (repeating step passes) := by
  induction passes generalizing passes' with
  | zero => exact .exhausted
  | succ passes ih =>
    obtain ⟨k, rfl⟩ : ∃ k, passes' = k + 1 := ⟨passes' - 1, by omega⟩
    exact h.bind fun goesOn => .ite (ih (by omega)) (.const _)

/-- A call one layer above ends like the call of the layer below it. -/
theorem accord_callBy {r r' : Routines} (h : inAccord.Upheld r r') (limit ref : Nat)
    (args : List Value) :
    Attains (fun _ => r'.callBy limit id (.function ref) args)
      (r.callBy limit id (.function ref) args) := by
  intro m
  simp only [callBy_function]
  split
  · exact Attains.const (fail .stackOverflow : Eval Value) m
  · split
    · exact Attains.const (fail (.malformed .noItem) : Eval Value) m
    · rename_i c found
      have entered : Attains (fun _ => r'.enterBy id c args) (r.enterBy id c args) := by
        refine .bind (.const _) fun env => .bind (.const _) fun params => .bind (.const _) fun _ => ?_
        refine .bind (.const _) fun body => .bind (.const _) fun _ => .inCall ?_
        exact .bind (.const _) fun statements =>
          composes_inAccord.forM (i := ()) fun t _ => h.execute (i := ()) trivial
      exact entered m

/-- What an evaluation comes to with some fuel, it comes to with more. -/
theorem accord_ofFuel (limit : Nat) {fuel fuel' : Nat} (more : fuel ≤ fuel') :
    inAccord.Upheld (ofFuel limit fuel) (ofFuel limit fuel') := by
  induction fuel generalizing fuel' with
  | zero =>
    rw [ofFuel_zero]
    exact ⟨fun _ => .exhausted, fun _ _ => .exhausted, fun _ _ _ => .exhausted,
      fun _ _ _ => .exhausted, fun _ => .exhausted, fun _ _ => .exhausted, fun _ => .exhausted,
      fun _ _ => .exhausted⟩
  | succ fuel ih =>
    -- The amount that bounds the nesting also bounds the passes of loops.
    obtain ⟨k, rfl⟩ : ∃ k, fuel' = k + 1 := ⟨fuel' - 1, by omega⟩
    have less : fuel ≤ k := by omega
    rw [ofFuel_succ, ofFuel_succ]
    exact composes_inAccord.layer (ih less) (fun _ => accord_callBy (ih less) limit)
      fun _ _ _ h => accord_repeating h less

/-! ## Families that are equivalent -/

/-- Two families of evaluations by fuel that end with the same results. -/
structure Equivalent (x y : Nat → Eval α) : Prop where
  forth : ∀ n, Attains y (x n)
  back : ∀ n, Attains x (y n)

namespace Equivalent

variable {x y : Nat → Eval α}

/-- A result is come to by one of two equivalent families if and only if it is come to by the
other. -/
theorem exists_iff (h : Equivalent x y) {m : Machine} {r : EStateM.Result Interrupt Machine α}
    (ends : Conclusive r) : (∃ fuel, x fuel m = r) ↔ ∃ fuel, y fuel m = r := by
  constructor
  · rintro ⟨n, rfl⟩
    obtain ⟨k, settled⟩ := h.forth n m ends
    exact ⟨k, settled k (Nat.le_refl k)⟩
  · rintro ⟨n, rfl⟩
    obtain ⟨k, settled⟩ := h.back n m ends
    exact ⟨k, settled k (Nat.le_refl k)⟩

/-- Equivalence is symmetric. -/
theorem symm (h : Equivalent x y) : Equivalent y x := ⟨h.back, h.forth⟩

/-- What needs no fuel is equivalent to itself. -/
theorem const (x : Eval α) : Equivalent (fun _ => x) fun _ => x :=
  ⟨fun _ => .const x, fun _ => .const x⟩

/-- A family that does the same with more fuel. -/
theorem steady (h : ∀ {n k}, n ≤ k → Attains (fun _ => x k) (x n)) : Equivalent x x :=
  have attains (n : Nat) : Attains x (x n) := fun m ends =>
    ⟨n, fun k hk => by
      obtain ⟨i, settled⟩ := h hk m ends
      exact settled i (Nat.le_refl i)⟩
  ⟨attains, attains⟩

/-- An expression with enough fuel always ends in the same way. -/
theorem evaluate (limit env : Nat) (e : Tree) :
    Equivalent (fun k => Eval.evaluate limit k env e) fun k => Eval.evaluate limit k env e :=
  steady fun more => (accord_ofFuel limit more).evaluate (i := ()) trivial

/-- So does an assignment. -/
theorem assignTo (limit env : Nat) (target : Tree) (v : Value) :
    Equivalent (fun k => Eval.assignTo limit k env target v)
      fun k => Eval.assignTo limit k env target v :=
  steady fun more => (accord_ofFuel limit more).assignTo (i := ()) trivial trivial v

/-- One more fuel makes no difference in the end. -/
theorem sooner (h : Equivalent x y) : Equivalent x fun k => y (k + 1) :=
  ⟨fun n => (h.forth n).sooner, fun n => h.back (n + 1)⟩

/-- The second family may take one unit of fuel more, if it does nothing without fuel. -/
theorem later (h : Equivalent x fun k => y (k + 1)) (idle : y 0 = throw .exhausted) :
    Equivalent x y where
  forth n := (h.forth n).later
  back n := by
    cases n with
    | zero => rw [idle]; exact .exhausted
    | succ n => exact h.back n

/-- Both families may take one unit of fuel more. -/
theorem step (h : Equivalent (fun k => x (k + 1)) fun k => y (k + 1))
    (idle : x 0 = throw .exhausted) (idle' : y 0 = throw .exhausted) : Equivalent x y :=
  ((h.later idle').symm.later idle).symm

/-- Equivalent families, one after the other, are equivalent. -/
theorem bind {f g : Nat → α → Eval β} (h : Equivalent x y)
    (next : ∀ a, Equivalent (fun k => f k a) fun k => g k a) :
    Equivalent (fun k => x k >>= f k) fun k => y k >>= g k :=
  ⟨fun n => (h.forth n).bind fun a => (next a).forth n,
    fun n => (h.back n).bind fun a => (next a).back n⟩

/-- What is made of the value does not matter. -/
theorem map (f : α → β) (h : Equivalent x y) :
    Equivalent (fun k => f <$> x k) fun k => f <$> y k :=
  ⟨fun n => (h.forth n).map f, fun n => (h.back n).map f⟩

/-- A choice between equivalent families is one of equivalent families. -/
theorem ite {c : Prop} [Decidable c] {x' y' : Nat → Eval α} (h : Equivalent x y)
    (h' : Equivalent x' y') :
    Equivalent (fun k => if c then x k else x' k) fun k => if c then y k else y' k :=
  ⟨fun n => (h.forth n).ite (h'.forth n), fun n => (h.back n).ite (h'.back n)⟩

/-- Going through the values of a loop with equivalent passes is equivalent. -/
theorem forEachItem {step step' : Nat → Value → Eval Bool}
    (h : ∀ v, Equivalent (fun k => step k v) fun k => step' k v) (vs : List Value) :
    Equivalent (fun k => Eval.forEachItem (step k) vs) fun k => Eval.forEachItem (step' k) vs :=
  ⟨fun n => .forEachItem (fun v => (h v).forth n) vs,
    fun n => .forEachItem (fun v => (h v).back n) vs⟩

/-- Repeating equivalent passes is equivalent. -/
theorem repeating {step step' : Nat → Eval Bool} (h : Equivalent step step') :
    Equivalent (fun k => Eval.repeating (step k) k) fun k => Eval.repeating (step' k) k :=
  ⟨fun n => .repeating (h.forth n) n, fun n => .repeating (h.back n) n⟩

/-- Passes of equivalent bodies are equivalent. -/
theorem pass {labels : List Text} {x y : Nat → Eval Unit} (h : Equivalent x y) :
    Equivalent (fun k => Eval.pass labels (x k)) fun k => Eval.pass labels (y k) :=
  ⟨fun n => (h.forth n).pass, fun n => (h.back n).pass⟩

/-- So are labeled statements of equivalent bodies. -/
theorem labeled {labels : List Text} {x y : Nat → Eval Unit} (h : Equivalent x y) :
    Equivalent (fun k => Eval.labeled labels (x k)) fun k => Eval.labeled labels (y k) :=
  ⟨fun n => (h.forth n).labeled, fun n => (h.back n).labeled⟩

end Equivalent

/-- An evaluation that ends with two amounts of fuel ends in the same way with both. -/
theorem Equivalent.unique {x : Nat → Eval α} (h : Equivalent x x) {fuel fuel' : Nat} {m : Machine}
    (ends : Conclusive (x fuel m)) (ends' : Conclusive (x fuel' m)) : x fuel m = x fuel' m := by
  obtain ⟨n, settled⟩ := h.forth fuel m ends
  obtain ⟨n', settled'⟩ := h.forth fuel' m ends'
  exact (settled (max n n') (Nat.le_max_left n n')).symm.trans
    (settled' (max n n') (Nat.le_max_right n n'))

end TailLoop.Eval
