import TailLoop.Proofs.Simulation.Stores

/-!
# Runs that agree

`Sim w frames P E x y` compares an evaluation `x` of the program with an evaluation `y` of the
rewritten program: from machines that match, when `x` ends, `y` ends as well, with the same value,
or interrupted in a way that `E` relates. The rewritten program needs other fuel than the program,
so that `y` is a family of evaluations by fuel, and what it does is what it does with any fuel that
is large enough.

The rules of this module follow the ways in which evaluations are put together: one after the other,
for each item of a list, and again and again. They are all that later proofs need to know about
`Sim`, apart from the few places where the two runs do different things.
-/

namespace TailLoop.Simulation

open Eval

/-- The machines of two runs. -/
structure Matches (w : World) (frames : List Frame) (m m' : Machine) : Prop where
  stores : Alike w frames m.store m'.store
  strict : m'.strict = m.strict
  mode : ∀ f ∈ frames.head?, m.strict = f.strict
  depth : m'.depth ≤ m.depth
  exact : w.loops = false → m'.depth = m.depth

/-- The machines match as well after both stores have changed. -/
theorem Matches.withStores {w : World} {frames : List Frame} {m m' : Machine} {s s' : Store}
    (h : Matches w frames m m') (stores : Alike w frames s s') :
    Matches w frames { m with store := s } { m' with store := s' } :=
  ⟨stores, h.strict, h.mode, h.depth, h.exact⟩

/-- The machines with another frame for the same activations. -/
theorem Matches.reframe {w : World} {frames : List Frame} {f f' : Frame} {m m' : Machine}
    {s s' : Store} (hm : Matches w (f :: frames) m m') (stores : Alike w (f' :: frames) s s')
    (strict : f'.strict = f.strict) :
    Matches w (f' :: frames) { m with store := s } { m' with store := s' } where
  stores := stores
  strict := hm.strict
  mode := by
    have mode := hm.mode f rfl
    simpa [strict] using mode
  depth := hm.depth
  exact := hm.exact

/-- The machines match as well if less is known of the variables that nothing may give a value. -/
theorem Matches.forget {w : World} {frames : List Frame} {f : Frame} {xs ys : List Text}
    {m m' : Machine} (h : Matches w (f.leaving xs :: frames) m m') (fewer : ys ⊆ xs) :
    Matches w (f.leaving ys :: frames) m m' :=
  h.reframe (h.stores.forget fewer) rfl

/-- An interrupt of the program is compared, unless the fuel was used up. Where functions may have
become loops, it is not compared either when calls were nested too deeply. -/
def World.Compares (w : World) : Interrupt → Prop
  | .exhausted => False
  | .failed .stackOverflow => w.loops = false
  | _ => True

/-- A result of the program is compared. -/
def Counts (w : World) {α : Type} (r : EStateM.Result Interrupt Machine α) : Prop :=
  ∀ e m, r = .error e m → w.Compares e

/-- A relation between the interrupts of two runs, each with the machine it leaves. -/
abbrev Ending := Interrupt → Machine → Interrupt → Machine → Prop

/-- Two results agree: the values are the same and have a property, or the interrupts are related. -/
inductive Agree (w : World) (frames : List Frame) {α : Type} (P : α → Prop) (E : Ending) :
    EStateM.Result Interrupt Machine α → EStateM.Result Interrupt Machine α → Prop where
  | ok {a m m'} (value : P a) (machines : Matches w frames m m') :
    Agree w frames P E (.ok a m) (.ok a m')
  | error {e e' m m'} (ends : E e m e' m') : Agree w frames P E (.error e m) (.error e' m')

/-- What `Sim` says at two machines. -/
def SimAt (w : World) (frames : List Frame) {α : Type} (P : α → Prop) (E : Ending) (x : Eval α)
    (y : Nat → Eval α) (m m' : Machine) : Prop :=
  Counts w (x m) → ∃ n r', (∀ k, n ≤ k → y k m' = r') ∧ Agree w frames P E (x m) r'

/-- Whenever `x` ends, `y` ends in agreement with it, from any machines that match. -/
def Sim (w : World) (frames : List Frame) {α : Type} (P : α → Prop) (E : Ending) (x : Eval α)
    (y : Nat → Eval α) : Prop :=
  ∀ m m', Matches w frames m m' → SimAt w frames P E x y m m'

/-- Both runs are interrupted in the same way, which satisfies `A`. -/
def Same (w : World) (frames : List Frame) (A : Interrupt → Prop) : Ending := fun e m e' m' =>
  e' = e ∧ A e ∧ Matches w frames m m'

/-- Whether an interrupt is an error. -/
def IsFailure (e : Interrupt) : Prop := ∃ error, e = .failed error

/-- Both runs fail with the same error. -/
abbrev Fails (w : World) (frames : List Frame) : Ending := Same w frames IsFailure

section Rules

variable {w : World} {frames : List Frame} {α β : Type} {P : α → Prop} {Q : β → Prop} {E : Ending}

/-! ## One evaluation -/

/-- Results that agree do so in a weaker sense. -/
theorem Agree.mono {P' : α → Prop} {E' : Ending} {r r' : EStateM.Result Interrupt Machine α}
    (h : Agree w frames P E r r') (hP : ∀ a, P a → P' a)
    (hE : ∀ e m e' m', E e m e' m' → E' e m e' m') : Agree w frames P' E' r r' := by
  cases h with
  | ok value machines => exact .ok (hP _ value) machines
  | error ends => exact .error (hE _ _ _ _ ends)

/-- So do runs. -/
theorem Sim.mono {P' : α → Prop} {E' : Ending} {x : Eval α} {y : Nat → Eval α}
    (h : Sim w frames P E x y) (hP : ∀ a, P a → P' a)
    (hE : ∀ e m e' m', E e m e' m' → E' e m e' m') : Sim w frames P' E' x y := by
  intro m m' hm counts
  obtain ⟨n, r', settled, agree⟩ := h m m' hm counts
  exact ⟨n, r', settled, agree.mono hP hE⟩

/-- What is known of the values may be forgotten. -/
theorem Sim.weaken {P' : α → Prop} {x : Eval α} {y : Nat → Eval α} (h : Sim w frames P E x y)
    (hP : ∀ a, P a → P' a) : Sim w frames P' E x y :=
  h.mono hP fun _ _ _ _ => id

/-- Nothing is said about an evaluation that runs out of fuel. -/
theorem Sim.exhausted {y : Nat → Eval α} : Sim w frames P E (throw .exhausted) y :=
  fun m _ _ counts => (counts .exhausted m rfl).elim

/-- A run that is out of fuel agrees with every other. -/
theorem Sim.exhausted_bind {f : β → Eval α} {y : Nat → Eval α} :
    Sim w frames P E (throw .exhausted >>= f) y :=
  fun m _ _ counts => (counts .exhausted m rfl).elim

/-- The rewritten program may take one unit of fuel more. -/
theorem Sim.later {x : Eval α} {y : Nat → Eval α} (h : Sim w frames P E x fun k => y (k + 1)) :
    Sim w frames P E x y := by
  intro m m' hm counts
  obtain ⟨n, r', settled, agree⟩ := h m m' hm counts
  refine ⟨n + 1, r', fun k hk => ?_, agree⟩
  obtain ⟨j, rfl⟩ : ∃ j, k = j + 1 := ⟨k - 1, by omega⟩
  exact settled j (by omega)

/-- What the rewritten program does with enough fuel, it does with more. -/
theorem Sim.sooner {x : Eval α} {y : Nat → Eval α} (h : Sim w frames P E x y) :
    Sim w frames P E x fun k => y (k + 1) := by
  intro m m' hm counts
  obtain ⟨n, r', settled, agree⟩ := h m m' hm counts
  exact ⟨n, r', fun k hk => settled (k + 1) (by omega), agree⟩

/-- The same value is given in both runs. -/
theorem Sim.pure {a : α} (ha : P a) :
    Sim w frames P E (Pure.pure a) fun _ => Pure.pure a :=
  fun _ _ hm _ => ⟨0, _, fun _ _ => rfl, .ok ha hm⟩

/-- Both runs end with interrupts that may end them. -/
theorem Sim.throw {e e' : Interrupt} (h : ∀ m m', Matches w frames m m' → E e m e' m') :
    Sim w frames P E (MonadExcept.throw e) fun _ => MonadExcept.throw e' :=
  fun m m' hm _ => ⟨0, _, fun _ _ => rfl, .error (h m m' hm)⟩

/-- Both runs end with the same error. -/
theorem Sim.fail (error : RuntimeError) :
    Sim w frames P (Fails w frames) (fail error) fun _ => fail error :=
  .throw fun _ _ hm => ⟨rfl, ⟨error, rfl⟩, hm⟩

/-- After a value comes what is done with it. -/
theorem bind_of_ok {x : Eval α} {f : α → Eval β} {a : α} {m m1 : Machine} (h : x m = .ok a m1) :
    (x >>= f) m = f a m1 := by
  change EStateM.bind x f m = _
  rw [EStateM.bind, h]

/-- After an interrupt comes nothing more. -/
theorem bind_of_error {x : Eval α} {f : α → Eval β} {e : Interrupt} {m m1 : Machine}
    (h : x m = .error e m1) : (x >>= f) m = .error e m1 := by
  change EStateM.bind x f m = _
  rw [EStateM.bind, h]

/-- What is done with the machine is done with the one that is there. -/
theorem get_bind {α : Type} (f : Machine → Eval α) (m : Machine) : (get >>= f) m = f m m := rfl

/-- A change of the store gives its value and the new store. -/
theorem changeGet_eq (f : Store → α × Store) (store : Store) (depth : Nat) (strict : Bool) :
    changeGet f ⟨store, depth, strict⟩ = .ok (f store).1 ⟨(f store).2, depth, strict⟩ := rfl

/-- An evaluation is compared as far as its first part is. -/
theorem counts_of_bind {x : Eval α} {f : α → Eval β} {m : Machine}
    (h : Counts w ((x >>= f) m)) : Counts w (x m) :=
  fun e m1 hx => h e m1 (bind_of_error hx)

/-- From two given machines, runs agree one after the other. The first ones may run with other frames,
where what holds of their ends holds with the frames of the whole. -/
theorem SimAt.andThen {frames' : List Frame} {E' : Ending} {x : Eval α} {y : Nat → Eval α}
    {f : α → Eval β} {g : Nat → α → Eval β} {m m' : Machine}
    (first : SimAt w frames' P E' x y m m') (ends : ∀ e m e' m', E' e m e' m' → E e m e' m')
    (next : ∀ a m m', P a → Matches w frames' m m' → SimAt w frames Q E (f a) (fun k => g k a) m m') :
    SimAt w frames Q E (x >>= f) (fun k => y k >>= g k) m m' := by
  intro counts
  obtain ⟨n, r', settled, agree⟩ := first (counts_of_bind counts)
  -- If the first part ends the run, so it does on the other side; otherwise the second parts start
  -- from machines that match.
  cases hx : x m with
  | error e m1 =>
    rw [hx] at agree
    cases agree with
    | error ended =>
      rw [bind_of_error hx]
      exact ⟨n, _, fun k hk => bind_of_error (settled k hk), .error (ends _ _ _ _ ended)⟩
  | ok a m1 =>
    rw [hx] at agree
    rw [bind_of_ok hx] at counts ⊢
    cases agree with
    | ok value machines =>
      obtain ⟨n2, r2, settled2, agree2⟩ := next a _ _ value machines counts
      refine ⟨max n n2, r2, fun k hk => ?_, agree2⟩
      exact (bind_of_ok (settled k (by omega))).trans (settled2 k (by omega))

/-- From two given machines, runs agree one after the other. -/
theorem SimAt.bind {x : Eval α} {y : Nat → Eval α} {f : α → Eval β} {g : Nat → α → Eval β}
    {m m' : Machine} (first : SimAt w frames P E x y m m')
    (next : ∀ a, P a → Sim w frames Q E (f a) fun k => g k a) :
    SimAt w frames Q E (x >>= f) (fun k => y k >>= g k) m m' :=
  first.andThen (fun _ _ _ _ => id) fun a _ _ value machines => next a value _ _ machines

/-- What matters of the rewritten program is what it does with enough fuel. -/
theorem SimAt.congr {x : Eval α} {y : Nat → Eval α} {m m' : Machine}
    (h : SimAt w frames P E x y m m') (y' : Nat → Eval α) (d : Nat)
    (same : ∀ k, y' (k + d) m' = y (k + d) m') :
    SimAt w frames P E x y' m m' := by
  intro counts
  obtain ⟨n, r', settled, agree⟩ := h counts
  refine ⟨n + d, r', fun k hk => ?_, agree⟩
  obtain ⟨j, rfl⟩ : ∃ j, k = j + d := ⟨k - d, by omega⟩
  rw [same, settled _ (by omega)]

/-- Runs that agree do so one after the other. -/
theorem Sim.bind {x : Eval α} {y : Nat → Eval α} {f : α → Eval β} {g : Nat → α → Eval β}
    (first : Sim w frames P E x y) (next : ∀ a, P a → Sim w frames Q E (f a) fun k => g k a) :
    Sim w frames Q E (x >>= f) fun k => y k >>= g k :=
  fun m m' hm => (first m m' hm).bind next

/-- An evaluation that looks at the machine first. -/
theorem Sim.get {f : Machine → Eval α} {g : Nat → Machine → Eval α}
    (h : ∀ m m', Matches w frames m m' → SimAt w frames P E (f m) (fun k => g k m') m m') :
    Sim w frames P E (MonadState.get >>= f) fun k => MonadState.get >>= g k :=
  fun m m' hm => h m m' hm

/-- The same choice is made in both runs. -/
theorem Sim.ite {c : Prop} [Decidable c] {x x' : Eval α} {y y' : Nat → Eval α}
    (yes : c → Sim w frames P E x y) (no : ¬c → Sim w frames P E x' y') :
    Sim w frames P E (if c then x else x') fun k => if c then y k else y' k := by
  by_cases h : c
  · simpa [h] using yes h
  · simpa [h] using no h

/-- A computation on the store that gives the same in both. -/
theorem Sim.read {f : Store → Except RuntimeError α}
    (same : ∀ s s', Alike w frames s s' → f s' = f s)
    (value : ∀ s s' a, Alike w frames s s' → f s = .ok a → P a) :
    Sim w frames P (Fails w frames) (read f) fun _ => read f := by
  refine Sim.get fun m m' hm => ?_
  simp only [same _ _ hm.stores]
  cases found : f m.store with
  | ok a => exact Sim.pure (value _ _ a hm.stores found) m m' hm
  | error e => exact Sim.fail e m m' hm

/-- A change that gives the same result in both stores and leaves them alike. -/
theorem Sim.changeGet {f : Store → α × Store}
    (h : ∀ s s', Alike w frames s s' →
      P (f s).1 ∧ (f s').1 = (f s).1 ∧ Alike w frames (f s).2 (f s').2) :
    Sim w frames P E (changeGet f) fun _ => changeGet f := by
  intro m m' hm _
  obtain ⟨store, depth, strict⟩ := m
  obtain ⟨store', depth', strict'⟩ := m'
  obtain ⟨value, same, stores⟩ := h store store' hm.stores
  refine ⟨0, .ok (f store).1 ⟨(f store').2, depth', strict'⟩, fun _ _ => ?_, ?_⟩
  · rw [← same]
    rfl
  · exact .ok value (hm.withStores stores)

/-- A change that keeps stores alike is made in both runs. -/
theorem Sim.change {f : Store → Store}
    (h : ∀ s s', Alike w frames s s' → Alike w frames (f s) (f s')) :
    Sim w frames (fun _ => True) E (change f) fun _ => change f :=
  fun _ _ hm _ =>
    ⟨0, _, fun _ _ => rfl, .ok trivial (hm.withStores (h _ _ hm.stores))⟩

/-- An outcome that was there before is the same in both runs. -/
theorem Sim.ofExcept {e : Except RuntimeError α} (value : ∀ a, e = .ok a → P a) :
    Sim w frames P (Fails w frames) (ofExcept e) fun _ => ofExcept e := by
  cases e with
  | ok a => exact .pure (value a rfl)
  | error e => exact .fail e

/-! ## Several evaluations -/

/-- A list is gone through alike if its steps agree. -/
theorem Sim.mapM {l : List β} {f : β → Eval α} {g : Nat → β → Eval α}
    (h : ∀ b ∈ l, Sim w frames P E (f b) fun k => g k b) :
    Sim w frames (fun as => ∀ a ∈ as, P a) E (l.mapM f) fun k => l.mapM (g k) := by
  induction l with
  | nil => exact .pure (by simp)
  | cons b l ih =>
    rw [List.forall_mem_cons] at h
    simp only [List.mapM_cons]
    refine .bind h.1 fun a ha => .bind (ih h.2) fun as has => .pure ?_
    rw [List.forall_mem_cons]
    exact ⟨ha, has⟩

/-- So it is with a value that is handed on. -/
theorem Sim.foldlM {l : List β} {f : α → β → Eval α} {g : Nat → α → β → Eval α} {a : α}
    (ha : P a) (h : ∀ b ∈ l, ∀ a, P a → Sim w frames P E (f a b) fun k => g k a b) :
    Sim w frames P E (l.foldlM f a) fun k => l.foldlM (g k) a := by
  induction l generalizing a with
  | nil => exact .pure ha
  | cons b l ih =>
    rw [List.forall_mem_cons] at h
    simp only [List.foldlM_cons]
    exact .bind (h.1 a ha) fun a' ha' => ih ha' h.2

/-- The values of a loop are gone through alike if its passes agree. -/
theorem Sim.forEachItem {vs : List Value} {step : Value → Eval Bool}
    {step' : Nat → Value → Eval Bool}
    (h : ∀ v ∈ vs, Sim w frames (fun _ => True) E (step v) fun k => step' k v) :
    Sim w frames (fun _ => True) E (forEachItem step vs) fun k => forEachItem (step' k) vs := by
  induction vs with
  | nil => exact .pure trivial
  | cons v vs ih =>
    rw [List.forall_mem_cons] at h
    simp only [Eval.forEachItem]
    exact .bind h.1 fun goesOn _ => .ite (fun _ => ih h.2) fun _ => .pure trivial

/-- Passes of a loop: the two fuels of the rewritten program, that of a pass and that for the number
of passes, both have to be large enough. -/
theorem Sim.repeating {step : Eval Bool} {step' : Nat → Eval Bool}
    (h : Sim w frames (fun _ => True) E step step') (fuel : Nat) :
    Sim w frames (fun _ => True) E (repeating step fuel) fun k => repeating (step' k) k := by
  -- The fuel of the second program bounds its passes as well. At first the two are taken apart, so
  -- that one pass less can be left to the rest.
  have both : ∀ m m', Matches w frames m m' → Counts w (Eval.repeating step fuel m) →
      ∃ n r', (∀ k j, n ≤ k → n ≤ j → Eval.repeating (step' k) j m' = r') ∧
        Agree w frames (fun _ => True) E (Eval.repeating step fuel m) r' := by
    induction fuel with
    | zero => exact fun m _ _ counts => (counts .exhausted m rfl).elim
    | succ fuel ih =>
      intro m m' hm counts
      obtain ⟨n, r', settled, agree⟩ := h m m' hm (counts_of_bind counts)
      cases hx : step m with
      | error e m1 =>
        rw [hx] at agree
        cases agree with
        | @error _ e' _ m1' ends =>
          refine ⟨n + 1, .error e' m1', fun k j hk hj => ?_, ?_⟩
          · obtain ⟨i, rfl⟩ : ∃ i, j = i + 1 := ⟨j - 1, by omega⟩
            exact bind_of_error (settled k (by omega))
          · rw [Eval.repeating, bind_of_error hx]
            exact .error ends
      | ok goesOn m1 =>
        rw [hx] at agree
        rw [Eval.repeating, bind_of_ok hx] at counts ⊢
        cases agree with
        | @ok _ _ m1' value machines =>
          cases goesOn with
          | false =>
            refine ⟨n + 1, .ok () m1', fun k j hk hj => ?_, .ok trivial machines⟩
            obtain ⟨i, rfl⟩ : ∃ i, j = i + 1 := ⟨j - 1, by omega⟩
            exact bind_of_ok (settled k (by omega))
          | true =>
            obtain ⟨n2, r2, settled2, agree2⟩ := ih m1 m1' machines counts
            refine ⟨max n n2 + 1, r2, fun k j hk hj => ?_, agree2⟩
            obtain ⟨i, rfl⟩ : ∃ i, j = i + 1 := ⟨j - 1, by omega⟩
            rw [Eval.repeating, bind_of_ok (settled k (by omega))]
            exact settled2 k i (by omega) (by omega)
  intro m m' hm counts
  obtain ⟨n, r', settled, agree⟩ := both m m' hm counts
  exact ⟨n, r', fun k hk => settled k k hk hk, agree⟩

end Rules

end TailLoop.Simulation
