import TailLoop.Proofs.Simulation.Staging

/-!
# Parameters after a converted call

The assignments in the place of a tail call give every parameter the value that the call would have
bound it to (`callAssignments_rebind`). An argument that is its own parameter is not assigned, and
constants are assigned after everything else: so no other argument may disturb what they stand for
(`Undisturbed`).
-/

namespace TailLoop.Simulation

open Eval Validity Elimination

/-- The arguments of a call are evaluated one after the other from this machine on. None has to do
with the temporaries, and a parameter that is its own argument has the value in `last` that it has
when the argument is evaluated. -/
def Undisturbed (limit fuel env : Nat) (temporaries : List Text) (last : Machine) :
    List Text → List Tree → Machine → Prop
  | x :: xs, e :: es, m =>
    Ignores temporaries env (evaluate limit fuel env e) m ∧
      (isIdentifier x e = true → last.store.lookup? env x = m.store.lookup? env x) ∧
      ∀ v m', evaluate limit fuel env e m = .ok v m' →
        Undisturbed limit fuel env temporaries last xs es m'
  | _, _, _ => True

/-! ## Binding parameters -/

/-- The variables that an environment binds have the values of its bindings. -/
theorem exists_bindings {s : Store} {env : Nat} {names : List Text} (bound : s.Binds env names) :
    ∃ b : Bindings, ∀ x ∈ names, s.lookup? env x = b.lookup x := by
  refine ⟨((s.environments[env]?).map (·.bindings)).getD [], fun x hx => ?_⟩
  rw [Store.lookup?, Store.resolve?_of_declares (bound x hx), Option.bind_some]
  cases s.environments[env]? <;> rfl

/-- Binding parameters is declaring each with its argument. -/
theorem bindParameters_eq {ps : List Tree} {xs : List Text} (params : List.Forall₂ IsParameter ps xs)
    (env : Nat) (vs : List Value) (m : Machine) :
    bindParameters env ps vs m = .ok () (m.setEach env (padded .undefined xs vs)) := by
  induction params generalizing vs m with
  | nil => rfl
  | cons param _ ih =>
    obtain ⟨l, rfl⟩ := param
    rw [bindParameters]
    exact ih vs.tail _

/-- What has been declared in an environment without bindings. -/
theorem environments_setEach {s : Store} {env : Nat} {e : Environment}
    (here : s.environments[env]? = some e) (entries : List (Text × Value)) :
    (s.setEach env entries).environments[env]? =
      some { e with bindings := putAll entries e.bindings } := by
  induction entries generalizing s e with
  | nil => exact here
  | cons entry entries ih =>
    refine ih (s := s.declare env entry.1 entry.2) (e := e.bind entry.1 entry.2) ?_
    rw [environments_declare, if_pos rfl, here]
    rfl

/-- A parameter has the value of its argument in a new activation. -/
theorem lookup?_new_activation (s : Store) (parent : Nat) {entries : List (Text × Value)}
    (distinct : (entries.map (·.1)).Nodup) {e : Text × Value} (he : e ∈ entries) :
    ((s.child parent).2.setEach s.environments.size entries).lookup? s.environments.size e.1 =
      some e.2 := by
  have here : (s.child parent).2.environments[s.environments.size]? = some ⟨some parent, []⟩ :=
    Array.getElem?_push_size
  have there := environments_setEach here entries
  have found := lookup_putAll_of_mem distinct he []
  have declared : ((s.child parent).2.setEach s.environments.size entries).declares
      s.environments.size e.1 = true := by
    rw [Store.declares, there]
    exact Option.isSome_of_eq_some found
  rw [Store.lookup?, Store.resolve?_of_declares declared, Option.bind_some, there]
  exact found

/-! ## Arguments and their values -/

/-- A list is gone through by its first item and the others. -/
theorem mapM_cons_of_ok {act : Tree → Eval Value} {e : Tree} {es : List Tree} {v : Value}
    {vs : List Value} {m m1 m2 : Machine} (first : act e m = .ok v m1)
    (rest : es.mapM act m1 = .ok vs m2) : (e :: es).mapM act m = .ok (v :: vs) m2 := by
  rw [List.mapM_cons, bind_of_ok first, bind_of_ok rest]
  rfl

/-- The arguments of a call with their values, for some of the parameters: they are evaluated from
this machine on, and then the machine is `last`. -/
inductive Passed (limit k env : Nat) (names : List Text) (last : Machine) :
    List Text → List Tree → List Value → Machine → Prop where
  | done : Passed limit k env names last [] [] [] last
  /-- A parameter without an argument is undefined. -/
  | missing {x xs} (change : isChange (x, .undefined) = true)
      (rest : Passed limit k env names last xs [] [] last) :
    Passed limit k env names last (x :: xs) [] [] last
  /-- An argument that is its own parameter is read. -/
  | kept {x xs e es v vs m} (same : isChange (x, e) = false)
      (here : m.store.lookup? env x = some v) (there : last.store.lookup? env x = some v)
      (rest : Passed limit k env names last xs es vs m) :
    Passed limit k env names last (x :: xs) (e :: es) (v :: vs) m
  /-- Any other argument is evaluated. -/
  | given {x xs e es v vs m m'} (change : isChange (x, e) = true)
      (wellFormed : ∃ checked c, WellFormed checked c e)
      (value : evaluate limit (k + 1) env e m = .ok v m')
      (ignored : Ignores names env (evaluate limit (k + 1) env e) m)
      (stays : ∀ ys, m.store.Binds env ys → m'.store.Binds env ys)
      (rest : Passed limit k env names last xs es vs m') :
    Passed limit k env names last (x :: xs) (e :: es) (v :: vs) m

section Arguments

variable {limit k env : Nat} {m last : Machine} {names : List Text} {x : Text} {xs : List Text}
  {e : Tree} {es : List Tree} {vs : List Value}

/-- Names without arguments are passed nothing, up to the last machine. -/
theorem passed_missing (unnamed : Tree.undefinedName ∉ xs) :
    Passed limit k env names last xs [] [] last := by
  induction xs with
  | nil => exact .done
  | cons x xs ih =>
    rw [List.mem_cons, not_or] at unnamed
    refine .missing ?_ (ih unnamed.2)
    simp [isChange, isIdentifier, Tree.undefined, Tree.identifier, Tree.new, Tree.identifierName?,
      unnamed.1]

/-- The arguments of a call in an activation. -/
theorem passed (few : es.length ≤ xs.length) (wellFormed : ∀ e ∈ es, ∃ checked c,
    WellFormed checked c e)
    (unnamed : Tree.undefinedName ∉ xs) (chained : m.store.Chained)
    (inside : env < m.store.environments.size)
    (evaluated : es.mapM (evaluate limit (k + 1) env) m = .ok vs last)
    (undisturbed : Undisturbed limit (k + 1) env names last xs es m) :
    Passed limit k env names last xs es vs m := by
  -- On the arguments in their order, each evaluated where the ones before it have left off.
  induction es generalizing xs vs m with
  | nil =>
    cases evaluated
    exact passed_missing unnamed
  | cons e es ih =>
    cases xs with
    | nil => cases few
    | cons x xs =>
      obtain ⟨ignored, kept, next⟩ := undisturbed
      rw [List.forall_mem_cons] at wellFormed
      rw [List.mapM_cons] at evaluated
      cases first : evaluate limit (k + 1) env e m with
      | error error m1 =>
        rw [bind_of_error first] at evaluated
        cases evaluated
      | ok v m1 =>
        rw [bind_of_ok first] at evaluated
        cases others : es.mapM (evaluate limit (k + 1) env) m1 with
        | error error m2 =>
          rw [bind_of_error others] at evaluated
          cases evaluated
        | ok us m2 =>
          rw [bind_of_ok others] at evaluated
          cases evaluated
          obtain ⟨-, chained', grown⟩ :=
            binds_of_evaluate chained inside (show m.store.Binds env [] from nofun) first
          have rest := ih (Nat.le_of_succ_le_succ few) wellFormed.2
            (fun named => unnamed (List.mem_cons_of_mem x named)) chained'
            (Nat.lt_of_lt_of_le inside grown) others (next v m1 first)
          cases change : isChange (x, e) with
          | true =>
            exact .given change wellFormed.1 first ignored
              (fun _ bound => (binds_of_evaluate chained inside bound first).1) rest
          | false =>
            have own : isIdentifier x e = true := by simpa [isChange] using change
            obtain ⟨l, rfl⟩ := isIdentifier_iff.mp own
            rw [evaluate] at first
            obtain ⟨here, rfl⟩ := readName_ok first
            exact .kept change here ((kept own).trans here) rest

/-- Names that are bound when the arguments are passed are bound afterwards. -/
theorem Passed.binds (h : Passed limit k env names last xs es vs m) {ys : List Text}
    (bound : m.store.Binds env ys) : last.store.Binds env ys := by
  induction h with
  | done | missing => exact bound
  | kept same here there rest ih => exact ih bound
  | given change wellFormed value ignored stays rest ih => exact ih (stays ys bound)

/-! ## Staged assignments -/

/-- One more value is put into a temporary, and then the others. -/
theorem stage_next {y : Text} {v : Value} {m' : Machine} {rest : List (Text × Tree)}
    {more entries : List (Text × Value)}
    (value : evaluate limit (k + 1) env e (m.setEach env entries) = .ok v (m'.setEach env entries))
    (bound : m'.store.Binds env names) (hy : y ∈ names) (among : ∀ e ∈ entries, e.1 ∈ names)
    (others : ∀ {entries : List (Text × Value)}, (∀ e ∈ entries, e.1 ∈ names) →
      assignEach limit (k + 1) env rest (m'.setEach env entries) =
        .ok () (last.setEach env (entries ++ more))) :
    assignEach limit (k + 1) env ((y, e) :: rest) (m.setEach env entries) =
      .ok () (last.setEach env (entries ++ (y, v) :: more)) := by
  -- The value goes after the entries that were set before, and the rest is staged from there.
  have binds : (m'.setEach env entries).store.declares env y = true := by
    rw [Machine.setEach, Store.declares_setEach (binds_entries bound among)]
    exact bound y hy
  have written := writeName_bound binds none v
  rw [← Machine.setEach_append] at written
  have among' : ∀ e ∈ entries ++ [(y, v)], e.1 ∈ names :=
    List.forall_mem_append.mpr ⟨among, List.forall_mem_singleton.mpr hy⟩
  have first : (do
      let v ← evaluate limit (k + 1) env e
      writeName env (.text y) none v : Eval Unit) (m.setEach env entries) =
        .ok () (m'.setEach env (entries ++ [(y, v)])) :=
    (bind_of_ok value).trans written
  have rest := others among'
  rw [List.append_assoc] at rest
  exact (bind_of_ok first).trans rest

/-- Evaluating arguments into temporaries. -/
theorem Passed.staged {name : Text → Text} (h : Passed limit k env names last xs es vs m)
    (bound : m.store.Binds env names) (named : ∀ x ∈ xs, name x ∈ names)
    (unnamed : Tree.undefinedName ∉ names)
    (known : last.store.lookup? env Tree.undefinedName = some .undefined)
    {entries : List (Text × Value)} (among : ∀ e ∈ entries, e.1 ∈ names) :
    assignEach limit (k + 1) env ((changed xs es).map fun e => (name e.1, e.2))
        (m.setEach env entries) =
      .ok () (last.setEach env (entries ++ (updates xs es vs).map fun e => (name e.1, e.2))) := by
  -- By induction on the arguments, as they were evaluated: each temporary is set where its argument
  -- was evaluated.
  induction h generalizing entries with
  | done =>
    exact congrArg (fun all => EStateM.Result.ok () (last.setEach env all))
      (List.append_nil entries).symm
  | @missing x xs change rest ih =>
    rw [List.forall_mem_cons] at named
    have value : evaluate limit (k + 1) env .undefined (last.setEach env entries) =
        .ok .undefined (last.setEach env entries) := by
      rw [Tree.undefined, Tree.identifier, Tree.new, evaluate]
      refine readName_of_lookup? none ?_
      rw [Machine.setEach, Store.lookup?_setEach_of_notMem (binds_entries bound among)
        (notMem_entries unnamed among), known]
    rw [changed_cons_of_change _ change, updates_cons_of_change change]
    exact stage_next value bound named.1 among fun more => ih bound named.2 more
  | kept same here there rest ih =>
    rw [changed_cons_of_same _ same, updates_cons_of_same same]
    exact ih bound (List.forall_mem_cons.mp named).2 among
  | given change wellFormed value ignored stays rest ih =>
    rw [List.forall_mem_cons] at named
    have bound' := stays names bound
    have value := (ignored entries among).trans (congrArg _ value)
    rw [changed_cons_of_change _ change, updates_cons_of_change change]
    exact stage_next value bound' named.1 among fun more => ih bound' named.2 more

/-- All changes are put into temporaries, and then the parameters take over what these hold. -/
theorem Passed.staged_forM {name : Text → Text} (h : Passed limit k env names last xs es vs m)
    (boundParams : m.store.Binds env xs) (bound : m.store.Binds env names)
    (distinct : (xs.map name).Nodup) (named : ∀ x ∈ xs, name x ∈ names) (apart : ∀ t ∈ names, t ∉ xs)
    (unnamed : Tree.undefinedName ∉ names)
    (known : last.store.lookup? env Tree.undefinedName = some .undefined) :
    (assignEach limit (k + 1) env ((changed xs es).map fun e => (name e.1, e.2)) >>= fun _ =>
        assignEach limit (k + 1) env
          ((changed xs es).map fun e => (e.1, Tree.identifier (name e.1)))) m =
      .ok () ((last.setEach env ((updates xs es vs).map fun e => (name e.1, e.2))).setEach env
        (updates xs es vs)) := by
  have sublist := updates_sublist xs es vs
  have staged := h.staged bound named unnamed known (List.forall_mem_nil _)
  -- The changed rows have the keys of the updates, so that the rows that are read back are those of
  -- the updates.
  have back : (changed xs es).map (fun e => (e.1, Tree.identifier (name e.1))) =
      (updates xs es vs).map fun u => (u.1, Tree.identifier (name u.1)) := by
    have keys := congrArg (List.map fun x => (x, Tree.identifier (name x)))
      (map_fst_updates xs es vs).symm
    simpa only [List.map_map, Function.comp_def] using keys
  have temporaries : (updates xs es vs).map (fun u => name u.1) =
      ((updates xs es vs).map (·.1)).map name := by
    simp [Function.comp_def]
  have unstaged : assignEach limit (k + 1) env
      ((updates xs es vs).map fun u => (u.1, Tree.identifier (name u.1)))
        (last.setEach env ((updates xs es vs).map fun u => (name u.1, u.2))) = _ :=
    unstage_rows (fun x hx => h.binds boundParams x (sublist.subset hx))
      (List.forall_mem_map.mpr fun u hu =>
        h.binds bound _ (named _ (sublist.subset (List.mem_map_of_mem hu))))
      (temporaries ▸ distinct.sublist (sublist.map name))
      (fun u hu taken => apart _ (named _ (sublist.subset (List.mem_map_of_mem hu)))
        (sublist.subset taken))
  rw [back]
  refine (bind_of_ok staged).trans (unstaged.trans ?_)
  simp

/-! ## Direct assignments -/

/-- Arguments that change no parameter leave the machine. -/
theorem Passed.idle (h : Passed limit k env names last xs es vs m) (none : changed xs es = []) :
    m = last ∧ updates xs es vs = [] := by
  induction h with
  | done => exact ⟨rfl, rfl⟩
  | missing change =>
    rw [changed_cons_of_change _ change] at none
    cases none
  | kept same here there rest ih =>
    rw [changed_cons_of_same _ same] at none
    rw [updates_cons_of_same same]
    exact ih none
  | given change =>
    rw [changed_cons_of_change _ change] at none
    cases none

/-- The last argument that changes a parameter is evaluated at the beginning if those before it are
constants. -/
theorem Passed.direct (h : Passed limit k env names last xs es vs m)
    (known : m.store.lookup? env Tree.undefinedName = some .undefined)
    {init : List (Text × Tree)} {q : Text × Tree} (order : changed xs es = init ++ [q])
    (constants : ∀ e ∈ init, isConstant e.2 = true) :
    ∃ v, evaluate limit (k + 1) env q.2 m = .ok v last ∧
      updates xs es vs = (init.map fun e => (e.1, constantIn .undefined e.2)) ++ [(q.1, v)] := by
  -- On the arguments in their order: after the last change nothing is changed, and before it there
  -- are constants, which can be evaluated at any time.
  induction h generalizing init with
  | done => simp [changed, padded] at order
  | @missing x xs change rest ih =>
    have value : evaluate limit (k + 1) env .undefined last = .ok .undefined last := by
      rw [Tree.undefined, Tree.identifier, Tree.new, evaluate]
      exact readName_of_lookup? none known
    have order : (x, Tree.undefined) :: changed xs [] = init ++ [q] :=
      (changed_cons_of_change xs change).symm.trans order
    have found : updates (x :: xs) [] [] = (x, .undefined) :: updates xs [] [] :=
      updates_cons_of_change change []
    cases init with
    | nil =>
      obtain ⟨rfl, none⟩ := List.cons.inj order
      exact ⟨.undefined, value, by rw [found, (rest.idle none).2]; rfl⟩
    | cons r init =>
      rw [List.forall_mem_cons] at constants
      obtain ⟨rfl, order'⟩ := List.cons.inj order
      obtain ⟨v, evaluated, others⟩ := ih known order' constants.2
      exact ⟨v, evaluated, by rw [found, others]; rfl⟩
  | @kept x xs e es v vs m same here there rest ih =>
    obtain ⟨u, evaluated, others⟩ :=
      ih known ((changed_cons_of_same xs same).symm.trans order) constants
    exact ⟨u, evaluated, (updates_cons_of_same same (v :: vs)).trans others⟩
  | @given x xs e es v vs m m' change wellFormed value ignored stays rest ih =>
    have order : (x, e) :: changed xs es = init ++ [q] :=
      (changed_cons_of_change xs change).symm.trans order
    have found : updates (x :: xs) (e :: es) (v :: vs) = (x, v) :: updates xs es vs :=
      updates_cons_of_change change (v :: vs)
    cases init with
    | nil =>
      obtain ⟨rfl, none⟩ := List.cons.inj order
      obtain ⟨rfl, none⟩ := rest.idle none
      exact ⟨v, value, by rw [found, none]; rfl⟩
    | cons r init =>
      rw [List.forall_mem_cons] at constants
      obtain ⟨rfl, order'⟩ := List.cons.inj order
      have constant : evaluate limit (k + 1) env e m = _ :=
        evaluate_constant constants.1 wellFormed known
      cases value.symm.trans constant
      obtain ⟨u, evaluated, others⟩ := ih known order' constants.2
      exact ⟨u, evaluated, by rw [found, others]; rfl⟩

/-- The last change is made first, and then the others. -/
theorem Passed.direct_forM (h : Passed limit k env names last xs es vs m)
    (boundParams : m.store.Binds env xs) (unnamed : Tree.undefinedName ∉ xs)
    (known : m.store.lookup? env Tree.undefinedName = some .undefined)
    (still : last.store.lookup? env Tree.undefinedName = some .undefined)
    (wellFormed : ∀ e ∈ changed xs es, ∃ checked c, WellFormed checked c e.2)
    (constants : ∀ e ∈ (changed xs es).dropLast, isConstant e.2 = true) :
    ∃ set : List (Text × Value), set.Perm (updates xs es vs) ∧
      assignEach limit (k + 1) env (turned (changed xs es)) m = .ok () (last.setEach env set) := by
  -- No change at all is one case; otherwise the last change is assigned first.
  rcases List.eq_nil_or_concat (changed xs es) with none | ⟨init, q, order⟩
  · obtain ⟨rfl, nothing⟩ := h.idle none
    rw [none, nothing]
    exact ⟨[], .refl _, rfl⟩
  rw [List.concat_eq_append] at order
  rw [order, List.dropLast_concat] at constants
  obtain ⟨v, value, updated⟩ := h.direct known order constants
  have params : ∀ x ∈ q.1 :: init.map (·.1), x ∈ xs := fun x hx => by
    refine (updates_sublist xs es vs).subset ?_
    rw [map_fst_updates, order, List.map_append, List.map_singleton]
    exact List.perm_append_comm.mem_iff.mp (show x ∈ [q.1] ++ init.map (·.1) from hx)
  have bindsFirst : last.store.declares env q.1 = true :=
    h.binds boundParams q.1 (params q.1 List.mem_cons_self)
  have first : assignEach limit (k + 1) env [q] m = .ok () (last.setEach env [(q.1, v)]) := by
    rw [assignEach_singleton, bind_of_ok value, writeName_bound bindsFirst]
  -- The constants are the same after the last change, as none of them reads a parameter.
  have rest : assignEach limit (k + 1) env init (last.setEach env [(q.1, v)]) =
      .ok () ((last.setEach env [(q.1, v)]).setEach env
        (init.map fun e => (e.1, constantIn .undefined e.2))) := by
    refine assign_constants (fun r hr => ⟨constants r hr, wellFormed r ?_⟩) (fun x hx => ?_)
      (fun named => unnamed (params _ (List.mem_cons_of_mem _ named))) ?_
    · rw [order]
      exact List.mem_append_left _ hr
    · exact (Store.declares_declare bindsFirst v env x).trans
        (h.binds boundParams x (params x (List.mem_cons_of_mem _ hx)))
    · have other : Tree.undefinedName ≠ q.1 := fun same =>
        unnamed (same ▸ params q.1 List.mem_cons_self)
      exact (Store.lookup?_declare_ne bindsFirst other v env).trans still
  have turned : turned (changed xs es) = [q] ++ init := by simp [turned, order]
  refine ⟨[(q.1, v)] ++ init.map fun e => (e.1, constantIn .undefined e.2), ?_, ?_⟩
  · rw [updated]
    exact List.perm_append_comm
  · rw [turned, assignEach_append, bind_of_ok first, rest, Machine.setEach_append]

/-! ## What the parameters are -/

/-- The parameters that no argument changes have the values of the arguments at the end. -/
theorem Passed.keeps (h : Passed limit k env names last xs es vs m) {b : Bindings}
    (bound : ∀ x ∈ xs, last.store.lookup? env x = b.lookup x) : Keeps b xs es vs := by
  induction h with
  | done => trivial
  | missing change rest ih =>
    refine ⟨fun same => ?_, ih (List.forall_mem_cons.mp bound).2⟩
    cases change.symm.trans same
  | kept same here there rest ih =>
    rw [List.forall_mem_cons] at bound
    exact ⟨fun _ => bound.1.symm.trans there, ih bound.2⟩
  | given change wellFormed value ignored stays rest ih =>
    refine ⟨fun same => ?_, ih (List.forall_mem_cons.mp bound).2⟩
    cases change.symm.trans same

/-- The parameters have the values of the arguments when those that change have been set, in whatever
order, and some other names. -/
theorem Passed.lookup?_eq (h : Passed limit k env names last xs es vs m) (distinct : xs.Nodup)
    (boundParams : m.store.Binds env xs) (bound : m.store.Binds env names)
    (apart : ∀ t ∈ names, t ∉ xs) {others set : List (Text × Value)}
    (among : ∀ e ∈ others, e.1 ∈ names) (same : set.Perm (updates xs es vs)) {p : Text × Value}
    (hp : p ∈ padded .undefined xs vs) :
    ((last.setEach env others).setEach env set).store.lookup? env p.1 = some p.2 := by
  have keys := same.map (·.1)
  have sublist := updates_sublist xs es vs
  have bindsOthers := binds_entries (h.binds bound) among
  have bindsSet : (last.setEach env others).store.Binds env (set.map (·.1)) := fun x hx => by
    rw [Machine.setEach, Store.declares_setEach bindsOthers]
    exact h.binds boundParams x (sublist.subset (keys.subset hx))
  have param : p.1 ∈ xs := map_fst_padded Value.undefined xs vs ▸ List.mem_map_of_mem hp
  obtain ⟨b, here⟩ := exists_bindings (h.binds boundParams)
  -- A parameter was set to its value, or its argument was itself and nothing has set it since.
  rcases mem_updates_or distinct (h.keeps here) hp with change | ⟨unchanged, kept⟩
  · exact Store.lookup?_setEach_of_mem bindsSet (keys.nodup_iff.mpr (distinct.sublist sublist))
      (same.mem_iff.mpr change)
  · rw [Machine.setEach, Store.lookup?_setEach_of_notMem bindsSet
      fun taken => unchanged (keys.subset taken)]
    rw [Machine.setEach, Store.lookup?_setEach_of_notMem bindsOthers
      (notMem_entries (fun taken => apart p.1 taken param) among), here p.1 param, kept]

end Arguments

/-! ## The converted call -/

section Converted

variable {n : Naming} {limit k env : Nat} {s : Scope} {args : List Tree} {vs : List Value}
  {m last : Machine}

/-- The assignments of a converted call come to the machine after its arguments, with the parameters
set that change, in some order, and some temporaries. -/
theorem callAssignments_forM (temporaries : s.temporaries = s.params.map (n.temporary ++ ·))
    (wellFormed : ∀ e ∈ args, ∃ checked c, WellFormed checked c e)
    (activation : Activation env s.params s.temporaries m) (unnamed : Tree.undefinedName ∉ s.params)
    (undefined : m.store.lookup? env Tree.undefinedName = some .undefined)
    (still : last.store.lookup? env Tree.undefinedName = some .undefined)
    (h : Passed limit k env s.temporaries last s.params args vs m) :
    ∃ others set : List (Text × Value), (∀ e ∈ others, e.1 ∈ s.temporaries) ∧
      set.Perm (updates s.params args vs) ∧
      (callAssignments s args).forM (execute limit (k + 3) env) m =
        .ok () ((last.setEach env others).setEach env set) := by
  have present : ∀ e ∈ args, e.isNull = false := fun e he => present_of_wellFormed (wellFormed e he)
  have order := callAssignments_eq (w := ⟨n, limit, #[], #[], [], true⟩) temporaries present
  -- With temporaries all values are staged; without them they are assigned at once.
  cases needs : needsTemporaries (changes s.params args) with
  | true =>
    have named (x) (hx : x ∈ s.params) : n.temporary ++ x ∈ s.temporaries := by
      rw [temporaries]
      exact List.mem_map_of_mem hx
    have staged := h.staged_forM activation.bindsParams activation.bindsTemporaries
      (temporaries ▸ activation.distinct.2) named activation.apart activation.unnamed still
    rw [needs, if_pos rfl] at order
    rw [order, forM_append, forM_assigning, forM_assigning]
    refine ⟨_, _, ?_, .refl _, staged⟩
    refine List.forall_mem_map.mpr fun u hu => named u.1 ?_
    exact (updates_sublist ..).subset (List.mem_map_of_mem hu)
  | false =>
    have values : ∀ e ∈ changed s.params args, ∃ checked c, WellFormed checked c e.2 := by
      rw [← map_changes]
      exact List.forall_mem_map.mpr fun c hc => wellFormed_change wellFormed hc
    obtain ⟨set, same, direct⟩ := h.direct_forM activation.bindsParams unnamed undefined still values
      (constants_of_not_needsTemporaries needs)
    rw [needs, if_neg Bool.false_ne_true] at order
    rw [order, forM_assigning]
    exact ⟨[], set, List.forall_mem_nil _, same, direct⟩

/-- A converted call updates the parameters as a call binds them. In an activation of a function
with different parameters, let the arguments of a call be evaluated without an error, let none of
them have to do with the temporaries or set a parameter that stands before it as its own argument,
and let the undefined value have its name before and after, which is no parameter. Then the
assignments in the place of the call come to the machine after the evaluation of the arguments with
parameters and temporaries set, and every parameter has the value there that binding the parameters
in a new activation gives it, whatever the parent of that one is. -/
theorem callAssignments_rebind {ps : List Tree} (params : List.Forall₂ IsParameter ps s.params)
    (temporaries : s.temporaries = s.params.map (n.temporary ++ ·))
    (few : args.length ≤ s.params.length)
    (wellFormed : ∀ e ∈ args, ∃ checked c, WellFormed checked c e)
    (activation : Activation env s.params s.temporaries m) (unnamed : Tree.undefinedName ∉ s.params)
    (inside : env < m.store.environments.size)
    (evaluated : args.mapM (evaluate limit (k + 1) env) m = .ok vs last)
    (undisturbed : Undisturbed limit (k + 1) env s.temporaries last s.params args m)
    (undefined : m.store.lookup? env Tree.undefinedName = some .undefined)
    (still : last.store.lookup? env Tree.undefinedName = some .undefined) :
    ∃ entries : List (Text × Value), (∀ e ∈ entries, e.1 ∈ s.params ∨ e.1 ∈ s.temporaries) ∧
      (callAssignments s args).forM (execute limit (k + 3) env) m =
        .ok () (last.setEach env entries) ∧
      ∀ parent, ∃ called, bindParameters last.store.environments.size ps vs
            { last with store := (last.store.child parent).2 } = .ok () called ∧
        ∀ x ∈ s.params, (last.setEach env entries).store.lookup? env x =
          called.store.lookup? last.store.environments.size x := by
  -- The arguments are evaluated alike in both programs, after which each parameter has the value
  -- that a call would bind.
  have h := passed few wellFormed unnamed activation.chained inside evaluated undisturbed
  obtain ⟨others, set, among, same, assigned⟩ :=
    callAssignments_forM temporaries wellFormed activation unnamed undefined still h
  refine ⟨others ++ set, fun e he => ?_, ?_, fun parent => ⟨_, bindParameters_eq params .., ?_⟩⟩
  · refine (List.mem_append.mp he).symm.imp (fun he => ?_) (among e)
    exact (updates_sublist ..).subset ((same.map (·.1)).subset (List.mem_map_of_mem he))
  · rw [assigned, Machine.setEach_append]
  · intro x hx
    have keys := map_fst_padded Value.undefined s.params vs
    obtain ⟨p, hp, rfl⟩ := List.mem_map.mp (keys.symm ▸ hx)
    have new := lookup?_new_activation last.store parent (keys.symm ▸ activation.distinct.1) hp
    rw [Machine.setEach_append, h.lookup?_eq activation.distinct.1 activation.bindsParams
      activation.bindsTemporaries activation.apart among same hp]
    exact new.symm

end Converted

/-- The scope of a function with three parameters. -/
def tripleScope : Scope where
  params := ["a", "b", "c"]
  temporaries := ["_tco_temp_a", "_tco_temp_b", "_tco_temp_c"]

/-- An activation of a function with three parameters. -/
def tripleActivation : Machine :=
  activationWith [("a", .string "first"), ("b", .string "second"), ("c", .string "third"),
    ("_tco_temp_a", .undefined), ("_tco_temp_b", .undefined), ("_tco_temp_c", .undefined)]

/-- The activation of the function with three parameters binds them and their temporaries. -/
theorem activation_tripleActivation :
    Activation 1 tripleScope.params tripleScope.temporaries tripleActivation where
  chained := chained_activationWith _
  bindsParams := by unfold Store.Binds; decide
  bindsTemporaries := by unfold Store.Binds; decide
  distinct := by decide
  apart := by decide
  unnamed := by decide
  undefined := ⟨.undefined, rfl⟩

/-- The arguments of a call `f(a, c, b = a)`. -/
def rotates : List Tree :=
  [Tree.identifier "a", Tree.identifier "c", Tree.assign "b" (Tree.identifier "a")]

/-- In the call `f(a, c, b = a)` the last argument sets a parameter that is set again afterwards. -/
theorem callAssignments_rebind_rotates :
    ∃ last, rotates.mapM (evaluate 5 8 1) tripleActivation =
        .ok [.string "first", .string "third", .string "first"] last ∧
      ∃ entries : List (Text × Value),
        (∀ e ∈ entries, e.1 ∈ tripleScope.params ∨ e.1 ∈ tripleScope.temporaries) ∧
        (callAssignments tripleScope rotates).forM (execute 5 10 1) tripleActivation =
          .ok () (last.setEach 1 entries) ∧
        ∀ parent, ∃ called, bindParameters last.store.environments.size
              [.identifier "a", .identifier "b", .identifier "c"]
              [.string "first", .string "third", .string "first"]
              { last with store := (last.store.child parent).2 } = .ok () called ∧
          ∀ x ∈ tripleScope.params, (last.setEach 1 entries).store.lookup? 1 x =
            called.store.lookup? last.store.environments.size x := by
  -- Two arguments are read and the third one assigns, so that the values have to be staged.
  have activation := activation_tripleActivation
  have binds : tripleActivation.store.declares 1 "b" = true := by decide
  have first : tripleActivation.store.lookup? 1 "a" = some (.string "first") := rfl
  have third : tripleActivation.store.lookup? 1 "c" = some (.string "third") := rfl
  have readFirst : evaluate 5 8 1 (.identifier "a") tripleActivation =
      .ok (.string "first") tripleActivation := by
    rw [evaluate_identifier, readName_of_lookup? none first]
  have readThird : evaluate 5 8 1 (.identifier "c") tripleActivation =
      .ok (.string "third") tripleActivation := by
    rw [evaluate_identifier, readName_of_lookup? none third]
  have ignores (x : Text) (other : x ∉ tripleScope.temporaries) :
      Ignores tripleScope.temporaries 1 (evaluate 5 8 1 (.identifier x)) tripleActivation := by
    rw [evaluate_identifier]
    exact .readName activation.bindsTemporaries (key_ne_of_notMem other) 1 none
  have evaluated : rotates.mapM (evaluate 5 8 1) tripleActivation =
      .ok [.string "first", .string "third", .string "first"]
        (tripleActivation.setEach 1 [("b", .string "first")]) :=
    mapM_cons_of_ok readFirst (mapM_cons_of_ok readThird
      (mapM_cons_of_ok (evaluate_assign binds first) rfl))
  refine ⟨_, evaluated, callAssignments_rebind (n := {}) ?_ rfl (by decide) ?_ activation (by decide)
    (by decide) evaluated ?_ rfl ?_⟩
  · exact .cons ⟨none, rfl⟩ (.cons ⟨none, rfl⟩ (.cons ⟨none, rfl⟩ .nil))
  · have name (x : Text) (spelled : isNameLine x = true) :
        ∃ checked c, WellFormed checked c (.identifier x) := ⟨true, {}, .identifier spelled⟩
    refine List.forall_mem_cons.mpr ⟨name "a" (by decide), List.forall_mem_cons.mpr
      ⟨name "c" (by decide), List.forall_mem_singleton.mpr ?_⟩⟩
    exact ⟨true, {}, .assignment (by decide) rfl (.identifier (by decide)) rfl
      (.identifier (by decide))⟩
  · refine ⟨ignores "a" (by decide), fun _ => ?_, fun v m' read => ?_⟩
    · exact Store.lookup?_declare_ne binds (by decide) _ 1
    cases readFirst.symm.trans read
    refine ⟨ignores "c" (by decide), fun own => (by decide : ¬_) own |>.elim, fun v m' read => ?_⟩
    cases readThird.symm.trans read
    refine ⟨ignores_assign activation.bindsTemporaries (by decide) (by decide), nofun,
      fun _ _ _ => trivial⟩
  · exact (Store.lookup?_declare_ne binds (by decide) _ 1).trans rfl

/-- The arguments of a call `f(a, a = 1, true)`. -/
def overwrites : List Tree :=
  [Tree.identifier "a",
    Tree.new (.assignment (.text "=") (.identifier "a") (Tree.new (.literal (.num .one)))),
    Tree.new (.literal (.bool true))]

/-- The first argument of `f(a, a = 1, true)` is its own parameter, and the second sets it. A call
binds `a` to what it was before, but the assignments leave it at 1. -/
theorem callAssignments_rebind_overwrites :
    Activation 1 tripleScope.params tripleScope.temporaries tripleActivation ∧
      holdsAfter ((callAssignments tripleScope overwrites).forM (execute 5 10 1) tripleActivation)
        1 "a" (.number .one) = true ∧
      holdsAfter ((do
          let vs ← overwrites.mapM (evaluate 5 8 1)
          let own ← changeGet fun s => s.child 0
          bindParameters own [.identifier "a", .identifier "b", .identifier "c"] vs : Eval Unit)
        tripleActivation) 2 "a" (.string "first") = true :=
  ⟨activation_tripleActivation, by decide +kernel, by decide +kernel⟩

end TailLoop.Simulation
