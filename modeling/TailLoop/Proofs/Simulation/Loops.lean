import Mathlib.Data.List.Nodup
import TailLoop.Proofs.Interpreter.CallDepth
import TailLoop.Proofs.Simulation.Jumps

/-!
# Loops in the place of recursion

A function that became a loop makes one pass of the loop for each call of itself in tail position.
`Ready` relates the machine of the program when such a call is made to the machine of the rewritten
program when the pass starts. From there a pass agrees with the activation for which it stands, and
by induction on the fuel of the program so do all passes together with the calls
(`loop_sim`). Together with the functions that stayed as they were, all calls of two programs agree
(`callsAgree`).
-/

namespace TailLoop.Simulation

open Eval Validity Elimination

/-! ## Parameters set to arguments -/

/-- The names that a call sets are those of its changes. -/
theorem map_fst_updates (xs : List Text) (es : List Tree) (vs : List Value) :
    (updates xs es vs).map (·.1) = (changed xs es).map (·.1) := by
  induction xs generalizing es vs with
  | nil => rfl
  | cons x xs ih =>
    cases change : isChange (x, es.head?.getD .undefined) with
    | true =>
      rw [updates_cons_of_change change, changed_cons_of_change _ change, List.map_cons,
        List.map_cons,
        ih]
    | false => rw [updates_cons_of_same change, changed_cons_of_same _ change, ih]

/-- They are parameters, in their order. -/
theorem updates_sublist (xs : List Text) (es : List Tree) (vs : List Value) :
    ((updates xs es vs).map (·.1)).Sublist xs := by
  have part : ((changed xs es).map (·.1)).Sublist ((padded .undefined xs es).map (·.1)) :=
    List.filter_sublist.map _
  rw [map_fst_padded] at part
  rw [map_fst_updates]
  exact part

/-- A parameter is set to its argument, or it has that value already. -/
theorem mem_updates_or {b : Bindings} {xs : List Text} {es : List Tree} {vs : List Value}
    (distinct : xs.Nodup) (keeps : Keeps b xs es vs) {p : Text × Value}
    (hp : p ∈ padded .undefined xs vs) :
    p ∈ updates xs es vs ∨ p.1 ∉ (updates xs es vs).map (·.1) ∧ b.lookup p.1 = some p.2 := by
  -- By induction on the parameters, each with its argument and its value.
  induction xs generalizing es vs with
  | nil => cases hp
  | cons x xs ih =>
    obtain ⟨known, kept⟩ := keeps
    rw [List.nodup_cons] at distinct
    have others : x ∉ (updates xs es.tail vs.tail).map (·.1) := fun h =>
      distinct.1 ((updates_sublist _ _ _).subset h)
    rw [padded] at hp
    cases change : isChange (x, es.head?.getD .undefined) with
    | true =>
      rw [updates_cons_of_change change, List.map_cons]
      rcases List.mem_cons.mp hp with rfl | hp
      · exact .inl List.mem_cons_self
      · refine (ih distinct.2 kept hp).imp (List.mem_cons_of_mem _) fun h => ⟨?_, h.2⟩
        have : p.1 ∈ xs := by
          rw [← map_fst_padded .undefined xs vs.tail]
          exact List.mem_map_of_mem hp
        rw [List.mem_cons, not_or]
        refine ⟨fun same => distinct.1 ?_, h.1⟩
        rwa [same] at this
    | false =>
      rw [updates_cons_of_same change]
      rcases List.mem_cons.mp hp with rfl | hp
      · exact .inr ⟨others, known change⟩
      · exact ih distinct.2 kept hp

/-- The bindings of an activation of the rewritten program when a pass starts. -/
structure Body.Loads (w : World) (b : Body) (vs : List Value) (d : Bindings) : Prop where
  params : ∀ x ∈ b.params, d.lookup x = (bindAll b.params vs []).lookup x
  bound : ∀ x, w.hides x = false → ((d.lookup x).isSome = true ↔ x ∈ b.names)
  spared : ∀ x ∈ b.spare, (d.lookup x).isSome = true

/-- A call of a function by itself, and the start of the pass that stands for it. -/
structure Ready (w : World) (b : Body) (frames : List Frame) (env : Nat) (vs : List Value)
    (m m' : Machine) : Prop where
  loads : ∃ d, Beside w frames env d m.store m'.store ∧ b.Loads w vs d
  data : ∀ v ∈ vs, v.isData = true
  strict : m'.strict = b.strict
  depth : m'.depth ≤ m.depth + 1

section Landing

variable {w : World} {frames : List Frame} {b : Body} {ref fuel i j : Nat} {c c' : Closure}

/-- After the updates, the parameters have the values of the arguments. -/
theorem Body.Rewrites.loads (h : b.Rewrites w ref c c') (distinct : b.params.Nodup)
    {d d' d1 us : Bindings} (binds : (b.frame i j).Binds w d d') {es : List Tree} {vs : List Value}
    (keeps : Keeps d b.params es vs) (same : ∀ x, w.hides x = false → d1.lookup x = d'.lookup x)
    (spared : ∀ x ∈ b.spare, (d1.lookup x).isSome = true)
    (keys : (us.map (·.1)).Nodup) (mem : ∀ p, p ∈ us ↔ p ∈ updates b.params es vs) :
    b.Loads w vs (putAll us d1) := by
  have params (x : Text) (hx : x ∈ us.map (·.1)) : x ∈ b.params := by
    obtain ⟨p, hp, rfl⟩ := List.mem_map.mp hx
    exact (updates_sublist _ _ _).subset (List.mem_map_of_mem ((mem p).mp hp))
  -- A parameter was set to its value, or it was left alone because it has that value already.
  constructor
  · intro x hx
    obtain ⟨p, hp, rfl⟩ : ∃ p ∈ padded .undefined b.params vs, p.1 = x := by
      rw [← map_fst_padded .undefined b.params vs] at hx
      exact List.mem_map.mp hx
    have value : (bindAll b.params vs []).lookup p.1 = some p.2 := by
      rw [bindAll_eq]
      exact lookup_putAll_of_mem (by rw [map_fst_padded]; exact distinct) hp _
    rw [value]
    rcases mem_updates_or distinct keeps hp with set | ⟨unset, known⟩
    · exact lookup_putAll_of_mem keys ((mem p).mpr set) _
    · have visible := h.visible p.1 (List.mem_append_left _ hx)
      rw [lookup_putAll_of_notMem, same _ visible, binds.same _ visible, known]
      intro set
      obtain ⟨q, hq, eq⟩ := List.mem_map.mp set
      exact unset (eq ▸ List.mem_map_of_mem ((mem q).mp hq))
  · intro x visible
    rw [isSome_lookup_putAll, same x visible, binds.same x visible, binds.bound]
    constructor
    · rintro (hx | hx)
      · exact List.mem_append_left _ (params x hx)
      · exact hx
    · exact .inr
  · intro x hx
    rw [isSome_lookup_putAll]
    exact .inr (spared x hx)

/-- The assignments in the place of a tail call, after which a pass can start. -/
def Lands (w : World) (frames : List Frame) (b : Body) (i j : Nat) (vs : List Value)
    (m m' : Machine) : Prop :=
  Ready w b frames j vs m m' ∧ ∃ m1', Matches w (b.frame i j :: frames) m m1'

/-- The machines while the arguments of a tail call are evaluated. -/
theorem Holds.lands (h : b.Rewrites w ref c c') (distinct : b.params.Nodup) {d d' e u : Bindings}
    {m m' : Machine} (hm : Holds w frames (b.frame i j) d d' m m') {es : List Tree} {vs : List Value}
    (data : ∀ v ∈ vs, v.isData = true) (keeps : Keeps d b.params es vs) {s' : Store}
    (beside : Beside w frames j (putAll u e) m.store s')
    (same : ∀ x, w.hides x = false → e.lookup x = d'.lookup x)
    (spared : ∀ x ∈ b.spare, (e.lookup x).isSome = true)
    (keys : (u.map (·.1)).Nodup) (mem : ∀ p, p ∈ u ↔ p ∈ updates b.params es vs) :
    Lands w frames b i j vs m { m' with store := s' } := by
  have free : (b.frame i j).held = none := rfl
  have binds := hm.stores.kept.2.2.release free
  refine ⟨⟨⟨_, beside, h.loads distinct binds keeps same spared keys mem⟩, data, ?_, ?_⟩, m', ?_⟩
  · exact hm.strict.trans (hm.mode _ rfl)
  · exact Nat.le_succ_of_le hm.depth
  · exact hm.reframe (hm.stores.release free) rfl

/-- Different parameters have different temporaries. -/
theorem temporary_injective (w : World) : Function.Injective w.temporary :=
  fun _ _ same => List.append_cancel_left same

/-- Values that are put into temporaries. -/
def staged (w : World) (us : Bindings) : Bindings := us.map fun u => (w.temporary u.1, u.2)

/-- The parameters take over the values of the temporaries. -/
theorem unstage {d : Bindings} {us : Bindings} {s : Store} {m : Machine}
    (hidden : ∀ y, w.hides (w.temporary y) = true) (keys : (us.map (·.1)).Nodup)
    (visible : ∀ u ∈ us, w.hides u.1 = false) (bound : ∀ u ∈ us, (d.lookup u.1).isSome = true)
    (beside : Beside w frames j (putAll (staged w us) d) s m.store) :
    ∃ s1, (∀ k, assignEach w.limit (k + 1) j
        (us.map fun u => (u.1, Tree.identifier (w.temporary u.1))) m =
          .ok () { m with store := s1 }) ∧
      Beside w frames j (putAll us (putAll (staged w us) d)) s s1 := by
  -- The temporaries keep the names apart, so that the staged rows are told by their keys.
  have stagedKeys : ((staged w us).map (·.1)).Nodup := by
    rw [staged, List.map_map]
    have := List.Nodup.map (temporary_injective w) keys
    rwa [List.map_map] at this
  have known := assignEach_known w.limit
    (us.map fun u => (u.1, Tree.identifier (w.temporary u.1), u.2)) beside ?_ ?_
  -- The two side goals: each name is bound, and its temporary holds the staged value at the time at
  -- which it is read.
  · simpa [List.map_map, Function.comp_def] using known
  · refine List.forall_mem_map.mpr fun u hu => ?_
    rw [isSome_lookup_putAll]
    exact .inr (bound u hu)
  · refine List.forall_mem_map.mpr fun u hu e same => ?_
    have other : w.temporary u.1 ∉ us.map (·.1) := by
      intro taken
      obtain ⟨p, hp, eq⟩ := List.mem_map.mp taken
      have := visible p hp
      rw [eq, hidden] at this
      cases this
    have value : e.lookup (w.temporary u.1) = some u.2 := by
      rw [same _ (by rwa [List.map_map])]
      exact lookup_putAll_of_mem stagedKeys (List.mem_map_of_mem hu) d
    simp [valueIn, Tree.identifier, Tree.new, value]

/-- Through temporaries. -/
theorem staged_lands (h : b.Rewrites w ref c c') (distinct : b.params.Nodup)
    (hidden : ∀ y, w.hides (w.temporary y) = true)
    (agree : ∀ d d', ExpressionsAgree w ((b.frame i j).hold d d') frames (fuel + 2)) {es : List Tree}
    (passes : Passes w (b.frame i j) b.params es)
    (spare : ∀ e ∈ changed b.params es, w.temporary e.1 ∈ b.spare) {d d' : Bindings} {m m' : Machine}
    (hm : Holds w frames (b.frame i j) d d' m m')
    (counts : Counts w (es.mapM (evaluate w.limit (fuel + 1) i) m)) :
    ∃ n r', (∀ k, n ≤ k → (do
        assignEach w.limit (k + 1) j (w.staging (changed b.params es))
        assignEach w.limit (k + 1) j (w.unstaging (changed b.params es))) m' = r') ∧
      Arrives w (b.frame i j :: frames) d b.params es
        (fun vs m1 _ m1' => Lands w frames b i j vs m1 m1')
        (es.mapM (evaluate w.limit (fuel + 1) i) m) r' := by
  obtain ⟨n, r', settled, arrives⟩ := stage_sim rfl agree passes spare hidden hm counts
  cases arrives' : es.mapM (evaluate w.limit (fuel + 1) i) m with
  | error e m1 =>
    rw [show (b.frame i j).source = i from rfl, arrives'] at arrives
    cases arrives with
    | error ends =>
      exact ⟨n, _, fun k hk => bind_of_error (settled k hk), .error ends⟩
  | ok vs m1 =>
    rw [show (b.frame i j).source = i from rfl, arrives'] at arrives
    cases arrives with
    | @ok _ _ _ m1' data keeps machines =>
    have binds := machines.stores.kept.2.2
    have before := hm.stores.kept.2.2
    have keys : ((updates b.params es vs).map (·.1)).Nodup := distinct.sublist (updates_sublist ..)
    have params (u : Text × Value) (hu : u ∈ updates b.params es vs) : u.1 ∈ b.params :=
      (updates_sublist _ _ _).subset (List.mem_map_of_mem hu)
    have visible (u : Text × Value) (hu : u ∈ updates b.params es vs) : w.hides u.1 = false :=
      h.visible _ (List.mem_append_left _ (params u hu))
    have bound (u : Text × Value) (hu : u ∈ updates b.params es vs) :
        (d'.lookup u.1).isSome = true := by
      rw [before.same _ (visible u hu)]
      exact (before.bound _).mpr (List.mem_append_left _ (params u hu))
    -- The values wait in temporaries, from where the parameters are set.
    obtain ⟨s', ran, beside⟩ := unstage hidden keys visible bound machines.stores.beside
    refine ⟨n, .ok () { m1' with store := s' }, fun k hk => ?_, .ok data keeps ?_⟩
    · have same : w.unstaging (changed b.params es) = (updates b.params es vs).map fun u =>
          (u.1, Tree.identifier (w.temporary u.1)) := by
        have := congrArg (List.map fun x => (x, Tree.identifier (w.temporary x)))
          (map_fst_updates b.params es vs)
        simpa [World.unstaging, List.map_map, Function.comp_def] using this.symm
      rw [same]
      exact (bind_of_ok (settled k hk)).trans (ran k)
    · refine Holds.lands h distinct machines data keeps beside (fun _ _ => rfl) ?_ keys fun _ => .rfl
      exact fun x hx => binds.spared x hx

/-- Constants with their values, as assignments whose values are known. -/
theorem entries_of_constants {es : List (Text × Tree)} {us : Bindings}
    (h : List.Forall₂ (fun e u => u.1 = e.1 ∧ constantValue e.2 = some u.2) es us) :
    ∃ entries : List (Text × Tree × Value), entries.map (fun e => (e.1, e.2.1)) = es ∧
      entries.map (fun e => (e.1, e.2.2)) = us ∧
      ∀ e ∈ entries, constantValue e.2.1 = some e.2.2 := by
  induction h with
  | nil => exact ⟨[], rfl, rfl, by simp⟩
  | @cons e u es us first _ ih =>
    obtain ⟨entries, rfl, rfl, known⟩ := ih
    refine ⟨(e.1, e.2, u.2) :: entries, rfl, ?_, List.forall_mem_cons.mpr ⟨first.2, known⟩⟩
    rw [List.map_cons, ← first.1]

/-- Without temporaries: the last argument is evaluated, and the others are constants. -/
theorem direct_lands (h : b.Rewrites w ref c c') (distinct : b.params.Nodup)
    (agree : ∀ d d', ExpressionsAgree w ((b.frame i j).hold d d') frames (fuel + 2)) {es : List Tree}
    (passes : Passes w (b.frame i j) b.params es)
    (constants : ∀ e ∈ (changed b.params es).dropLast, isConstant e.2 = true) {d d' : Bindings}
    {m m' : Machine} (hm : Holds w frames (b.frame i j) d d' m m')
    (counts : Counts w (es.mapM (evaluate w.limit (fuel + 1) i) m)) :
    ∃ n r', (∀ k, n ≤ k → assignEach w.limit (k + 1) j (turned (changed b.params es)) m' = r') ∧
      Arrives w (b.frame i j :: frames) d b.params es
        (fun vs m1 _ m1' => Lands w frames b i j vs m1 m1')
        (es.mapM (evaluate w.limit (fuel + 1) i) m) r' := by
  cases last : (changed b.params es).getLast? with
  | none =>
    have none := List.getLast?_eq_none_iff.mp last
    obtain ⟨vs, ran, data, keeps, unchanged⟩ := passes.read_unchanged fuel rfl none hm
    have ran' : es.mapM (evaluate w.limit (fuel + 1) i) m = .ok vs m := ran
    refine ⟨0, .ok () m', fun k _ => ?_, ?_⟩
    · rw [none]
      rfl
    · rw [ran']
      refine .ok data keeps ?_
      refine Holds.lands (u := []) h distinct hm data keeps hm.stores.beside
        (fun _ _ => rfl) ?_ .nil ?_
      · exact fun x hx => hm.stores.kept.2.2.spared x hx
      · rw [unchanged]
        exact fun _ => .rfl
  | some q =>
    -- The last change is made first, when nothing has been changed. All others are constants.
    have order : turned (changed b.params es) = q :: (changed b.params es).dropLast := by
      rw [turned, last]
      rfl
    obtain ⟨n, r', settled, arrives⟩ := last_sim rfl agree passes last constants hm counts
    have before := hm.stores.kept.2.2
    rw [order]
    cases ran : es.mapM (evaluate w.limit (fuel + 1) i) m with
    | error e m1 =>
      rw [show (b.frame i j).source = i from rfl, ran] at arrives
      cases arrives with
      | error ends =>
        exact ⟨n, _, fun k hk => bind_of_error (bind_of_error (settled k hk)), .error ends⟩
    | ok vs m1 =>
      rw [show (b.frame i j).source = i from rfl, ran] at arrives
      cases arrives with
      | @ok _ _ v m1' data keeps reached =>
      obtain ⟨machines, -, us, found, known⟩ := reached
      obtain ⟨entries, assigned, values, constant⟩ := entries_of_constants known
      have binds := machines.stores.kept.2.2
      have keys : ((updates b.params es vs).map (·.1)).Nodup := distinct.sublist (updates_sublist ..)
      have mem (p : Text × Value) : p ∈ (q.1, v) :: us ↔ p ∈ updates b.params es vs := by
        rw [found, List.mem_append, List.mem_cons, List.mem_singleton, or_comm]
      have params (p : Text × Value) (hp : p ∈ (q.1, v) :: us) : p.1 ∈ b.params :=
        (updates_sublist _ _ _).subset (List.mem_map_of_mem ((mem p).mp hp))
      have bound (p : Text × Value) (hp : p ∈ (q.1, v) :: us) : (d'.lookup p.1).isSome = true := by
        have name := List.mem_append_left (Tree.tuple b.before).varNames (params p hp)
        rw [binds.same _ (h.visible _ name)]
        exact (binds.bound _).mpr name
      have written := writeName_of_resolve? (m := m1') none v (keyed q.1)
        (machines.stores.beside.resolve? (bound _ List.mem_cons_self))
      have set := machines.stores.beside.set q.1 v
      have mine (e : Text × Tree × Value) (he : e ∈ entries) : (e.1, e.2.2) ∈ (q.1, v) :: us :=
        List.mem_cons_of_mem _ (values ▸ List.mem_map_of_mem he)
      -- The constants keep their values, since `undefined` is no parameter.
      have unbound : (putEntry q.1 v d').lookup Tree.undefinedName = none := by
        have other : Tree.undefinedName ≠ q.1 := by
          intro eq
          have := params _ List.mem_cons_self
          rw [← eq] at this
          exact h.undefined.1 (List.mem_append_left _ this)
        rw [lookup_putEntry_ne other, binds.same _ h.undefined.2, ← Option.not_isSome_iff_eq_none,
          binds.bound]
        exact h.undefined.1
      obtain ⟨s', rest, beside⟩ := assignEach_known w.limit entries
        (m := { m1' with store := m1'.store.declare j q.1 v }) set
        (fun e he => by
          rw [lookup_putEntry]
          split
          · rfl
          · exact bound _ (mine e he))
        (fun e he dd same => by
          refine valueIn_of_constantValue (constant e he) ((same _ fun taken => ?_).trans unbound)
          obtain ⟨p, hp, eq⟩ := List.mem_map.mp taken
          have := params _ (mine p hp)
          rw [eq] at this
          exact h.undefined.1 (List.mem_append_left _ this))
      rw [assigned] at rest
      rw [values] at beside
      refine ⟨n, .ok () { m1' with store := s' }, fun k hk => ?_, .ok data keeps ?_⟩
      · exact (bind_of_ok ((bind_of_ok (settled k hk)).trans written)).trans (rest k)
      · refine Holds.lands (e := d') (u := (q.1, v) :: us) h distinct machines data keeps beside
          (fun _ _ => rfl) (fun x hx => binds.spared x hx) ?_ mem
        rw [found, List.map_append] at keys
        exact (List.nodup_append_comm.mp keys)

/-- The scope of a body that was rewritten has the temporaries of its parameters. -/
theorem Body.Rewrites.staged (h : b.Rewrites w ref c c') :
    b.scope.Staged (b.params.map w.temporary) b.params := by
  obtain ⟨s, s', walks, scope, -, -, staged⟩ := h.walks
  exact scope ▸ staged_of_start walks (List.length_map _) staged

/-- Only constants come before the last change where no temporaries are needed. -/
theorem constants_of_not_needsTemporaries {xs : List Text} {es : List Tree}
    (h : needsTemporaries (changes xs es) = false) :
    ∀ e ∈ (changed xs es).dropLast, isConstant e.2 = true := by
  intro e he
  rw [← map_changes, ← List.map_dropLast] at he
  obtain ⟨c, hc, rfl⟩ := List.mem_map.mp he
  rw [needsTemporaries, Bool.and_eq_false_iff] at h
  rcases h with few | constants
  · have : (changes xs es).dropLast.length = 0 := by
      rw [List.length_dropLast]
      simp only [decide_eq_false_iff_not] at few
      omega
    rw [List.eq_nil_of_length_eq_zero this] at hc
    cases hc
  · rw [Bool.not_eq_false', List.all_eq_true] at constants
    exact constants c hc

/-- The assignments in the place of a tail call prepare the next pass. -/
theorem callAssignments_lands (h : b.Rewrites w ref c c') (tail : b.scope.isTailRecursive = true)
    (agree : ∀ d d', ExpressionsAgree w ((b.frame i j).hold d d') frames (fuel + 2)) {es : List Tree}
    (passes : Passes w (b.frame i j) b.params es)
    (used : callTemporaries b.scope es ⊆ b.scope.used) {d d' : Bindings} {m m' : Machine}
    (hm : Holds w frames (b.frame i j) d d' m m')
    (counts : Counts w (es.mapM (evaluate w.limit (fuel + 1) i) m)) :
    ∃ n r', (∀ k, n ≤ k → (callAssignments b.scope es).forM (execute w.limit (k + 3) j) m' = r') ∧
      Arrives w (b.frame i j :: frames) d b.params es
        (fun vs m1 _ m1' => Lands w frames b i j vs m1 m1')
        (es.mapM (evaluate w.limit (fuel + 1) i) m) r' := by
  obtain ⟨loops, distinct, -⟩ := h.loop tail
  have temporaries : b.scope.temporaries = b.scope.params.map w.temporary :=
    h.staged.temporaries.trans (h.staged.params ▸ rfl)
  have present : ∀ e ∈ es, e.isNull = false := fun e he => isNull_of_operand (passes.operands e he)
  rw [callAssignments_eq temporaries present, h.staged.params]
  -- A call whose arguments may read a parameter is staged by temporaries; the others are assigned
  -- at once.
  split
  · rename_i needs
    have spare : ∀ e ∈ changed b.params es, w.temporary e.1 ∈ b.spare := by
      intro e he
      rw [Body.spare, if_pos tail]
      apply used
      rw [callTemporaries, h.staged.params, if_pos needs, ← h.staged.params,
        temporariesOf_eq temporaries, h.staged.params]
      exact List.mem_map_of_mem he
    have hidden (y : Text) : w.hides (w.temporary y) = true := by
      simp [World.hides, World.temporary, loops, Text.startsWith]
    simp only [forM_append, forM_assigning]
    exact staged_lands h distinct hidden agree passes spare hm counts
  · rename_i direct
    simp only [forM_assigning]
    exact direct_lands h distinct agree passes
      (constants_of_not_needsTemporaries (by simpa using direct))
      hm counts

/-- Handing on a value. -/
def returning (x : Eval Value) : Eval Unit := x >>= fun v => throw (.returned v)

/-- A tail call that the program has left the activation by, for which a pass is about to start. -/
def Pends (w : World) (b : Body) (ref : Nat) (frames : List Frame) (env bound : Nat) : Pending :=
  fun e m m' => ∃ k < bound, ∃ vs m0, Ready w b frames env vs m0 m' ∧
    returning (call w.limit k (.function ref) vs) m0 = .error e m

/-- A tail call evaluates its arguments and hands on what the function returns. -/
theorem handOn_call {m : Machine} {lc lf : Option Location} {name : Text} {args : List Tree}
    (own : m.store.lookup? i name = some (.function ref)) (k : Nat) :
    handOn w.limit (k + 2) i (.node lc (.call (.node lf (.identifier (.text name)))
      (.tuple args))) m =
      (args.mapM (evaluate w.limit (k + 1) i) >>= fun vs =>
        returning (call w.limit (k + 1) (.function ref) vs)) m := by
  have callee : evaluate w.limit (k + 1) i (.node lf (.identifier (.text name))) m =
      .ok (.function ref) m := by
    rw [evaluate]
    exact readName_of_lookup? lf own
  rw [handOn_present rfl, evaluate]
  simp only [bind_assoc]
  rw [bind_of_ok callee]
  rfl

/-- The assignments in the place of a tail call, and the jump. -/
theorem execute_jump {l : Option Location} {ts : List Tree} (k : Nat) :
    execute w.limit (k + 2) j (.node l (.block (.tuple (ts ++ [jumpBack w.naming])))) =
      (ts.forM (execute w.limit (k + 1) j) >>= fun _ =>
        throw (.continued (.text w.naming.loop))) := by
  have jump : execute w.limit (k + 1) j (jumpBack w.naming) =
      throw (.continued (.text w.naming.loop)) := by
    rw [jumpBack, Tree.new, execute]
    rfl
  have row : Eval.attempt (Tree.tuple (ts ++ [jumpBack w.naming])).items =
      pure (ts ++ [jumpBack w.naming]) := rfl
  rw [execute, row, pure_bind, forM_append]
  simp only [List.forM, jump]
  rfl

/-- A call of the own function ends with a value or an error, as far as it is compared. -/
theorem leaves_of_calls (loops : w.loops = true) (calls : CallsAgree w fuel) {k : Nat} (hk : k < fuel)
    {vs : List Value} (data : ∀ v ∈ vs, v.isData = true) {m m' : Machine}
    (hm : Matches w frames m m') (counts : Counts w
    (returning (call w.limit k (.function ref) vs) m)) :
    ∃ e m1, returning (call w.limit k (.function ref) vs) m = .error e m1 ∧ Leaves e := by
  -- The simulation of the call rules out every end but a value, a `return` or a failure.
  obtain ⟨n, r', -, agree⟩ := calls k hk frames ref vs data m m' hm (counts_of_bind counts)
  cases found : call w.limit k (.function ref) vs m with
  | ok v m1 => exact ⟨.returned v, m1, bind_of_ok found, trivial⟩
  | error e m1 =>
    refine ⟨e, m1, bind_of_error found, ?_⟩
    rw [found] at agree
    cases agree with
    | error ends =>
      obtain ⟨-, allowed, -⟩ := ends
      cases e with
      | returned v => trivial
      | failed error => trivial
      | broke label => exact (not_catches_none (allowed loops)).elim
      | continued label => exact (not_catches_none (allowed loops)).elim
      | exhausted => exact allowed

/-- Tail calls and the jumps in their place agree. -/
theorem Body.Rewrites.tailsAgree (h : b.Rewrites w ref c c') (tail : b.scope.isTailRecursive = true)
    (calls : CallsAgree w fuel) :
    TailsAgree w (b.frame i j) frames (Pends w b ref frames j fuel) fuel b.scope where
  own _ := if_pos tail
  jumps := by
    intro _ l lc lf name args named few used operands quiet k hk m m' hm counts
    obtain ⟨loops, distinct, own, isOwn, isFunction, free, -⟩ := h.loop tail
    obtain rfl : own = name := Option.some_inj.mp (isOwn.symm.trans named)
    match k with
    | 0 =>
      rw [handOn_present rfl, evaluate] at counts
      exact (counts .exhausted m rfl).elim
    | 1 =>
      rw [handOn_present rfl, evaluate, evaluate] at counts
      exact (counts .exhausted m rfl).elim
    | k + 2 =>
    have passes : Passes w (b.frame i j) b.params args :=
      ⟨h.staged.params ▸ few, operands, quiet, fun x hx => List.mem_append_left _ hx, h.undefined⟩
    have agree (d d' : Bindings) : ExpressionsAgree w ((b.frame i j).hold d d') frames (k + 2) :=
      evaluate_sim fun l hl => calls l (by omega)
    have called : m.store.lookup? i own = some (.function ref) :=
      hm.stores.lookup?_function free isFunction
    rw [show (b.frame i j).source = i from rfl, handOn_call called] at counts ⊢
    obtain ⟨d, d', held⟩ := hm.stores.hold
    obtain ⟨n, r', settled, arrives⟩ := callAssignments_lands h tail agree passes used
      (hm.reframe held rfl) (counts_of_bind counts)
    -- with enough fuel, the rewritten program does its assignments and jumps
    have target (r : EStateM.Result Interrupt Machine Unit)
        (jumps : ∀ n', n ≤ n' → ((callAssignments b.scope args).forM (execute w.limit (n' + 3) j) >>=
          fun _ => throw (.continued (.text w.naming.loop))) m' = r) (n' : Nat) (hn : n + 4 ≤ n') :
        execute w.limit n' (b.frame i j).target
          (.node l (.block (.tuple (callAssignments b.scope args ++
            [jumpBack w.naming])))) m' = r := by
      obtain ⟨n1, rfl⟩ : ∃ n1, n' = n1 + 4 := ⟨n' - 4, by omega⟩
      rw [show (b.frame i j).target = j from rfl, execute_jump]
      exact jumps n1 (by omega)
    cases found : args.mapM (evaluate w.limit (k + 1) i) m with
    | error e m1 =>
      rw [found] at arrives
      cases arrives with
      | @error _ _ e' m1' ends =>
        refine ⟨n + 4, .error e' m1', target _ fun n' hn => bind_of_error (settled n' hn), ?_⟩
        rw [bind_of_error found]
        exact .error (.inl ends)
    | ok vs m1 =>
      rw [found] at arrives
      rw [bind_of_ok found] at counts ⊢
      cases arrives with
      | @ok _ _ _ m1' data keeps reached =>
        obtain ⟨ready, m2', machines⟩ := reached
        obtain ⟨e, m2, left, leaves⟩ := leaves_of_calls loops calls (by omega) data machines counts
        refine ⟨n + 4, .error (.continued (.text w.naming.loop)) m1',
          target _ fun n' hn => bind_of_ok (settled n' hn), ?_⟩
        rw [left]
        exact .error (.inr ⟨leaves, rfl, k + 1, by omega, vs, m1, ready, left⟩)

end Landing

/-! ## Passes -/

/-- The statements of a pass: the variables are reset, and the end is a `return`. -/
def passStatements (b : Body) : List Tree :=
  endWithReturn (Tree.assignAll b.scope.locals [] ++ b.walked)

/-- One pass of the loop around a body. -/
def loopPass (w : World) (b : Body) (fuel env : Nat) : Eval Bool :=
  pass [w.naming.loop] ((passStatements b).forM (execute w.limit fuel env))

section Passes

variable {w : World} {frames : List Frame} {b : Body} {ref fuel i j : Nat} {c c' : Closure}

/-- The loop around a body makes passes until one is left. -/
theorem execute_loopAround (env k : Nat) :
    execute w.limit (k + 4) env (loopAround w.naming b.scope.locals b.walked) =
      repeating (loopPass w b k env) (k + 1) := by
  -- The parts of the generated loop run as what they were made of: its test holds always, and its
  -- body is a block.
  have test : evaluate w.limit (k + 1) env (Tree.new (.literal (.bool true))) =
      pure (.bool true) := by
    rw [Tree.new, evaluate]
    rfl
  have body : execute w.limit (k + 1) env (Tree.block (passStatements b)) =
      (passStatements b).forM (execute w.limit k env) := by
    rw [Tree.block, Tree.new, execute]
    rfl
  have step : (do
      if (← evaluate w.limit (k + 1) env (Tree.new (.literal (.bool true)))).truthy then
        pass [w.naming.loop] (execute w.limit (k + 1) env (Tree.block (passStatements b)))
      else return false) = loopPass w b k env := by
    rw [test, body, pure_bind]
    rfl
  rw [loopAround, Tree.new, execute]
  change executeLabeled w.limit (k + 3) env [w.naming.loop] _ = _
  rw [executeLabeled_loop rfl, Tree.new, executeLoop]
  exact congrArg (repeating · (k + 1)) step

/-- Handing on a value never comes to an end. -/
theorem returning_ne_ok {x : Eval Value} {m m1 : Machine} : returning x m ≠ .ok () m1 := by
  intro ended
  cases found : x m with
  | ok v m2 =>
    rw [returning, bind_of_ok found] at ended
    cases ended
  | error e m2 =>
    rw [returning, bind_of_error found] at ended
    cases ended

/-- What hands on a value does not come back. -/
theorem handOn_ne_ok {limit k env : Nat} {e : Tree} {m m1 : Machine} :
    handOn limit k env e m ≠ .ok () m1 := by
  cases present : e.isNull with
  | true => simpa [handOn, present, returning] using returning_ne_ok (x := pure .undefined)
  | false =>
    rw [handOn_present present]
    exact returning_ne_ok

/-- A `return` is the node of its kind. -/
theorem eq_return {t : Tree} (h : t.hasKind .returnStatement = true) :
    ∃ l e, t = .node l (.returnStatement e) := by
  cases t with
  | node l shape =>
    cases shape with
    | returnStatement e => exact ⟨l, e, rfl⟩
    | function form => cases form <;> cases h
    | jump kind => cases kind <;> cases h
    | forEach domain => cases domain <;> cases h
    | _ => cases h
  | _ => cases h

/-- Statements with a `return` at the end return nothing where they would come to an end. -/
theorem forM_endWithReturn_ok {ts : List Tree} {env k : Nat} {m m1 : Machine}
    (h : ts.forM (execute w.limit (k + 1) env) m = .ok () m1) :
    (endWithReturn ts).forM (execute w.limit (k + 1) env) m = .error (.returned .undefined) m1 := by
  unfold endWithReturn
  split
  · -- after a `return`, no end is reached
    rename_i returns
    exfalso
    rcases List.eq_nil_or_concat ts with rfl | ⟨us, t, rfl⟩
    · cases returns
    · simp only [List.concat_eq_append, List.getLast?_append, List.getLast?_singleton, Option.some_or,
        Option.any_some] at returns
      obtain ⟨l, e, rfl⟩ := eq_return returns
      have last : [Tree.node l (.returnStatement e)].forM (execute w.limit (k + 1) env) =
          handOn w.limit k env e >>= fun _ => pure () := by
        simp only [List.forM, execute_return]
      rw [List.concat_eq_append, forM_append, last] at h
      cases before : us.forM (execute w.limit (k + 1) env) m with
      | error e m2 =>
        rw [bind_of_error before] at h
        cases h
      | ok u m2 =>
        rw [bind_of_ok before, bind_pure] at h
        exact handOn_ne_ok h
  · have end_ : [Tree.new (.returnStatement .null)].forM (execute w.limit (k + 1) env) m1 =
        .error (.returned .undefined) m1 := by
      simp only [List.forM, Tree.new, execute]
      rfl
    rw [forM_append, bind_of_ok h, end_]

/-- If the statements of a body are left, they are left with a `return` at the end as well. -/
theorem forM_endWithReturn_error {ts : List Tree} {env k : Nat} {m m1 : Machine} {e : Interrupt}
    (h : ts.forM (execute w.limit k env) m = .error e m1) :
    (endWithReturn ts).forM (execute w.limit k env) m = .error e m1 := by
  unfold endWithReturn
  split
  · exact h
  · rw [forM_append, bind_of_error h]

/-- Unset variables are undefined, and the others are as before. -/
theorem lookup_putAll_undefined (xs : List Text) (b : Bindings) (x : Text) :
    (putAll (xs.map (·, Value.undefined)) b).lookup x =
      if x ∈ xs then some .undefined else b.lookup x := by
  induction xs generalizing b with
  | nil => rfl
  | cons y xs ih =>
    change (putAll (xs.map (·, Value.undefined)) (putEntry y .undefined b)).lookup x = _
    rw [ih, lookup_putEntry]
    by_cases h : x = y
    · simp [h]
    · simp [h]

/-- An activation of the program joins the one that the rewritten program has more. -/
theorem Beside.join {d d' : Bindings} {f : Frame} {s s' : Store} (h : Beside w frames j d' s s')
    (source : f.source = s.environments.size) (target : f.target = j) (binds : f.Binds w d d') :
    Alike w (f :: frames) (enter s d) s' where
  heap := ⟨h.alike.heap.arrays, h.alike.heap.objects, h.alike.heap.natives, h.alike.heap.foreigns,
    h.alike.heap.constants, h.alike.heap.dataItems, h.alike.heap.dataProperties⟩
  source := h.alike.source
  target := h.alike.target
  globals := by
    obtain ⟨g, here, there, alike⟩ := h.alike.globals
    exact ⟨g, environments_enter_of_some here, there, alike⟩
  related := by
    -- The entered environment is the innermost one of the source, and the one at `j` of the target.
    refine List.forall_mem_cons.mpr ⟨?_, fun g hg => ?_⟩
    · refine ⟨source ▸ h.alike.size_pos.1, target ▸ h.positive, d, d', ?_, ?_, binds⟩
      · rw [source, environments_enter]
      · rw [target, h.here]
    · obtain ⟨hs, ht, e, e', here, there, binds⟩ := h.alike.related g hg
      exact ⟨hs, ht, e, e', environments_enter_of_some here, there, binds⟩
  apart := by
    refine List.pairwise_cons.mpr ⟨fun g hg => ?_, h.alike.apart⟩
    obtain ⟨-, -, e, e', here, -, -⟩ := h.alike.related g hg
    have hs := (Array.getElem?_eq_some_iff.mp here).1
    exact ⟨by omega, target ▸ (h.apart g hg).symm⟩

/-- Where a pass starts after its resets, the environments are those of two new activations. -/
theorem Body.Rewrites.binds_reset (h : b.Rewrites w ref c c') {vs : List Value} {d : Bindings}
    (data : ∀ v ∈ vs, v.isData = true) (loads : b.Loads w vs d) (i j : Nat) :
    (b.frame i j).Binds w (fresh b.params vs (Tree.tuple b.before).varNames)
      (putAll (b.scope.locals.map (·, Value.undefined)) d) where
  same x visible := by
    have known := h.moves.2.2 x
    -- A parameter has its argument, a declared name is unset, and every other name is bound on
    -- neither side.
    rw [lookup_putAll_undefined, lookup_fresh]
    by_cases param : x ∈ b.params
    · rw [if_neg fun here => (known.mp here).2 param, if_pos param, loads.params x param]
    · rw [if_neg param]
      by_cases declared : x ∈ (Tree.tuple b.before).varNames
      · rw [if_pos (known.mpr ⟨declared, param⟩), if_pos declared]
      · rw [if_neg fun here => declared (known.mp here).1, if_neg declared,
          ← Option.not_isSome_iff_eq_none, loads.bound x visible]
        exact fun here => (List.mem_append.mp here).elim param declared
  data := isData_fresh _ data
  bound x := (isSome_lookup_fresh ..).trans List.mem_append.symm
  spared x hx := by
    rw [isSome_lookup_putAll]
    exact .inr (loads.spared x hx)
  kept := nofun
  fresh := List.forall_mem_nil _

/-- The resets at the start of a pass, after which the pass is like a new activation. -/
theorem Ready.start (h : b.Rewrites w ref c c') (loops : w.loops = true) {vs : List Value}
    {m m' : Machine} (ready : Ready w b frames j vs m m') :
    ∃ s1, (∀ k, (Tree.assignAll b.scope.locals []).forM (execute w.limit (k + 3) j) m' =
        .ok () { m' with store := s1 }) ∧
      Matches w (b.frame m.store.environments.size j :: frames)
        ⟨enter m.store (fresh b.params vs (Tree.tuple b.before).varNames), m.depth + 1, b.strict⟩
        { m' with store := s1 } := by
  obtain ⟨d, beside, loads⟩ := ready.loads
  have named (x : Text) (hx : x ∈ b.scope.locals) : x ∈ b.names := (h.mem_names x).mpr (.inr hx)
  -- Two side goals: the locals are bound, and a reset gives the undefined value.
  have known := assignEach_known w.limit
    (b.scope.locals.map (·, Tree.undefined, Value.undefined)) beside ?_ ?_
  · obtain ⟨s1, ran, after⟩ := known
    rw [List.map_map] at after
    refine ⟨s1, fun k => ?_, ?_⟩
    · rw [assignAll_nil, forM_assigning]
      rw [List.map_map] at ran
      exact ran k
    · refine ⟨after.join rfl rfl (h.binds_reset ready.data loads _ _), ready.strict, ?_, ready.depth,
        fun off => ?_⟩
      · simp [Body.frame]
      · rw [loops] at off
        cases off
  · refine List.forall_mem_map.mpr fun x hx => ?_
    exact (loads.bound x (h.visible x (named x hx))).mpr (named x hx)
  · -- no variable is called like the undefined value, so that the resets do not change it
    refine List.forall_mem_map.mpr fun x hx e same => ?_
    have unbound : e.lookup Tree.undefinedName = none := by
      rw [same, ← Option.not_isSome_iff_eq_none, loads.bound _ h.undefined.2]
      · exact h.undefined.1
      · rw [List.map_map]
        intro taken
        obtain ⟨y, hy, eq⟩ := List.mem_map.mp taken
        exact h.undefined.1 (eq ▸ named y hy)
    exact valueIn_of_constantValue constantValue_undefined unbound

/-- How a loop that took the place of calls ends: like the call, with stores that are alike. -/
def Quits (w : World) (frames : List Frame) : Ending := fun e m e' m' =>
  e' = e ∧ Allowed w {} e ∧ Alike w frames m.store m'.store

/-- A call that hands on its value ends like its body, apart from how deep and strict the code is. -/
theorem returning_inCall {strict : Bool} {x : Eval Unit} {m m1 : Machine} {e : Interrupt}
    (h : x ⟨m.store, m.depth + 1, strict⟩ = .error e m1) :
    returning (inCall strict x) m =
      .error e { m1 with depth := m1.depth - 1, strict := m.strict } := by
  cases e with
  | returned v =>
    have called :
        inCall strict x m = .ok v { m1 with depth := m1.depth - 1, strict := m.strict } := by
      rw [inCall, h]
    exact bind_of_ok called
  | _ =>
    refine bind_of_error ?_
    rw [inCall, h]

/-- A call whose body comes to its end hands on undefined. -/
theorem returning_inCall_ok {strict : Bool} {x : Eval Unit} {m m1 : Machine}
    (h : x ⟨m.store, m.depth + 1, strict⟩ = .ok () m1) :
    returning (inCall strict x) m =
      .error (.returned .undefined) { m1 with depth := m1.depth - 1, strict := m.strict } := by
  have called :
      inCall strict x m = .ok .undefined { m1 with depth := m1.depth - 1, strict := m.strict } := by
    rw [inCall, h]
  exact bind_of_ok called

/-- A pass that is left ends the loop. -/
theorem repeating_loopPass_leaves {k p : Nat} {m m1 : Machine} {e : Interrupt} (leaves : Leaves e)
    (h : (passStatements b).forM (execute w.limit k j) m = .error e m1) :
    repeating (loopPass w b k j) (p + 1) m = .error e m1 := by
  have left : loopPass w b k j m = .error e m1 := by
    rw [loopPass, Eval.pass, h]
    cases e with
    | returned v => rfl
    | failed error => rfl
    | _ => exact leaves.elim
  exact bind_of_error left

/-- A pass that jumps back to the start of the loop is followed by another one. -/
theorem repeating_loopPass_jumps {k p : Nat} {m m1 : Machine}
    (h : (passStatements b).forM (execute w.limit k j) m =
      .error (.continued (.text w.naming.loop)) m1) :
    repeating (loopPass w b k j) (p + 1) m = repeating (loopPass w b k j) p m1 := by
  have mine : concerns [w.naming.loop] (.text w.naming.loop) = .ok true := by
    simp [concerns, Tree.isNull, Tree.key, Except.map]
  have again : loopPass w b k j m = .ok true m1 := by
    rw [loopPass, Eval.pass, h]
    simp only [mine]
  exact bind_of_ok again

/-- A call of a function by itself and the passes of the loop from the one that stands for the call
agree. The induction is on the fuel of the call: a tail call that it ends with has less. -/
theorem loop_sim (h : b.Rewrites w ref c c') (tail : b.scope.isTailRecursive = true)
    (here : w.source[ref]? = some c) {bound : Nat} (calls : CallsAgree w bound) (fuel : Nat)
    (hf : fuel ≤ bound + 1) :
    ∀ vs m m', Ready w b frames j vs m m' →
      Counts w (returning (call w.limit fuel (.function ref) vs) m) →
      ∃ n r', (∀ k p, n ≤ k → n ≤ p → repeating (loopPass w b k j) p m' = r') ∧
        Agree w frames (fun _ => False) (Quits w frames)
          (returning (call w.limit fuel (.function ref) vs) m) r' := by
  -- On the fuel of the program: its tail calls are made with less, and for each of them there is
  -- one more pass of the loop.
  induction fuel using Nat.strongRecOn with
  | ind fuel ih =>
  intro vs m m' ready counts
  match fuel with
  | 0 =>
    rw [call] at counts
    exact (counts .exhausted m rfl).elim
  | fuel + 1 =>
  have loops := (h.loop tail).1
  have shallow : m.depth < w.limit := by
    by_contra deep
    have := counts _ _ (bind_of_error (call_tooDeep (by omega) fuel vs))
    rw [World.Compares, loops] at this
    cases this
  obtain ⟨d, beside, -⟩ := ready.loads
  have found : m.store.closures[ref]? = some c := by rw [beside.alike.source, here]
  have called := call_function found h.source shallow fuel vs
  rw [h.strict.1] at called
  -- The program runs the body in an environment made for its names, and a pass of the loop runs it
  -- in the one that is there.
  have whole : returning (call w.limit (fuel + 1) (.function ref) vs) m =
      returning (inCall b.strict (b.before.forM (execute w.limit fuel m.store.environments.size)))
        { m with store := enter m.store (fresh b.params vs (Tree.tuple b.before).varNames) } := by
    change EStateM.bind _ _ _ = EStateM.bind _ _ _
    rw [EStateM.bind, called, EStateM.bind]
  rw [whole] at counts ⊢
  obtain ⟨s1, resets, entered⟩ := ready.start h loops
  have calls' : CallsAgree w fuel := fun l hl => calls l (by omega)
  obtain ⟨s, s', walks, scope, -⟩ := h.walks
  have tails : TailsAgree w (b.frame m.store.environments.size j) frames
      (Pends w b ref frames j fuel) fuel s'.scope := scope ▸ h.tailsAgree tail calls'
  have statements := h.statements m.store.environments.size j
  rw [Body.unset, if_pos tail] at statements
  have body := agrees_of_walks ⟨calls', rfl, h.undefined.1, h.undefined.2, tails⟩ walks (.refl _) {}
    (statements.statements rfl) fuel (Nat.le_refl _) _ _ entered
  obtain ⟨n, r', settled, agree⟩ := body fun e m1 left => counts e _ (returning_inCall left)
  have reached (k : Nat) (hk : n ≤ k) :
      (Tree.assignAll b.scope.locals [] ++ b.walked).forM (execute w.limit (k + 3) j) m' = r' := by
    rw [forM_append, bind_of_ok (resets k)]
    exact settled _ (by omega)
  rw [show (b.frame m.store.environments.size j).source = m.store.environments.size from rfl] at agree
  generalize ran : b.before.forM (execute w.limit fuel m.store.environments.size) _ = r at agree
  cases agree with
  | @ok _ m1 m1' value machines =>
    -- The end of the body is reached, where a pass leaves the loop as well.
    refine ⟨n + 3, .error (.returned .undefined) m1', fun k p hk hp => ?_, ?_⟩
    · obtain ⟨k, rfl⟩ : ∃ k1, k = k1 + 3 := ⟨k - 3, by omega⟩
      obtain ⟨p, rfl⟩ : ∃ p1, p = p1 + 1 := ⟨p - 1, by omega⟩
      exact repeating_loopPass_leaves trivial (forM_endWithReturn_ok (reached k (by omega)))
    · rw [returning_inCall_ok ran]
      exact .error ⟨rfl, rfl, machines.stores.leave⟩
  | @error e e' m1 m1' ends =>
    rw [returning_inCall (m := { m with store := enter m.store _ }) ran] at counts ⊢
    rcases ends with ⟨rfl, allowed, machines⟩ | ⟨leaves, rfl, pends⟩
    · have leaves : Leaves e' := by
        cases e' with
        | returned v => trivial
        | failed error => trivial
        | broke label => exact (not_catches_none (allowed loops)).elim
        | continued label => exact (not_catches_none (allowed loops)).elim
        | exhausted => exact allowed
      refine ⟨n + 3, .error e' m1', fun k p hk hp => ?_, .error ⟨rfl, allowed, machines.stores.leave⟩⟩
      obtain ⟨k, rfl⟩ : ∃ k1, k = k1 + 3 := ⟨k - 3, by omega⟩
      obtain ⟨p, rfl⟩ : ∃ p1, p = p1 + 1 := ⟨p - 1, by omega⟩
      exact repeating_loopPass_leaves leaves (forM_endWithReturn_error (reached k (by omega)))
    · -- the program makes a tail call, for which the next pass stands
      obtain ⟨less, hless, us, m2, next, left⟩ := pends
      have later := ih less (by omega) (by omega) us m2 m1' next
      rw [left] at later
      obtain ⟨n2, r2, settled2, agree2⟩ := later fun e m0 eq => by
        cases eq
        exact counts _ _ rfl
      cases agree2 with
      | @error _ e2 _ m2' quits =>
        refine ⟨max n n2 + 3, .error e2 m2', fun k p hk hp => ?_, .error quits⟩
        obtain ⟨k, rfl⟩ : ∃ k1, k = k1 + 3 := ⟨k - 3, by omega⟩
        obtain ⟨p, rfl⟩ : ∃ p1, p = p1 + 1 := ⟨p - 1, by omega⟩
        rw [repeating_loopPass_jumps (forM_endWithReturn_error (reached k (by omega)))]
        exact settled2 _ p (by omega) (by omega)

/-- A new activation of the rewritten program alone. -/
theorem Alike.besides {s s' : Store} {d : Bindings} (h : Alike w frames s s') :
    Beside w frames s'.environments.size d s (Simulation.enter s' d) where
  alike :=
    { heap := ⟨h.heap.arrays, h.heap.objects, h.heap.natives, h.heap.foreigns, h.heap.constants,
        h.heap.dataItems, h.heap.dataProperties⟩
      source := h.source
      target := h.target
      globals := by
        -- The new environment is added at the end of the target, where no frame has one.
        obtain ⟨g, here, there, alike⟩ := h.globals
        exact ⟨g, here, environments_enter_of_some there, alike⟩
      related := fun f hf => by
        obtain ⟨hs, ht, e, e', here, there, binds⟩ := h.related f hf
        exact ⟨hs, ht, e, e', here, environments_enter_of_some there, binds⟩
      apart := h.apart }
  positive := h.size_pos.2
  here := environments_enter ..
  apart f hf := by
    obtain ⟨-, -, e, e', -, there, -⟩ := h.related f hf
    have := (Array.getElem?_eq_some_iff.mp there).1
    omega

/-- When a function that became a loop is called, its first pass can start. -/
theorem Body.Rewrites.ready (h : b.Rewrites w ref c c') {m m' : Machine} (hm : Matches w frames m m')
    {vs : List Value} (data : ∀ v ∈ vs, v.isData = true) :
    Ready w b frames m'.store.environments.size vs m
      ⟨Simulation.enter m'.store (fresh b.params vs (Tree.tuple b.after).varNames), m'.depth + 1,
        b.strict⟩ where
  loads := by
    refine ⟨_, hm.stores.besides, ?_⟩
    have binds := h.binds 0 0 data
    constructor
    · intro x hx
      rw [lookup_fresh, if_pos hx]
    · intro x visible
      rw [binds.same x visible]
      exact binds.bound x
    · exact binds.spared
  data := data
  strict := rfl
  depth := Nat.succ_le_succ hm.depth

/-- A finished body that is a loop runs like the loop. -/
theorem Body.Rewrites.forM_after_loop (h : b.Rewrites w ref c c')
    (tail : b.scope.isTailRecursive = true) (env k : Nat) (m : Machine) :
    b.after.forM (execute w.limit (k + 4) env) m = repeating (loopPass w b k env) (k + 1) m := by
  have finished := h.finished
  rw [finishBody_loop tail] at finished
  have same : b.scope.directive.toList ++ Tree.declareAll b.scope.locals ++
      (Tree.declareEach b.scope.used [] ++ [loopAround w.naming b.scope.locals b.walked]) = b.after :=
    Except.ok.inj finished
  -- The directive and the declarations do nothing when they run, so that the loop runs first.
  have directive : b.scope.directive.toList.forM (execute w.limit (k + 4) env) m = .ok () m :=
    forM_idle fun t ht => execute_directive (h.directive t (Option.mem_toList.mp ht)) (k + 2)
  have declarations : (Tree.declareAll b.scope.locals).forM (execute w.limit (k + 4) env) m =
      .ok () m := forM_idle (execute_declareAll b.scope.locals (k + 2))
  have temporaries : (Tree.declareEach b.scope.used []).forM (execute w.limit (k + 4) env) m =
      .ok () m := forM_idle (execute_declareEach b.scope.used (k + 2))
  have loop : [loopAround w.naming b.scope.locals b.walked].forM (execute w.limit (k + 4) env) =
      repeating (loopPass w b k env) (k + 1) := by
    simp only [List.forM, execute_loopAround]
    exact bind_pure _
  simp only [← same, forM_append, bind_assoc]
  rw [bind_of_ok directive, bind_of_ok declarations, bind_of_ok temporaries, loop]

end Passes

/-! ## All calls -/

section Calls

variable {w : World} {frames : List Frame} {b : Body} {ref fuel : Nat} {c c' : Closure}

/-- A call is not left by a `return`. -/
theorem inCall_ne_returned (strict : Bool) (x : Eval Unit) (m m1 : Machine) (v : Value) :
    inCall strict x m ≠ .error (.returned v) m1 := by
  rw [inCall]
  cases x ⟨m.store, m.depth + 1, strict⟩ with
  | ok => rintro ⟨⟩
  | error e => cases e <;> rintro ⟨⟩

/-- Calls of a function that became a loop agree. -/
theorem Body.Rewrites.call_loop_sim (h : b.Rewrites w ref c c')
    (tail : b.scope.isTailRecursive = true) (here : w.source[ref]? = some c)
    (there : w.target[ref]? = some c') (calls : CallsAgree w fuel) {args : List Value}
    (data : ∀ v ∈ args, v.isData = true) :
    Sim w frames (·.isData = true) (Throws w frames {}) (call w.limit (fuel + 1) (.function ref) args)
      fun k => call w.limit k (.function ref) args := by
  intro m m' hm counts
  have loops := (h.loop tail).1
  have found : m.store.closures[ref]? = some c := by rw [hm.stores.source, here]
  have found' : m'.store.closures[ref]? = some c' := by rw [hm.stores.target, there]
  have shallow : m.depth < w.limit := by
    by_contra deep
    have := counts _ _ (call_tooDeep (by omega) fuel args)
    rw [World.Compares, loops] at this
    cases this
  have shallow' : m'.depth < w.limit := by have := hm.depth; omega
  have whole : Counts w (returning (call w.limit (fuel + 1) (.function ref) args) m) := by
    intro e m1 left
    cases ran : call w.limit (fuel + 1) (.function ref) args m with
    | ok v m2 =>
      rw [returning, bind_of_ok ran] at left
      cases left
      trivial
    | error e' m2 =>
      rw [returning, bind_of_error ran] at left
      cases left
      exact counts _ _ ran
  obtain ⟨n, r', settled, agree⟩ := loop_sim h tail here calls (fuel + 1) (Nat.le_refl _) args m _
    (h.ready hm data) whole
  have target (k : Nat) (hk : n + 5 ≤ k) : call w.limit k (.function ref) args m' =
      inCall b.strict (fun _ => r')
        { m' with
          store := Simulation.enter m'.store
            (fresh b.params args (Tree.tuple b.after).varNames) } := by
    obtain ⟨k, rfl⟩ : ∃ k1, k = k1 + 5 := ⟨k - 5, by omega⟩
    have called := call_function found' h.target shallow' (k + 4) args
    rw [called, h.strict.2]
    simp only [inCall, h.forM_after_loop tail, settled k (k + 1) (by omega) (by omega)]
  have outer := keeps_call (Nat.le_of_lt shallow) (fuel + 1) (.function ref) args
  -- the loop leaves as many calls under way as there were in the call, so one more than the caller
  -- has
  have inner := keeps_statements
    (m := ⟨Simulation.enter m'.store (fresh b.params args
      (Tree.tuple b.after).varNames), m'.depth + 1,
      b.strict⟩) shallow' (n + 4) m'.store.environments.size b.after
  rw [h.forM_after_loop tail, settled n (n + 1) (by omega) (by omega)] at inner
  refine ⟨n + 5, _, target, ?_⟩
  have left {m1 m1' : Machine} (kept : Kept m m1) (within : m1'.depth = m'.depth + 1)
      (stores : Alike w frames m1.store m1'.store) :
      Matches w frames m1 { m1' with depth := m1'.depth - 1, strict := m'.strict } := by
    have back : m1'.depth - 1 = m'.depth := congrArg (· - 1) within
    rw [back]
    exact ⟨stores, hm.strict.trans kept.strict.symm, fun f hf => kept.strict.trans (hm.mode f hf),
      kept.depth ▸ hm.depth, fun off => (hm.exact off).trans kept.depth.symm⟩
  cases ran : call w.limit (fuel + 1) (.function ref) args m with
  | ok v m1 =>
    rw [ran] at outer
    rw [returning, bind_of_ok ran] at agree
    cases agree with
    | error quits =>
      obtain ⟨rfl, value, stores⟩ := quits
      cases outer with
      | ok kept => cases inner with
        | error within => exact .ok value (left kept within.depth stores)
  | error e m1 =>
    rw [ran] at outer
    rw [returning, bind_of_error ran] at agree
    cases agree with
    | @error _ e' _ m1' quits =>
      obtain ⟨rfl, allowed, stores⟩ := quits
      cases e' with
      | returned v =>
        rw [call_function found h.source shallow] at ran
        exact (inCall_ne_returned _ _ _ _ v ran).elim
      | broke label => exact (not_catches_none (allowed loops)).elim
      | continued label => exact (not_catches_none (allowed loops)).elim
      | failed error =>
        cases outer with
        | error kept => cases inner with
          | error within => exact .error ⟨rfl, trivial, left kept within.depth stores⟩
      | exhausted => exact allowed.elim

/-- The functions of the rewritten program are those of the program, rewritten. -/
def World.Rewritten (w : World) : Prop :=
  w.target.size = w.source.size ∧ ∀ ref c c', w.source[ref]? = some c → w.target[ref]? = some c' →
    ∃ b : Body, b.Rewrites w ref c c'

/-- A number that is not that of a function cannot be called. -/
theorem call_missing {limit ref : Nat} {m : Machine} (missing : m.store.closures[ref]? = none)
    (shallow : m.depth < limit) (fuel : Nat) (args : List Value) :
    call limit (fuel + 1) (.function ref) args m = .error (.failed (.malformed .noItem)) m := by
  simp only [call, get_bind, missing, if_neg (Nat.not_le.mpr shallow)]
  rfl

/-- All calls agree. The induction is on the fuel of the program: the calls that a call makes have
less. -/
theorem callsAgree (rewritten : w.Rewritten) (fuel : Nat) : CallsAgree w fuel := by
  induction fuel with
  | zero => exact fun j hj => absurd hj (Nat.not_lt_zero j)
  | succ fuel ih =>
    intro j hj frames ref args data
    rcases Nat.lt_succ_iff_lt_or_eq.mp hj with hj | rfl
    · exact ih j hj frames ref args data
    cases j with
    | zero =>
      rw [call]
      exact .exhausted
    | succ j =>
      have calls : CallsAgree w j := fun i hi => ih i (by omega)
      cases here : w.source[ref]? with
      | none =>
        -- Neither program has such a function, and both refuse in the same way.
        refine .later fun m m' hm => ?_
        by_cases deep : w.limit ≤ m.depth
        · exact hm.tooDeep_sim deep
        · have missing : m.store.closures[ref]? = none := by rw [hm.stores.source, here]
          have missing' : m'.store.closures[ref]? = none := by
            rw [Array.getElem?_eq_none_iff] at here
            rw [hm.stores.target, Array.getElem?_eq_none_iff, rewritten.1]
            exact here
          have shallow' : m'.depth < w.limit := by have := hm.depth; omega
          intro _
          refine ⟨0, _, fun k _ => call_missing missing' shallow' k args, ?_⟩
          rw [call_missing missing (by omega)]
          exact .error ⟨rfl, trivial, hm⟩
      | some c =>
        cases there : w.target[ref]? with
        | none =>
          have less := (Array.getElem?_eq_some_iff.mp here).1
          rw [Array.getElem?_eq_none_iff, rewritten.1] at there
          omega
        | some c' =>
          obtain ⟨b, h⟩ := rewritten.2 ref c c' here there
          cases tail : b.scope.isTailRecursive with
          | true => exact h.call_loop_sim tail here there calls data
          | false => exact h.call_plain_sim tail here there calls data

end Calls

end TailLoop.Simulation
