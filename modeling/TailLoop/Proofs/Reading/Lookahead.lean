import Mathlib.Data.Finset.Card
import Mathlib.Data.List.Nodup
import TailLoop.Proofs.Reading.Automaton

/-!
# What the states of the reader do before a terminal

Every symbol leads from a state to one state only (`Leads.unique`), as the exploration keeps one
number for each set of items. A phrase that is begun in a state is read along a path of states, one
for each symbol of a production (`path_of_begun`).

`CanFollow q A t` says by rules that the terminal `t` can come after the phrase `A` where this is
begun in the state `q`: it is read after the phrase, or it can come after a phrase whose production
ends with it. The tables that the reader computes in rounds hold exactly these terminals
(`testBit_follows`). The rounds are enough since a further round adds a bit to a bounded sum or
changes nothing (`foldl_spread`). In a state where a production is finished and nothing else can be
done before a terminal that can follow, the production is reduced (`action_of_finishes`).
-/

namespace TailLoop.Grammar.Automaton

/-! ## One state after each symbol -/

/-- No terminal and no phrase is listed twice. -/
theorem nodup_all : Terminal.all.Nodup ∧ Phrase.all.Nodup := by decide +kernel

/-- No symbol is listed twice. -/
theorem nodup_symbols : symbols.Nodup := by
  rw [symbols, List.nodup_append]
  refine ⟨nodup_all.1.map fun _ _ h => Symbol.terminal.inj h,
    nodup_all.2.map fun _ _ h => Symbol.phrase.inj h, ?_⟩
  intro X hX Y hY
  obtain ⟨t, -, rfl⟩ := List.mem_map.mp hX
  obtain ⟨p, -, rfl⟩ := List.mem_map.mp hY
  intro same
  cases same

/-- The symbols that lead on are some of those that are tried, in the same order. -/
theorem follow_sublist (closed : Nat) (masks : List (Symbol × Nat)) (kernels : Array Nat) :
    ((Graph.follow closed masks kernels).2.map (·.1)).Sublist (masks.map (·.1)) := by
  induction masks generalizing kernels with
  | nil => exact .slnil
  | cons e masks ih =>
    rw [Graph.follow]
    split
    · exact (ih kernels).cons _
    · exact (ih _).cons_cons _

/-- Each symbol leads from a visited state to one state only, and no set of items begins two
states. All these sets are numbers below a bound. -/
structure Graph.Tidy (bound : Nat) (g : Graph) : Prop where
  arrows : ∀ (q : Nat) arrows, g.arrows[q]? = some arrows → (arrows.map (·.1)).Nodup
  kernels : g.kernels.toList.Nodup
  small : ∀ k ∈ g.kernels, k < bound
  visited : g.arrows.size ≤ g.kernels.size

/-- A set of items gets a number only if it has none. -/
theorem place_nodup {kernels : Array Nat} (h : kernels.toList.Nodup) (kernel : Nat) :
    (Graph.place kernels kernel).1.toList.Nodup := by
  unfold Graph.place
  split
  · exact h
  · rename_i new
    rw [Array.toList_push, List.nodup_append]
    refine ⟨h, List.nodup_singleton _, ?_⟩
    rintro a ha b hb rfl
    rw [List.mem_singleton] at hb
    subst hb
    have away := Array.findIdx?_eq_none_iff.mp new a (Array.mem_toList_iff.mp ha)
    simp at away

/-- A set that has a number had one or is the new one. -/
theorem mem_place {kernels : Array Nat} {kernel k : Nat}
    (h : k ∈ (Graph.place kernels kernel).1) : k ∈ kernels ∨ k = kernel := by
  unfold Graph.place at h
  split at h
  · exact .inl h
  · exact Array.mem_push.mp h

/-- A state found while a state is visited was found before, or a symbol leads to it. -/
theorem mem_follow {c k : Nat} {masks : List (Symbol × Nat)} {kernels : Array Nat}
    (h : k ∈ (Graph.follow c masks kernels).1) :
    k ∈ kernels ∨ ∃ e ∈ masks, k = (c &&& e.2) <<< 1 := by
  induction masks generalizing kernels with
  | nil => exact .inl h
  | cons e masks ih =>
    rw [Graph.follow] at h
    split at h
    · rcases ih h with old | ⟨d, hd, rfl⟩
      · exact .inl old
      · exact .inr ⟨d, List.mem_cons_of_mem _ hd, rfl⟩
    · rcases ih h with old | ⟨d, hd, rfl⟩
      · rcases mem_place old with old | rfl
        · exact .inl old
        · exact .inr ⟨e, List.mem_cons_self, rfl⟩
      · exact .inr ⟨d, List.mem_cons_of_mem _ hd, rfl⟩

/-- Following the symbols of a state keeps the sets distinct, and loses none. -/
theorem follow_nodup (closed : Nat) (masks : List (Symbol × Nat)) {kernels : Array Nat}
    (nodup : kernels.toList.Nodup) :
    (Graph.follow closed masks kernels).1.toList.Nodup ∧
      kernels.size ≤ (Graph.follow closed masks kernels).1.size := by
  induction masks generalizing kernels with
  | nil => exact ⟨nodup, Nat.le_refl _⟩
  | cons e masks ih =>
    rw [Graph.follow]
    split
    · exact ih nodup
    · obtain ⟨nodup', grows⟩ := ih (place_nodup nodup ((closed &&& e.2) <<< 1))
      refine ⟨nodup', Nat.le_trans ?_ grows⟩
      unfold Graph.place
      split <;> simp

attribute [local irreducible] items itemSet before fullOpenings

/-- A set of items is a number with no more digits than there are items. -/
theorem itemSet_lt (p : Item → Bool) : itemSet p < Nat.pow 2 items.length := by
  refine Nat.lt_pow_two_of_testBit _ fun j out => ?_
  rw [Bool.eq_false_iff]
  intro bit
  obtain ⟨it, found, -⟩ := (testBit_itemSet p j).mp bit
  have := (List.getElem?_eq_some_iff.mp found).1
  omega

/-- The items after a symbol are a set of items. -/
theorem masked_lt (closed : Nat) {e : Symbol × Nat} (he : e ∈ before) :
    (closed &&& e.2) <<< 1 < Nat.pow 2 (items.length + 1) := by
  obtain ⟨X, mask⟩ := e
  cases mem_before.1 he
  rw [Nat.shiftLeft_eq]
  have small : closed &&& beforeSymbol X < Nat.pow 2 items.length :=
    Nat.lt_of_le_of_lt Nat.and_le_right (itemSet_lt _)
  rw [Nat.pow_eq] at small ⊢
  dsimp only
  omega

/-- The symbols that are tried are all symbols, in their order. -/
theorem keys_before : before.map (·.1) = symbols := by
  unfold before
  rw [List.map_map]
  exact List.map_id _

/-- A visit leaves the graph tidy. -/
theorem Graph.Tidy.visit {g : Graph} {kernel : Nat}
    (h : g.Tidy (Nat.pow 2 (items.length + 1))) (found : g.kernels[g.arrows.size]? = some kernel) :
    Graph.Tidy (Nat.pow 2 (items.length + 1))
      ⟨(Graph.follow (closure kernel) before g.kernels).1, g.closed.push (closure kernel),
        g.arrows.push (Graph.follow (closure kernel) before g.kernels).2⟩ := by
  obtain ⟨nodup, grows⟩ := follow_nodup (closure kernel) before h.kernels
  refine ⟨?_, nodup, ?_, ?_⟩
  -- The arrows of the new state have distinct symbols, as the masks do.
  · intro q arrows ha
    rcases getElem?_push_or ha with ⟨-, rfl⟩ | ⟨-, ha⟩
    · have sub := follow_sublist (closure kernel) before g.kernels
      rw [keys_before] at sub
      exact sub.nodup nodup_symbols
    · exact h.arrows q arrows ha
  -- The new kernels are made of items, which are finitely many.
  · intro k hk
    rcases mem_follow hk with old | ⟨e, he, rfl⟩
    · exact h.small k old
    · exact masked_lt _ he
  -- One state more is visited.
  · have bound := (Array.getElem?_eq_some_iff.mp found).1
    simp only [Array.size_push]
    omega

/-- There are no more states than sets of items. -/
theorem Graph.Tidy.size_le {bound : Nat} {g : Graph} (h : g.Tidy bound) :
    g.kernels.size ≤ bound := by
  rw [← Array.length_toList, ← List.toFinset_card_of_nodup h.kernels, ← Finset.card_range bound]
  refine Finset.card_le_card fun k hk => ?_
  rw [List.mem_toFinset, Array.mem_toList_iff] at hk
  exact Finset.mem_range.mpr (h.small k hk)

/-- With as much fuel as there are sets of items, all states are visited. -/
theorem Graph.Tidy.explore {fuel : Nat} {g : Graph} (h : g.Tidy (Nat.pow 2 (items.length + 1)))
    (enough : Nat.pow 2 (items.length + 1) ≤ g.arrows.size + fuel) :
    (Graph.explore before fullOpenings fuel g).Tidy (Nat.pow 2 (items.length + 1)) ∧
      (Graph.explore before fullOpenings fuel g).kernels.size ≤
        (Graph.explore before fullOpenings fuel g).arrows.size := by
  induction fuel generalizing g with
  | zero => exact ⟨h, h.size_le.trans enough⟩
  | succ fuel ih =>
    rw [Graph.explore]
    split
    · rename_i done
      exact ⟨h, Array.getElem?_eq_none_iff.mp done⟩
    · rename_i kernel found
      refine ih (h.visit found) ?_
      simp only [Array.size_push]
      omega

/-- The graph of the states is tidy. -/
theorem tidy_graph : graph.Tidy (Nat.pow 2 (items.length + 1)) ∧
    graph.kernels.size ≤ graph.arrows.size := by
  apply Graph.Tidy.explore
  · refine ⟨by simp, by simp, ?_, by simp⟩
    intro k hk
    rw [show k = 1 by simpa using hk]
    exact Nat.one_lt_two_pow (Nat.succ_ne_zero _)
  · exact Nat.le_add_left _ _

/-- A property of the set of items with which the first state begins that reading a symbol keeps
holds of all states. -/
theorem kernels_induction {P : Nat → Prop} (start : P 1)
    (step : ∀ k X, P k → P ((closure k &&& beforeSymbol X) <<< 1)) :
    ∀ k ∈ graph.kernels, P k := by
  -- By induction on the fuel, for all graphs whose kernels have the property.
  have general : ∀ fuel (g : Graph), (∀ k ∈ g.kernels, P k) →
      ∀ k ∈ (Graph.explore before fullOpenings fuel g).kernels, P k := by
    intro fuel
    induction fuel with
    | zero => exact fun g h => h
    | succ fuel ih =>
      intro g h
      rw [Graph.explore]
      split
      · exact h
      · rename_i kernel found
        refine ih _ fun k hk => ?_
        rcases mem_follow (c := closure kernel) hk with old | ⟨⟨X, mask⟩, he, rfl⟩
        · exact h k old
        · cases mem_before.1 he
          exact step kernel X (h kernel (Array.mem_of_getElem? found))
  exact general _ _ fun k hk => by rwa [show k = 1 by simpa using hk]

attribute [local irreducible] graph

/-- Every state that a symbol leads to is visited. -/
theorem Leads.visited {q r : Nat} {X : Symbol} (h : Leads q X r) : Visited r := by
  obtain ⟨kernel, -, target⟩ := kernel_of_leads h
  exact Nat.lt_of_lt_of_le (Array.getElem?_eq_some_iff.mp target).1 tidy_graph.2

/-- The first state is visited. -/
theorem visited_first : Visited 0 :=
  Nat.lt_of_lt_of_le (Array.getElem?_eq_some_iff.mp (sound_graph).start).1 tidy_graph.2

/-- In a table without double keys, a listed pair is found by its key. -/
theorem lookup_of_nodup {α β : Type} [DecidableEq α] {l : List (α × β)} {a : α} {b : β}
    (nodup : (l.map (·.1)).Nodup) (h : (a, b) ∈ l) : l.lookup a = some b := by
  induction l with
  | nil => cases h
  | cons e l ih =>
    obtain ⟨k, v⟩ := e
    rw [List.map_cons, List.nodup_cons] at nodup
    rw [List.lookup_cons]
    rcases List.mem_cons.mp h with same | inside
    · cases same
      simp
    · have apart : a ≠ k := by
        rintro rfl
        exact nodup.1 (List.mem_map.mpr ⟨_, inside, rfl⟩)
      rw [beq_eq_false_iff_ne.mpr apart]
      exact ih nodup.2 inside

/-- Where a symbol leads, the graph tells. -/
theorem after_of_leads {q r : Nat} {X : Symbol} (h : Leads q X r) : graph.after q X = some r := by
  obtain ⟨arrows, found, arrow⟩ := h
  rw [Graph.after, found]
  exact lookup_of_nodup (tidy_graph.1.arrows q arrows found) arrow

/-- A symbol leads from a state to one state only. -/
theorem Leads.unique {q r r' : Nat} {X : Symbol} (h : Leads q X r) (h' : Leads q X r') : r = r' :=
  Option.some.inj ((after_of_leads h).symm.trans (after_of_leads h'))

/-! ## Readings of productions -/

/-- A phrase is begun in a state: it leads on from there, or it is the root in the first state. -/
def Begun (q : Nat) (A : Phrase) : Prop := (q = 0 ∧ A = .root) ∨ ∃ r, Leads q (.phrase A) r

/-- Reading symbols one after the other leads from a state to another. -/
def Path (q : Nat) : List Symbol → Nat → Prop
  | [], r => q = r
  | X :: rest, r => ∃ s, Leads q X s ∧ Path s rest r

/-- A path goes on by one symbol. -/
theorem Path.concat {q s r : Nat} {Xs : List Symbol} {X : Symbol} (path : Path q Xs s)
    (led : Leads s X r) : Path q (Xs ++ [X]) r := by
  induction Xs generalizing q with
  | nil =>
    cases path
    exact ⟨r, led, rfl⟩
  | cons Y Xs ih =>
    obtain ⟨u, first, rest⟩ := path
    exact ⟨u, first, ih rest⟩

/-- Symbols lead from a state to one state only. -/
theorem Path.unique {q r r' : Nat} {Xs : List Symbol} (path : Path q Xs r) (path' : Path q Xs r') :
    r = r' := by
  induction Xs generalizing q with
  | nil => exact path.symm.trans path'
  | cons X Xs ih =>
    obtain ⟨u, led, rest⟩ := path
    obtain ⟨u', led', rest'⟩ := path'
    cases led.unique led'
    exact ih rest rest'

/-- A path from a visited state ends at one. -/
theorem Path.visited {q r : Nat} {Xs : List Symbol} (path : Path q Xs r) (h : Visited q) :
    Visited r := by
  induction Xs generalizing q with
  | nil => exact path ▸ h
  | cons Y Xs ih =>
    obtain ⟨u, first, rest⟩ := path
    exact ih rest first.visited

/-- A path for two rows of symbols is two paths. -/
theorem Path.split {q r : Nat} {Xs Ys : List Symbol} (path : Path q (Xs ++ Ys) r) :
    ∃ s, Path q Xs s ∧ Path s Ys r := by
  induction Xs generalizing q with
  | nil => exact ⟨q, rfl, path⟩
  | cons Y Xs ih =>
    obtain ⟨u, first, rest⟩ := path
    obtain ⟨s, here, there⟩ := ih rest
    exact ⟨s, ⟨u, first, here⟩, there⟩

/-- The states passed while symbols are read end with the one that is reached. -/
theorem Path.getLast?_trace {q r : Nat} {Xs : List Symbol} (path : Path q Xs r) :
    (graph.trace q Xs).getLast? = some r := by
  induction Xs generalizing q with
  | nil =>
    cases path
    rfl
  | cons X Xs ih =>
    obtain ⟨s, led, rest⟩ := path
    rw [Graph.trace, after_of_leads led]
    dsimp only
    rw [List.getLast?_cons, ih rest]
    rfl

/-- The state before the last one on a path. -/
theorem Path.dropLast_trace {q s : Nat} {Xs : List Symbol} {X : Symbol} {r : Nat}
    (path : Path q Xs s) (led : Leads s X r) :
    (graph.trace q (Xs ++ [X])).dropLast.getLast? = some s := by
  -- By induction on the path, whose last step is left out.
  induction Xs generalizing q with
  | nil =>
    cases path
    simp [Graph.trace, after_of_leads led]
  | cons Y Xs ih =>
    obtain ⟨u, first, rest⟩ := path
    have more : graph.trace u (Xs ++ [X]) ≠ [] := by
      intro empty
      have last := (rest.concat led).getLast?_trace
      rw [empty] at last
      cases last
    rw [List.cons_append, Graph.trace, after_of_leads first]
    dsimp only
    rw [List.dropLast_cons_of_ne_nil more, List.getLast?_cons, ih rest]
    rfl

/-- Where the start of a production is, all its symbols can be read. -/
theorem path_of_here {q j i number : Nat} {p : Production} (of : productions[number]? = some p)
    (visited : Visited q) (here : Here q j)
    (found : items[j]? = some ⟨number, i, p.symbols[i]?⟩) :
    ∃ r, Path q (p.symbols.drop i) r := by
  -- By induction on the symbols that are left.
  induction more : p.symbols.drop i generalizing q i j with
  | nil => exact ⟨q, rfl⟩
  | cons X rest ih =>
    obtain ⟨p', of', describes⟩ := describes_item found
    cases of.symm.trans of'
    have next : p.symbols[i]? = some X := by
      rw [← List.head?_drop, more]
      rfl
    have rest' : p.symbols.drop (i + 1) = rest := by
      rw [← List.drop_drop, more]
      rfl
    obtain ⟨s, led⟩ := leads_of_here visited here found next
    have after := describes.after (by simp [next])
    obtain ⟨r, path⟩ := ih led.visited (here_of_leads led here found next) after rest'
    exact ⟨r, s, led, path⟩

/-- The phrases that the graph begins in a state are those begun there. -/
theorem mem_begun {q : Nat} {A : Phrase} (visited : Visited q) :
    A ∈ graph.begun q ↔ Begun q A := by
  obtain ⟨-, arrows, -, -, ha⟩ := visited.spec
  rw [Graph.begun, List.mem_append, ha, Option.getD_some, List.mem_filterMap, Begun]
  refine or_congr ?_ ?_
  · split <;> simp_all
  · constructor
    · rintro ⟨⟨X, r⟩, arrow, isPhrase⟩
      cases X with
      | terminal t => cases isPhrase
      | phrase P =>
        cases isPhrase
        exact ⟨r, arrows, ha, arrow⟩
    · rintro ⟨r, arrows', ha', arrow⟩
      cases ha.symm.trans ha'
      exact ⟨_, arrow, rfl⟩

/-- Where a phrase is begun, each of its productions can be read. -/
theorem path_of_begun {q number : Nat} {p : Production} (of : productions[number]? = some p)
    (visited : Visited q) (begun : Begun q p.phrase) : ∃ r, Path q p.symbols r := by
  obtain ⟨j, here, found⟩ := here_of_mem_begun visited of ((mem_begun visited).mpr begun)
  exact path_of_here (i := 0) of visited here found

/-- What a reading in the list is about. -/
theorem mem_readings {e : Reading} :
    e ∈ graph.readings ↔ ∃ q number p, Visited q ∧ productions[number]? = some p ∧
      Begun q p.phrase ∧ e =
        { source := cell q p.phrase
          stop := (graph.trace q p.symbols).getLastD q
          production := number
          last :=
            match p.symbols.getLast? with
            | some (.phrase B) => ((graph.trace q p.symbols).dropLast.getLast?).map (cell · B)
            | _ => none } := by
  simp only [Graph.readings, List.mem_flatMap, List.mem_range, List.mem_filterMap]
  constructor
  -- A reading is listed for a state, a phrase that begins there and a production of it.
  · rintro ⟨q, visited, A, begun, ⟨number, p⟩, listed, made⟩
    obtain ⟨i, bound, same⟩ := List.mem_mapIdx.mp listed
    cases same
    split at made
    · rename_i same
      subst same
      cases made
      exact ⟨q, _, _, visited, List.getElem?_eq_getElem bound, (mem_begun visited).mp begun, rfl⟩
    · cases made
  -- Conversely, all of these are looked through.
  · rintro ⟨q, number, p, visited, of, begun, rfl⟩
    obtain ⟨bound, rfl⟩ := List.getElem?_eq_some_iff.mp of
    refine ⟨q, visited, _, (mem_begun visited).mpr begun, (number, productions[number]),
      List.mem_mapIdx.mpr ⟨number, bound, rfl⟩, ?_⟩
    exact if_pos rfl

/-! ## Passing on what follows -/

/-- Every set of the first table is part of the one at its place in the second. -/
structure Spreads (F G : Array Nat) : Prop where
  size : F.size = G.size
  within : ∀ c : Nat, Within (F[c]?.getD 0) (G[c]?.getD 0)

/-- A table spreads to itself. -/
theorem Spreads.refl (F : Array Nat) : Spreads F F := ⟨rfl, fun _ => .refl _⟩

/-- Spreading twice is spreading. -/
theorem Spreads.trans {F G H : Array Nat} (h : Spreads F G) (h' : Spreads G H) : Spreads F H :=
  ⟨h.size.trans h'.size, fun c => (h.within c).trans (h'.within c)⟩

/-- Two sets within each other are one. -/
theorem Within.antisymm {a b : Nat} (h : Within a b) (h' : Within b a) : a = b :=
  Nat.eq_of_testBit_eq fun j => Bool.eq_iff_iff.mpr ⟨h j, h' j⟩

/-- A set within another is no greater as a number. -/
theorem Within.le {a b : Nat} (h : Within a b) : a ≤ b := by
  rw [← within_iff.1 h]
  exact Nat.left_le_or

/-- An entry of a table within its bounds. -/
theorem getElem_eq_getD {F : Array Nat} {c : Nat} (h : c < F.size) : F[c] = F[c]?.getD 0 := by
  rw [Array.getElem?_eq_getElem h, Option.getD_some]

/-- Two tables that spread to each other are one. -/
theorem Spreads.antisymm {F G : Array Nat} (h : Spreads F G) (h' : Spreads G F) : F = G := by
  refine Array.ext h.size fun c hc hc' => ?_
  rw [getElem_eq_getD hc, getElem_eq_getD hc']
  exact (h.within c).antisymm (h'.within c)

/-- A pass adds what is at the source to what is at the end of its reading. -/
theorem getD_pass (F : Array Nat) (e : Reading) (c : Nat) :
    (pass F e)[c]?.getD 0 =
      if e.last = some c ∧ c < F.size then F[c]?.getD 0 ||| F[e.source]?.getD 0
      else F[c]?.getD 0 := by
  unfold pass
  split
  · rename_i d last
    rw [Array.getElem?_setIfInBounds, last]
    by_cases same : d = c
    · subst same
      by_cases inside : d < F.size <;> simp [inside]
    · simp [same]
  · rename_i last
    simp [last]

/-- A pass spreads. -/
theorem spreads_pass (F : Array Nat) (e : Reading) : Spreads F (pass F e) := by
  refine ⟨?_, fun c => ?_⟩
  · unfold pass
    split <;> simp
  · rw [getD_pass]
    split
    · exact within_or_left _ _
    · exact .refl _

/-- Passes along readings spread. -/
theorem spreads_foldl (readings : List Reading) (F : Array Nat) :
    Spreads F (readings.foldl pass F) := by
  induction readings generalizing F with
  | nil => exact .refl F
  | cons e readings ih => exact (spreads_pass F e).trans (ih _)

/-- Rounds of passes spread. -/
theorem spreads_spread (readings : List Reading) (rounds : Nat) (F : Array Nat) :
    Spreads F (spread readings rounds F) := by
  induction rounds generalizing F with
  | zero => exact .refl F
  | succ rounds ih =>
    rw [spread]
    split
    · exact .refl F
    · exact (spreads_foldl readings F).trans (ih _)

/-- A table that a round leaves alone has passed on everything. -/
theorem pass_of_foldl {readings : List Reading} {F : Array Nat} (h : readings.foldl pass F = F)
    {e : Reading} (he : e ∈ readings) : pass F e = F := by
  induction readings with
  | nil => cases he
  | cons d readings ih =>
    rw [List.foldl_cons] at h
    have first : pass F d = F := by
      refine Spreads.antisymm ?_ (spreads_pass F d)
      have rest := spreads_foldl readings (pass F d)
      rwa [h] at rest
    rcases List.mem_cons.mp he with rfl | he
    · exact first
    · rw [first] at h
      exact ih h he

/-- A property of what follows a phrase begun in a state is kept by passing on. -/
theorem spread_induction {T : Nat → Nat → Prop} {readings : List Reading} {rounds : Nat}
    {F : Array Nat} (start : ∀ c j, (F[c]?.getD 0).testBit j = true → T c j)
    (step : ∀ e ∈ readings, ∀ c j, e.last = some c → T e.source j → T c j) {c j : Nat}
    (h : ((spread readings rounds F)[c]?.getD 0).testBit j = true) : T c j := by
  -- One round keeps the property, by induction on the readings.
  have once : ∀ (es : List Reading), (∀ e ∈ es, e ∈ readings) → ∀ F : Array Nat,
      (∀ c j, (F[c]?.getD 0).testBit j = true → T c j) →
      ∀ c j, ((es.foldl pass F)[c]?.getD 0).testBit j = true → T c j := by
    intro es
    induction es with
    | nil => exact fun _ F start => start
    | cons e es ih =>
      intro sub F start
      refine ih (fun d hd => sub d (List.mem_cons_of_mem _ hd)) _ fun c j bit => ?_
      rw [getD_pass] at bit
      split at bit
      · rename_i last
        rw [Nat.testBit_or, Bool.or_eq_true] at bit
        rcases bit with bit | bit
        · exact start c j bit
        · exact step e (sub e List.mem_cons_self) c j last.1 (start _ j bit)
      · exact start c j bit
  -- By induction on the rounds, each of which may be the last.
  induction rounds generalizing F with
  | zero => exact start c j h
  | succ rounds ih =>
    rw [spread] at h
    split at h
    · exact start c j h
    · exact ih (once readings (fun _ h => h) F start) h

/-- A table that spreads to another one has a smaller sum. -/
theorem sum_lt_of_spreads {F G : Array Nat} (h : Spreads F G) (apart : F ≠ G) :
    F.toList.sum < G.toList.sum := by
  have sizes : F.toList.length = G.toList.length := by simpa using h.size
  -- No number becomes smaller, and one becomes larger.
  have le : ∀ i : Nat, F.toList[i]?.getD 0 ≤ G.toList[i]?.getD 0 := by
    intro i
    have := (h.within i).le
    simpa using this
  have apart' : F.toList ≠ G.toList := fun same => apart (Array.toList_inj.mp same)
  generalize F.toList = xs at *
  generalize G.toList = ys at *
  clear h apart
  -- By induction on both lists.
  induction xs generalizing ys with
  | nil =>
    cases ys with
    | nil => exact (apart' rfl).elim
    | cons => cases sizes
  | cons x xs ih =>
    cases ys with
    | nil => cases sizes
    | cons y ys =>
      have first : x ≤ y := le 0
      have rest : ∀ i : Nat, xs[i]?.getD 0 ≤ ys[i]?.getD 0 := fun i => le (i + 1)
      rw [List.sum_cons, List.sum_cons]
      -- The first difference is in the rest or at the head.
      by_cases same : xs = ys
      · subst same
        have : x ≠ y := fun same => apart' (by rw [same])
        omega
      · have := ih ys (by simpa using sizes) rest same
        omega

/-- The sum of numbers below a bound. -/
theorem sum_le_of_small {B : Nat} (xs : List Nat) (small : ∀ x ∈ xs, x < B) :
    xs.sum ≤ xs.length * B := by
  induction xs with
  | nil => simp
  | cons x xs ih =>
    have first := small x List.mem_cons_self
    have rest := ih fun y hy => small y (List.mem_cons_of_mem _ hy)
    rw [List.sum_cons, List.length_cons, Nat.succ_mul]
    omega

/-- All sets of a table are numbers of at most `n` digits. -/
def Small (n : Nat) (F : Array Nat) : Prop := ∀ c : Nat, F[c]?.getD 0 < 2 ^ n

/-- Passes add no number that is not below the bound. -/
theorem Small.foldl {n : Nat} {F : Array Nat} (h : Small n F) (readings : List Reading) :
    Small n (readings.foldl pass F) := by
  induction readings generalizing F with
  | nil => exact h
  | cons e readings ih =>
    refine ih fun c => ?_
    rw [getD_pass]
    split
    · exact Nat.or_lt_two_pow (h c) (h e.source)
    · exact h c

/-- Enough rounds pass on everything: each of them but the last makes one of the sets a greater
number. -/
theorem foldl_spread {n rounds : Nat} {readings : List Reading} {F : Array Nat} (small : Small n F)
    (enough : F.size * 2 ^ n < F.toList.sum + rounds) :
    readings.foldl pass (spread readings rounds F) = spread readings rounds F := by
  induction rounds generalizing F with
  -- Without rounds left, all sets are full, which the bound excludes.
  | zero =>
    have le := sum_le_of_small F.toList (B := 2 ^ n) fun x hx => by
      obtain ⟨c, bound, rfl⟩ := Array.mem_iff_getElem.mp (Array.mem_toList_iff.mp hx)
      rw [getElem_eq_getD bound]
      exact small c
    rw [Array.length_toList] at le
    omega
  | succ rounds ih =>
    rw [spread]
    split
    · assumption
    · rename_i apart
      -- A round that changes something adds to the sum.
      have spreads := spreads_foldl readings F
      have grows := sum_lt_of_spreads spreads (Ne.symm apart)
      refine ih (small.foldl readings) ?_
      rw [← spreads.size]
      omega

/-! ## What can follow a phrase -/

/-- A terminal can follow a phrase that is begun in a state: it can be read after the phrase, or it
can follow a phrase whose production ends with this one. -/
inductive CanFollow : Nat → Phrase → Terminal → Prop where
  | root : CanFollow 0 .root .endOfInput
  | next {q r s : Nat} {A : Phrase} {t : Terminal} (led : Leads q (.phrase A) r)
      (read : Leads r (.terminal t) s) : CanFollow q A t
  | last {q r s number : Nat} {p : Production} {Xs : List Symbol} {B : Phrase} {t : Terminal}
      (of : productions[number]? = some p) (ends : p.symbols = Xs ++ [.phrase B])
      (visited : Visited q) (begun : Begun q p.phrase) (path : Path q Xs s)
      (led : Leads s (.phrase B) r) (h : CanFollow q p.phrase t) : CanFollow s B t

/-- The set of one terminal. -/
theorem testBit_terminalSet (t t' : Terminal) :
    (terminalSet t).testBit (Terminal.all.idxOf t') = true ↔ t = t' := by
  rw [terminalSet, Nat.one_shiftLeft, Nat.testBit_two_pow, decide_eq_true_eq]
  exact List.idxOf_inj (mem_terminals t)

/-- A set that takes the terminals of the arrows one after the other has them all in the end. -/
theorem testBit_foldl {t : Terminal} {f : Nat → Symbol × Nat → Nat}
    (step : ∀ acc a, (f acc a).testBit (Terminal.all.idxOf t) = true ↔
      acc.testBit (Terminal.all.idxOf t) = true ∨ a.1 = .terminal t) (arrows : List (Symbol × Nat))
    (acc : Nat) :
    (arrows.foldl f acc).testBit (Terminal.all.idxOf t) = true ↔
      acc.testBit (Terminal.all.idxOf t) = true ∨ ∃ s, (Symbol.terminal t, s) ∈ arrows := by
  -- By induction on the arrows, for all accumulated sets.
  induction arrows generalizing acc with
  | nil => simp
  | cons a arrows ih =>
    obtain ⟨X, s⟩ := a
    rw [List.foldl_cons, ih, step, or_assoc]
    refine or_congr_right ⟨?_, ?_⟩
    · rintro (rfl | ⟨r, h⟩)
      · exact ⟨s, .head _⟩
      · exact ⟨r, .tail _ h⟩
    · rintro ⟨r, h⟩
      cases h with
      | head => exact .inl rfl
      | tail _ h => exact .inr ⟨r, h⟩

/-- The terminals that are read in a state. -/
theorem testBit_reads {r : Nat} {t : Terminal} :
    (graph.reads r).testBit (Terminal.all.idxOf t) = true ↔ ∃ s, Leads r (.terminal t) s := by
  rw [Graph.reads]
  refine (testBit_foldl (t := t) (fun acc a => ?_) _ 0).trans ?_
  · obtain ⟨X, s⟩ := a
    cases X with
    | terminal u =>
      -- Only arrows with a terminal set a bit.
      rw [Nat.testBit_or, Bool.or_eq_true, testBit_terminalSet, Symbol.terminal.injEq]
    | phrase A => simp
  rw [Nat.zero_testBit]
  constructor
  · rintro (h | ⟨s, h⟩)
    · cases h
    · cases ha : graph.arrows[r]? with
      | none => simp [ha] at h
      | some arrows => exact ⟨s, arrows, ha, by simpa [ha] using h⟩
  · rintro ⟨s, arrows, ha, h⟩
    exact .inr ⟨s, by simpa [ha] using h⟩

/-- No production has the root among its symbols. -/
theorem not_leads_root {q r : Nat} : ¬Leads q (.phrase .root) r := by
  intro h
  obtain ⟨kernel, arrows, hk, hc, ha⟩ := (visited_of_leads h).spec
  obtain ⟨arrows', ha', arrow⟩ := h
  cases ha.symm.trans ha'
  obtain ⟨mask, hm, meets, -⟩ := (sound_graph).arrow q _ arrows hc ha _ arrow
  rw [mem_before.1 hm] at meets
  obtain ⟨i, -, stands⟩ := and_ne_zero.1 meets
  obtain ⟨it, found, next⟩ := testBit_beforeSymbol.1 stands
  obtain ⟨p, of, describes⟩ := describes_item found
  rw [describes.next] at next
  exact (regular of).root (List.mem_of_getElem? next)

/-- The terminals that come right after a phrase. -/
theorem testBit_directFollow {q : Nat} {A : Phrase} {t : Terminal} :
    (graph.directFollow q A).testBit (Terminal.all.idxOf t) = true ↔
      (q = 0 ∧ A = .root ∧ t = .endOfInput) ∨
        ∃ r s, Leads q (.phrase A) r ∧ Leads r (.terminal t) s := by
  rw [Graph.directFollow]
  split
  -- Only the root in the first state is followed by the end.
  · rename_i first
    obtain ⟨rfl, rfl⟩ := first
    rw [testBit_terminalSet]
    constructor
    · exact fun same => .inl ⟨rfl, rfl, same.symm⟩
    · rintro (⟨-, -, same⟩ | ⟨r, s, led, -⟩)
      · exact same.symm
      · exact (not_leads_root led).elim
  -- Elsewhere the bit is that of a terminal after the phrase.
  · rename_i inner
    constructor
    · intro bit
      cases led : graph.after q (.phrase A) with
      | none => simp [led] at bit
      | some r =>
        rw [led, Option.map_some, Option.getD_some, testBit_reads] at bit
        obtain ⟨s, read⟩ := bit
        exact .inr ⟨r, s, leads_of_after led, read⟩
    · rintro (⟨rfl, rfl, -⟩ | ⟨r, s, led, read⟩)
      · exact (inner ⟨rfl, rfl⟩).elim
      · rw [after_of_leads led, Option.map_some, Option.getD_some, testBit_reads]
        exact ⟨s, read⟩

/-! Cells are numbered state by state. -/

/-- Each phrase has a place below their count. -/
theorem idxOf_phrase_lt (A : Phrase) : Phrase.all.idxOf A < Phrase.all.length :=
  List.idxOf_lt_length_of_mem (mem_all A)

/-- The cell of a phrase in a visited state is one of the table. -/
theorem cell_lt {q : Nat} {A : Phrase} (h : Visited q) :
    cell q A < graph.arrows.size * Phrase.all.length := by
  have := idxOf_phrase_lt A
  calc cell q A < q * Phrase.all.length + Phrase.all.length := by unfold cell; omega
    _ = (q + 1) * Phrase.all.length := by rw [Nat.succ_mul]
    _ ≤ graph.arrows.size * Phrase.all.length := Nat.mul_le_mul_right _ h

/-- A cell tells its state. -/
theorem cell_div (q : Nat) (A : Phrase) : cell q A / Phrase.all.length = q := by
  have less := idxOf_phrase_lt A
  rw [cell, Nat.mul_comm, Nat.mul_add_div (by omega), Nat.div_eq_of_lt less, Nat.add_zero]

/-- A cell tells the place of its phrase. -/
theorem cell_mod (q : Nat) (A : Phrase) : cell q A % Phrase.all.length = Phrase.all.idxOf A := by
  rw [cell, Nat.mul_comm, Nat.mul_add_mod, Nat.mod_eq_of_lt (idxOf_phrase_lt A)]

/-- Different states or phrases have different cells. -/
theorem cell_inj {q r : Nat} {A B : Phrase} (h : cell q A = cell r B) : q = r ∧ A = B := by
  refine ⟨?_, ?_⟩
  · rw [← cell_div q A, h, cell_div]
  · rw [← List.idxOf_inj (mem_all A), ← cell_mod q A, h, cell_mod]

/-- The table of what comes right after holds it at the cell. -/
theorem getD_directFollows {q : Nat} {A : Phrase} (h : Visited q) :
    graph.directFollows[cell q A]?.getD 0 = graph.directFollow q A := by
  have bound : cell q A < (Array.range (graph.arrows.size * Phrase.all.length)).size := by
    rw [Array.size_range]
    exact cell_lt h
  rw [Graph.directFollows, Array.getElem?_map, Array.getElem?_eq_getElem bound,
    Array.getElem_range, Option.map_some, Option.getD_some, cell_div, cell_mod, List.getD,
    List.getElem?_idxOf (mem_all A), Option.getD_some]

/-- Nothing is held beyond the table. -/
theorem getD_directFollows_of_le {c : Nat} (h : graph.arrows.size * Phrase.all.length ≤ c) :
    graph.directFollows[c]?.getD 0 = 0 := by
  rw [Array.getElem?_eq_none (by simpa [Graph.directFollows] using h), Option.getD_none]

/-- A cell of the table belongs to a visited state. -/
theorem exists_cell {c : Nat} (h : c < graph.arrows.size * Phrase.all.length) :
    ∃ q A, Visited q ∧ c = cell q A := by
  have positive : 0 < Phrase.all.length := by decide
  have inside : c % Phrase.all.length < Phrase.all.length := Nat.mod_lt _ positive
  refine ⟨c / Phrase.all.length, Phrase.all[c % Phrase.all.length],
    (Nat.div_lt_iff_lt_mul positive).mpr h, ?_⟩
  rw [cell, nodup_all.2.idxOf_getElem, Nat.mul_comm, Nat.div_add_mod]

attribute [local irreducible] Terminal.all

/-- The set of a terminal is a number below the bound. -/
theorem terminalSet_lt (t : Terminal) : terminalSet t < 2 ^ Terminal.all.length := by
  rw [terminalSet, Nat.one_shiftLeft]
  exact Nat.pow_lt_pow_right (by omega) (List.idxOf_lt_length_of_mem (mem_terminals t))

/-- The set of the terminals that are read is below the bound. -/
theorem reads_lt {n : Nat} (single : ∀ t, terminalSet t < 2 ^ n) (r : Nat) :
    graph.reads r < 2 ^ n := by
  rw [Graph.reads]
  generalize (graph.arrows[r]?).getD [] = arrows
  have start : 0 < 2 ^ n := Nat.two_pow_pos n
  generalize (0 : Nat) = acc at start ⊢
  induction arrows generalizing acc with
  | nil => exact start
  | cons a arrows ih =>
    obtain ⟨X, s⟩ := a
    rw [List.foldl_cons]
    cases X with
    | terminal t => exact ih _ (Nat.or_lt_two_pow start (single t))
    | phrase A => exact ih _ start

/-- The set of what comes right after is below the bound. -/
theorem small_directFollow (q : Nat) (A : Phrase) :
    graph.directFollow q A < 2 ^ Terminal.all.length := by
  rw [Graph.directFollow]
  split
  · exact terminalSet_lt _
  · cases graph.after q (.phrase A) with
    | none => rw [Option.map_none, Option.getD_none]; exact Nat.two_pow_pos _
    | some r => rw [Option.map_some, Option.getD_some]; exact reads_lt terminalSet_lt r

/-- So are all sets of the table. -/
theorem small_directFollows : Small Terminal.all.length graph.directFollows := by
  intro c
  rcases Nat.lt_or_ge c (graph.arrows.size * Phrase.all.length) with inside | outside
  · obtain ⟨q, A, visited, rfl⟩ := exists_cell inside
    rw [getD_directFollows visited]
    exact small_directFollow q A
  · rw [getD_directFollows_of_le outside]
    exact Nat.two_pow_pos _

attribute [local irreducible] spread

/-- In the table of what follows, everything is passed on. -/
theorem pass_follows {e : Reading} (he : e ∈ graph.readings) :
    pass graph.follows e = graph.follows := by
  refine pass_of_foldl ?_ he
  rw [Graph.follows]
  refine foldl_spread small_directFollows ?_
  rw [Nat.pow_eq]
  omega

/-- The rounds start at the table of what comes right after. -/
theorem spreads_follows : Spreads graph.directFollows graph.follows := by
  rw [Graph.follows]
  exact spreads_spread _ _ _

/-- The cell at the end of a reading, if its production ends in a phrase. -/
theorem last_of_reading {q number c : Nat} {p : Production} (of : productions[number]? = some p)
    (visited : Visited q) (begun : Begun q p.phrase)
    (h : (match p.symbols.getLast? with
      | some (.phrase B) => ((graph.trace q p.symbols).dropLast.getLast?).map (cell · B)
      | _ => none) = some c) :
    ∃ Xs B s r, p.symbols = Xs ++ [.phrase B] ∧ Path q Xs s ∧ Leads s (.phrase B) r ∧
      c = cell s B := by
  split at h
  · rename_i B last
    obtain ⟨Xs, ends⟩ := List.getLast?_eq_some_iff.mp last
    obtain ⟨r, path⟩ := path_of_begun of visited begun
    rw [ends] at path
    obtain ⟨s, first, u, led, rfl⟩ := path.split
    rw [ends, first.dropLast_trace led] at h
    cases h
    exact ⟨Xs, B, s, u, ends, first, led, rfl⟩
  · cases h

/-- The table of what follows says what can follow. -/
theorem testBit_follows {q : Nat} {A : Phrase} {t : Terminal} (visited : Visited q) :
    (graph.follows[cell q A]?.getD 0).testBit (Terminal.all.idxOf t) = true ↔
      CanFollow q A t := by
  constructor
  -- What holds of the direct sets and is handed on by the readings holds of the result.
  · intro bit
    let T (c j : Nat) : Prop := ∀ q A t, Visited q → c = cell q A → j = Terminal.all.idxOf t →
      CanFollow q A t
    have all : T (cell q A) (Terminal.all.idxOf t) := by
      rw [Graph.follows] at bit
      refine spread_induction ?_ ?_ bit
      · rintro c j bit q A t visited rfl rfl
        rw [getD_directFollows visited, testBit_directFollow] at bit
        rcases bit with ⟨rfl, rfl, rfl⟩ | ⟨r, s, led, read⟩
        · exact .root
        · exact .next led read
      -- A reading hands on what follows its phrase to its last symbol.
      · rintro e he c j last ih q A t visited rfl rfl
        obtain ⟨q', number, p, visited', of, begun, rfl⟩ := mem_readings.1 he
        obtain ⟨Xs, B, s, r, ends, path, led, same⟩ := last_of_reading of visited' begun last
        obtain ⟨rfl, rfl⟩ := cell_inj same
        exact .last of ends visited' begun path led (ih q' _ t visited' rfl rfl)
    exact all q A t visited rfl rfl
  -- Conversely, by induction on what can follow.
  · intro h
    induction h with
    | root =>
      refine (spreads_follows).within _ _ ?_
      rw [getD_directFollows visited_first, testBit_directFollow]
      exact .inl ⟨rfl, rfl, rfl⟩
    | next led read =>
      refine (spreads_follows).within _ _ ?_
      rw [getD_directFollows (visited_of_leads led), testBit_directFollow]
      exact .inr ⟨_, _, led, read⟩
    -- The sets are settled, so that one more reading changes nothing.
    | @last q r s number p Xs B t of ends known begun path led h ih =>
      have passed := pass_follows (mem_readings.2 ⟨q, number, p, known, of, begun, rfl⟩)
      have cellAt := getD_pass graph.follows
        { source := cell q p.phrase
          stop := (graph.trace q p.symbols).getLastD q
          production := number
          last :=
            match p.symbols.getLast? with
            | some (.phrase B) => ((graph.trace q p.symbols).dropLast.getLast?).map (cell · B)
            | _ => none } (cell s B)
      rw [passed, if_pos] at cellAt
      · rw [cellAt, Nat.testBit_or, ih known, Bool.or_true]
      · refine ⟨?_, ?_⟩
        · rw [ends, List.getLast?_concat]
          dsimp only
          rw [path.dropLast_trace led, Option.map_some]
        · rw [← (spreads_follows).size]
          simpa [Graph.directFollows] using cell_lt (visited_of_leads led)

/-! ## What the automaton does before a terminal -/

/-- A production is read to its end in a state, and a terminal can follow its phrase. -/
def Finishes (r number : Nat) (t : Terminal) : Prop :=
  ∃ q p, Visited q ∧ productions[number]? = some p ∧ Begun q p.phrase ∧ Path q p.symbols r ∧
    CanFollow q p.phrase t

/-- The terminals of a set are those whose bit is set. -/
theorem mem_terminalsOf {set : Nat} {t : Terminal} :
    t ∈ terminalsOf set ↔ set.testBit (Terminal.all.idxOf t) = true := by
  rw [terminalsOf, List.mem_filter, bne_iff_ne, and_ne_zero]
  constructor
  · rintro ⟨-, j, bit, single⟩
    rw [terminalSet, Nat.one_shiftLeft, Nat.testBit_two_pow, decide_eq_true_eq] at single
    exact single ▸ bit
  · intro bit
    exact ⟨mem_terminals t, _, bit, (testBit_terminalSet t t).mpr rfl⟩

/-- The reductions of a state are those of the productions that end in it, before what can follow. -/
theorem mem_reductions {r : Nat} {t : Terminal} {a : Action} :
    (t, a) ∈ reductions graph.readings graph.follows r ↔
      ∃ number, Finishes r number t ∧ a = if number = 0 then .accept else .reduce number := by
  simp only [reductions, List.mem_flatMap, List.mem_filter, List.mem_map, mem_terminalsOf]
  constructor
  · rintro ⟨e, ⟨he, stops⟩, t', bit, same⟩
    cases same
    obtain ⟨q, number, p, visited, of, begun, rfl⟩ := mem_readings.1 he
    obtain ⟨r', path⟩ := path_of_begun of visited begun
    refine ⟨number, ⟨q, p, visited, of, begun, ?_, (testBit_follows visited).mp bit⟩, rfl⟩
    have last := path.getLast?_trace
    rw [beq_iff_eq, List.getLastD_eq_getLast?, last, Option.getD_some] at stops
    exact stops ▸ path
  · rintro ⟨number, ⟨q, p, visited, of, begun, path, follows⟩, rfl⟩
    refine ⟨_, ⟨mem_readings.2 ⟨q, number, p, visited, of, begun, rfl⟩, ?_⟩, t,
      (testBit_follows visited).mpr follows, rfl⟩
    rw [beq_iff_eq, List.getLastD_eq_getLast?, path.getLast?_trace, Option.getD_some]

/-- Keeping the first action for each terminal finds the same actions. -/
theorem lookup_firstActions (l : List (Terminal × Action)) (t : Terminal) :
    (firstActions l).lookup t = l.lookup t := by
  -- By induction on the list: later entries for the same terminal are left out.
  induction l with
  | nil => rfl
  | cons e l ih =>
    obtain ⟨u, a⟩ := e
    rw [firstActions, List.lookup_cons, List.lookup_cons]
    split
    · rfl
    · rename_i apart
      rw [← ih]
      -- The entries that are left out are not those that are looked for.
      generalize firstActions l = actions
      induction actions with
      | nil => rfl
      | cons e actions ih =>
        obtain ⟨v, b⟩ := e
        rw [List.filter_cons]
        split
        · rw [List.lookup_cons, List.lookup_cons, ih]
        · rename_i same
          rw [ih, List.lookup_cons]
          have same : v = u := by simpa using same
          subst same
          rw [apart]

/-- The arrows of a state that take in a terminal. -/
def shifts (arrows : List (Symbol × Nat)) : List (Terminal × Action) :=
  arrows.filterMap fun (X, target) =>
    match X with | .terminal t => some (t, Action.shift target) | .phrase _ => none

/-- The shifts of a state are its arrows for terminals. -/
theorem mem_shifts {arrows : List (Symbol × Nat)} {t : Terminal} {a : Action} :
    (t, a) ∈ shifts arrows ↔ ∃ s, (Symbol.terminal t, s) ∈ arrows ∧ a = .shift s := by
  rw [shifts, List.mem_filterMap]
  constructor
  · rintro ⟨⟨X, s⟩, arrow, same⟩
    cases X with
    | terminal u =>
      cases same
      exact ⟨s, arrow, rfl⟩
    | phrase A => cases same
  · rintro ⟨s, arrow, rfl⟩
    exact ⟨_, arrow, rfl⟩

/-- What the automaton does is the first thing that the arrows and the reductions of a state say. -/
theorem action_eq {q : Nat} {arrows : List (Symbol × Nat)} (ha : graph.arrows[q]? = some arrows)
    (t : Terminal) : action? automaton q t =
      ((shifts arrows).lookup t).or ((reductions graph.readings graph.follows q).lookup t) := by
  have bound : q < (Array.range graph.arrows.size).size := by
    rw [Array.size_range]
    exact (Array.getElem?_eq_some_iff.mp ha).1
  rw [action?, automaton, build, Array.getElem?_map, Array.getElem?_eq_getElem bound,
    Array.getElem_range, Option.map_some,
    Option.bind_some, ha, Option.getD_some, stateOf]
  dsimp only
  rw [lookup_firstActions, List.lookup_append]
  rfl

/-- A terminal that leads on is taken in. -/
theorem action_of_leads {q s : Nat} {t : Terminal} (h : Leads q (.terminal t) s) :
    action? automaton q t = some (.shift s) := by
  obtain ⟨arrows, ha, arrow⟩ := h
  obtain ⟨a, found⟩ := lookup_of_mem (mem_shifts.2 ⟨s, arrow, rfl⟩)
  obtain ⟨s', arrow', rfl⟩ := mem_shifts.1 (mem_of_lookup found)
  have same : s' = s := Leads.unique ⟨arrows, ha, arrow'⟩ ⟨arrows, ha, arrow⟩
  rw [action_eq ha, found, same]
  rfl

/-- A production is reduced before a terminal that can follow it, where the terminal does not lead
on and no other production is read to its end there before it. -/
theorem action_of_finishes {r number : Nat} {t : Terminal} (h : Finishes r number t)
    (unread : ∀ s, ¬Leads r (.terminal t) s)
    (unique : ∀ number', Finishes r number' t → number' = number) :
    action? automaton r t = some (if number = 0 then .accept else .reduce number) := by
  obtain ⟨q, p, visited, of, begun, path, follows⟩ := id h
  obtain ⟨-, arrows, -, -, ha⟩ := (path.visited visited).spec
  have none : (shifts arrows).lookup t = none := by
    rw [Option.eq_none_iff_forall_not_mem]
    intro a found
    obtain ⟨s, arrow, -⟩ := mem_shifts.1 (mem_of_lookup found)
    exact unread s ⟨arrows, ha, arrow⟩
  obtain ⟨a, found⟩ := lookup_of_mem (mem_reductions.2 ⟨number, h, rfl⟩)
  obtain ⟨number', finishes, rfl⟩ := mem_reductions.1 (mem_of_lookup found)
  rw [action_eq ha, none, found, unique number' finishes]
  rfl

end TailLoop.Grammar.Automaton
