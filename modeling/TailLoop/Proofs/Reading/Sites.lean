import TailLoop.Proofs.Reading.Lookahead

/-!
# Places in productions

An item is named by its number in the reader. A `Site` names it by what has been read instead, so
that a proof can go back from it symbol by symbol. Which sites are in a state is said by rules
(`inside_next`): those that have read the symbol that led there, and the starts of what they open.
Sites in one state `Meet` (`meet_of_inside`): they have read the same symbols since they or what
opened them were in one state before.
-/

namespace TailLoop.Grammar.Automaton

/-! ## Sites -/

/-- A place in a production: its start, or the place after a further symbol. -/
inductive Site where
  /-- The start of the production of a number, which is one of a phrase. -/
  | start (number : Nat) (A : Phrase)
  /-- The place after one more symbol. -/
  | read (s : Site) (X : Symbol)

namespace Site

/-- The number of the production. -/
def number : Site → Nat
  | .start n _ => n
  | .read s _ => s.number

/-- The phrase of the production. -/
def phrase : Site → Phrase
  | .start _ A => A
  | .read s _ => s.phrase

/-- How many symbols are read. -/
def count : Site → Nat
  | .start _ _ => 0
  | .read s _ => s.count + 1

/-- The symbols that are read, in order. -/
def symbols : Site → List Symbol
  | .start _ _ => []
  | .read s X => s.symbols ++ [X]

end Site

/-- A site and all sites after it, each with the symbols that remain. -/
def sitesFrom (s : Site) : List Symbol → List (Site × List Symbol)
  | [] => [(s, [])]
  | X :: rest => (s, X :: rest) :: sitesFrom (s.read X) rest

/-- The sites of some productions that are numbered from `n` on. -/
def sitesOf : Nat → List Production → List (Site × List Symbol)
  | _, [] => []
  | n, p :: rest => sitesFrom (.start n p.phrase) p.symbols ++ sitesOf (n + 1) rest

/-- All sites, in the order of the items. -/
def sites : List (Site × List Symbol) := sitesOf 0 productions

/-- The item of a site. -/
def itemAt (e : Site × List Symbol) : Item := ⟨e.1.number, e.1.count, e.2.head?⟩

/-- The items of the sites of one production. -/
theorem map_sitesFrom (s : Site) (rest : List Symbol) :
    (sitesFrom s rest).map itemAt =
      (rest.mapIdx fun i X => ⟨s.number, i + s.count, some X⟩) ++
        [⟨s.number, rest.length + s.count, none⟩] := by
  induction rest generalizing s with
  | nil => simp [sitesFrom, itemAt]
  | cons X rest ih =>
    rw [sitesFrom, List.map_cons, ih, List.mapIdx_cons]
    simp only [itemAt, Site.number, Site.count, List.head?_cons, Nat.zero_add, List.cons_append,
      List.length_cons, Nat.add_assoc, Nat.add_comm 1]

/-- The items of the sites of some productions. -/
theorem map_sitesOf (n : Nat) (ps : List Production) :
    (sitesOf n ps).map itemAt = (ps.mapIdx fun i p => itemsOf (n + i) p).flatten := by
  induction ps generalizing n with
  | nil => rfl
  | cons p ps ih =>
    rw [sitesOf, List.map_append, map_sitesFrom, ih, List.mapIdx_cons, List.flatten_cons]
    simp only [Site.number, Site.count, Nat.add_zero, itemsOf, Nat.add_assoc, Nat.add_comm 1]

/-- The items are those of the sites. -/
theorem items_eq : items = sites.map itemAt := by
  rw [sites, map_sitesOf, items]
  simp

/-- Each item has a site. -/
theorem getElem?_items {j : Nat} {it : Item} (h : items[j]? = some it) :
    ∃ s rest, sites[j]? = some (s, rest) ∧ it = itemAt (s, rest) := by
  rw [items_eq, List.getElem?_map, Option.map_eq_some_iff] at h
  obtain ⟨⟨s, rest⟩, found, rfl⟩ := h
  exact ⟨s, rest, found, rfl⟩

/-- Each site has an item. -/
theorem getElem?_of_sites {j : Nat} {e : Site × List Symbol} (h : sites[j]? = some e) :
    items[j]? = some (itemAt e) := by
  rw [items_eq, List.getElem?_map, h, Option.map_some]

/-- The next site in a production. -/
theorem sitesFrom_succ {s : Site} {rest : List Symbol} {j : Nat} {s' : Site} {X : Symbol}
    {more : List Symbol} (h : (sitesFrom s rest)[j]? = some (s', X :: more)) :
    (sitesFrom s rest)[j + 1]? = some (s'.read X, more) := by
  induction rest generalizing s j with
  | nil => cases j <;> simp [sitesFrom] at h
  | cons Y rest ih =>
    rw [sitesFrom] at h ⊢
    cases j with
    | zero =>
      rw [List.getElem?_cons_zero, Option.some.injEq, Prod.mk.injEq, List.cons.injEq] at h
      obtain ⟨rfl, rfl, rfl⟩ := h
      cases rest <;> rfl
    | succ j => exact ih h

/-- The next site in a row of productions. -/
theorem sitesOf_succ {n : Nat} {ps : List Production} {j : Nat} {s : Site} {X : Symbol}
    {rest : List Symbol} (h : (sitesOf n ps)[j]? = some (s, X :: rest)) :
    (sitesOf n ps)[j + 1]? = some (s.read X, rest) := by
  induction ps generalizing n j with
  | nil => cases h
  | cons p ps ih =>
    rw [sitesOf] at h ⊢
    by_cases here : j < (sitesFrom (.start n p.phrase) p.symbols).length
    · rw [List.getElem?_append_left here] at h
      have next := sitesFrom_succ h
      rw [List.getElem?_append_left (List.getElem?_eq_some_iff.mp next).1]
      exact next
    · rw [List.getElem?_append_right (by omega)] at h ⊢
      rw [show j + 1 - (sitesFrom (.start n p.phrase) p.symbols).length =
        j - (sitesFrom (.start n p.phrase) p.symbols).length + 1 by omega]
      exact ih h

/-- After a site with a symbol to read comes the one that has read it. -/
theorem sites_succ {j : Nat} {s : Site} {X : Symbol} {rest : List Symbol}
    (h : sites[j]? = some (s, X :: rest)) : sites[j + 1]? = some (s.read X, rest) :=
  sitesOf_succ h

/-- The sites of a production have its number, its phrase and its symbols. -/
theorem mem_sitesFrom {s s' : Site} {rest rest' : List Symbol}
    (h : (s', rest') ∈ sitesFrom s rest) :
    s'.number = s.number ∧ s'.phrase = s.phrase ∧ s'.symbols ++ rest' = s.symbols ++ rest := by
  induction rest generalizing s with
  | nil =>
    rw [sitesFrom, List.mem_singleton] at h
    cases h
    exact ⟨rfl, rfl, rfl⟩
  | cons X rest ih =>
    rw [sitesFrom, List.mem_cons] at h
    rcases h with same | h
    · cases same
      exact ⟨rfl, rfl, rfl⟩
    · obtain ⟨number, phrase, symbols⟩ := ih h
      exact ⟨number, phrase, by rw [symbols, Site.symbols, List.append_assoc]; rfl⟩

/-- The sites of a row of productions are those of one of them. -/
theorem mem_sitesOf {n : Nat} {ps : List Production} {s : Site} {rest : List Symbol}
    (h : (s, rest) ∈ sitesOf n ps) :
    ∃ i p, ps[i]? = some p ∧ s.number = n + i ∧ p.phrase = s.phrase ∧
      p.symbols = s.symbols ++ rest := by
  induction ps generalizing n with
  | nil => cases h
  | cons p ps ih =>
    rw [sitesOf, List.mem_append] at h
    rcases h with h | h
    · obtain ⟨number, phrase, symbols⟩ := mem_sitesFrom h
      exact ⟨0, p, rfl, number, phrase.symm, symbols.symm⟩
    · obtain ⟨i, p', found, number, rest⟩ := ih h
      exact ⟨i + 1, p', found, by omega, rest⟩

/-- The production of a site. -/
theorem production_of_site {s : Site} {rest : List Symbol} (h : (s, rest) ∈ sites) :
    ∃ p, productions[s.number]? = some p ∧ p.phrase = s.phrase ∧ p.symbols = s.symbols ++ rest := by
  obtain ⟨i, p, found, number, same⟩ := mem_sitesOf h
  rw [Nat.zero_add] at number
  exact ⟨p, number ▸ found, same⟩

/-- A site before which nothing was read is a start. -/
theorem Site.eq_start {s : Site} (h : s.count = 0) : s = .start s.number s.phrase := by
  cases s with
  | start => rfl
  | read => cases h

/-- A site has read as many symbols as it counts. -/
theorem Site.length_symbols (s : Site) : s.symbols.length = s.count := by
  induction s with
  | start => rfl
  | read s X ih => rw [Site.symbols, List.length_append, ih, Site.count]; rfl

/-! ## The sites of a state -/

/-- A phrase is begun wherever another one is: it is the first symbol of one of its productions, or
of a production of such a symbol. -/
inductive Reaches (Q : Phrase) : Phrase → Prop where
  | refl : Reaches Q Q
  | step {A B : Phrase} {n : Nat} {rest : List Symbol} (h : Reaches Q A)
      (begins : (Site.start n A, .phrase B :: rest) ∈ sites) : Reaches Q B

/-- A site is among those of a state that begins with the given set of items. -/
def Inside (kernel : Nat) (s : Site) (rest : List Symbol) : Prop :=
  ∃ j : Nat, (closure kernel).testBit j = true ∧ sites[j]? = some (s, rest)

/-- A site in a state is one of the grammar. -/
theorem Inside.mem {kernel : Nat} {s : Site} {rest : List Symbol} (h : Inside kernel s rest) :
    (s, rest) ∈ sites := by
  obtain ⟨j, -, found⟩ := h
  exact List.mem_of_getElem? found

/-- The first site is the start of the root. -/
theorem first_site : sites[0]? = some (.start 0 .root, [.phrase .program]) := rfl

attribute [local irreducible] items sites productions

/-- What holds of a set and goes on along the entries holds of what is opened once. -/
theorem openOnce_induction {table : List (Nat × Nat)} {set : Nat} {T : Nat → Prop}
    (start : ∀ j, set.testBit j = true → T j)
    (step : ∀ e ∈ table, ∀ i, T i → e.1.testBit i = true → ∀ j, e.2.testBit j = true → T j)
    {j : Nat} (h : (openOnce table set).testBit j = true) : T j := by
  unfold openOnce at h
  -- By induction on the table, whose entries open their bits one after the other.
  induction table generalizing set with
  | nil => exact start j h
  | cons e table ih =>
    rw [List.foldl_cons] at h
    refine ih ?_ (fun d hd => step d (List.mem_cons_of_mem _ hd)) h
    intro j bit
    split at bit
    · exact start j bit
    · rename_i meets
      rw [Nat.testBit_or, Bool.or_eq_true] at bit
      rcases bit with bit | bit
      · exact start j bit
      · obtain ⟨i, here, before⟩ := and_ne_zero.1 meets
        exact step e List.mem_cons_self i (start i here) before j bit

/-- What holds of a set and goes on along the entries holds of what is opened. -/
theorem open_induction {table : List (Nat × Nat)} {rounds set : Nat} {T : Nat → Prop}
    (start : ∀ j, set.testBit j = true → T j)
    (step : ∀ e ∈ table, ∀ i, T i → e.1.testBit i = true → ∀ j, e.2.testBit j = true → T j)
    {j : Nat} (h : (open_ table rounds set).testBit j = true) : T j := by
  induction rounds generalizing set with
  | zero => exact start j h
  | succ rounds ih =>
    rw [open_succ] at h
    split at h
    · exact start j h
    · exact ih (fun j bit => openOnce_induction start step bit) h

/-- What holds of the items of a set and of the starts of a phrase before which such an item stands
holds of all items of the closed set. -/
theorem closure_induction {kernel : Nat} {T : Nat → Prop}
    (start : ∀ j, kernel.testBit j = true → T j)
    (step : ∀ A i, T i → (beforePhrase A).testBit i = true →
      ∀ j, (startsOf A).testBit j = true → T j)
    {j : Nat} (h : (closure kernel).testBit j = true) : T j := by
  rcases testBit_closure.1 h with inside | ⟨A, meets, opened⟩
  · exact start j inside
  · obtain ⟨i, here, before⟩ := and_ne_zero.1 meets
    refine open_induction (step A i (start i here) before) ?_ opened
    intro e he
    obtain ⟨B, rfl⟩ := mem_openings.1 he
    exact step B

/-- The sites that start a phrase. -/
theorem site_of_startsOf {A : Phrase} {j : Nat} {s : Site} {rest : List Symbol}
    (h : (startsOf A).testBit j = true) (found : sites[j]? = some (s, rest)) :
    ∃ n, s = .start n A := by
  obtain ⟨it, found', isStart⟩ := (testBit_itemSet _ j).mp h
  rw [getElem?_of_sites found, Option.some.injEq] at found'
  subst found'
  obtain ⟨p, of, phrase, -⟩ := production_of_site (List.mem_of_getElem? found)
  simp only [itemAt, of, Option.map_some, Bool.and_eq_true, beq_iff_eq, Option.some.injEq,
    phrase] at isStart
  exact ⟨s.number, isStart.2 ▸ Site.eq_start isStart.1⟩

/-- The sites before a symbol. -/
theorem site_of_beforeSymbol {X : Symbol} {j : Nat} {s : Site} {rest : List Symbol}
    (h : (beforeSymbol X).testBit j = true) (found : sites[j]? = some (s, rest)) :
    ∃ more, rest = X :: more := by
  obtain ⟨it, found', next⟩ := testBit_beforeSymbol.1 h
  rw [getElem?_of_sites found, Option.some.injEq] at found'
  subst found'
  exact List.head?_eq_some_iff.mp next

/-- The first state holds the starts of the phrases that the root reaches. -/
theorem inside_first {s : Site} {rest : List Symbol} (h : Inside 1 s rest) :
    ∃ n A, s = .start n A ∧ Reaches .root A := by
  obtain ⟨j, bit, found⟩ := h
  -- The kernel of the first state has the first site only; all others are opened.
  refine closure_induction
    (T := fun j => ∀ s rest, sites[j]? = some (s, rest) →
      ∃ n A, s = .start n A ∧ Reaches .root A) ?_ ?_ bit s rest found
  · intro j bit s rest found
    have first : j = 0 := by
      rw [← Nat.pow_zero 2, Nat.testBit_two_pow, decide_eq_true_eq] at bit
      exact bit.symm
    subst first
    cases found.symm.trans first_site
    exact ⟨0, .root, rfl, .refl⟩
  -- What is opened begins a phrase that is reached from the root.
  · intro A i ih before j starts s rest found
    obtain ⟨n, rfl⟩ := site_of_startsOf starts found
    obtain ⟨it, stands, next⟩ := (testBit_beforeSymbol (X := .phrase A)).mp before
    obtain ⟨s', rest', found', rfl⟩ := getElem?_items stands
    obtain ⟨more, rfl⟩ := List.head?_eq_some_iff.mp next
    obtain ⟨m, B, rfl, reaches⟩ := ih s' _ found'
    exact ⟨n, A, rfl, reaches.step (List.mem_of_getElem? found')⟩

/-- The sites of a state after a symbol have read it, or are opened by one that has. -/
theorem inside_next {k : Nat} {X : Symbol} {s : Site} {rest : List Symbol}
    (h : Inside ((closure k &&& beforeSymbol X) <<< 1) s rest) :
    (∃ s', s = s'.read X ∧ Inside k s' (X :: rest)) ∨
      ∃ n A s' Q more, s = .start n A ∧ Inside k s' (X :: .phrase Q :: more) ∧ Reaches Q A := by
  obtain ⟨j, bit, found⟩ := h
  -- By induction on the closure: a site of the kernel was moved, and all others are opened.
  refine closure_induction
    (T := fun j => ∀ s rest, sites[j]? = some (s, rest) →
      (∃ s', s = s'.read X ∧ Inside k s' (X :: rest)) ∨
        ∃ n A s' Q more, s = .start n A ∧ Inside k s' (X :: .phrase Q :: more) ∧ Reaches Q A)
    ?_ ?_ bit s rest found
  · intro j bit s rest found
    rw [Nat.testBit_shiftLeft, Nat.testBit_and, Bool.and_eq_true, decide_eq_true_eq,
      Bool.and_eq_true] at bit
    obtain ⟨positive, old, before⟩ := bit
    obtain ⟨it, stands, -⟩ := testBit_beforeSymbol.1 before
    obtain ⟨s', rest', found', rfl⟩ := getElem?_items stands
    obtain ⟨more, rfl⟩ := site_of_beforeSymbol before found'
    have next := sites_succ found'
    rw [show j - 1 + 1 = j by omega, found] at next
    cases next
    exact .inl ⟨s', rfl, _, old, found'⟩
  -- What is opened begins a phrase, before which a moved or an opened site stands.
  · intro A i ih before j starts s rest found
    obtain ⟨n, rfl⟩ := site_of_startsOf starts found
    obtain ⟨it, stands, next⟩ := (testBit_beforeSymbol (X := .phrase A)).mp before
    obtain ⟨s', rest', found', rfl⟩ := getElem?_items stands
    obtain ⟨more, rfl⟩ := List.head?_eq_some_iff.mp next
    rcases ih s' _ found' with ⟨s₀, rfl, inside⟩ | ⟨m, B, s₀, Q, tail, rfl, inside, reaches⟩
    · exact .inr ⟨n, A, s₀, A, more, rfl, inside, .refl⟩
    · exact .inr ⟨n, A, s₀, Q, tail, rfl, inside, reaches.step (List.mem_of_getElem? found')⟩

/-! ## Sites that meet -/

/-- Two sites can be in the same state. -/
inductive Meet : Site → Site → Prop where
  | first {A B : Phrase} {m n : Nat} (hA : Reaches .root A) (hB : Reaches .root B) :
    Meet (.start m A) (.start n B)
  | read {s s' : Site} {X : Symbol} (h : Meet s s') : Meet (s.read X) (s'.read X)
  | right {s s' : Site} {X : Symbol} {Q B : Phrase} {n : Nat} {rest : List Symbol}
    (h : Meet (s.read X) (s'.read X)) (opens : (s'.read X, .phrase Q :: rest) ∈ sites)
    (hB : Reaches Q B) : Meet (s.read X) (.start n B)
  | left {s s' : Site} {X : Symbol} {P A : Phrase} {m : Nat} {rest : List Symbol}
    (h : Meet (s.read X) (s'.read X)) (opens : (s.read X, .phrase P :: rest) ∈ sites)
    (hA : Reaches P A) : Meet (.start m A) (s'.read X)
  | both {s s' : Site} {X : Symbol} {P Q A B : Phrase} {m n : Nat} {rest rest' : List Symbol}
    (h : Meet (s.read X) (s'.read X)) (opens : (s.read X, .phrase P :: rest) ∈ sites)
    (opens' : (s'.read X, .phrase Q :: rest') ∈ sites) (hA : Reaches P A) (hB : Reaches Q B) :
    Meet (.start m A) (.start n B)

/-- The site after a symbol is one of the grammar. -/
theorem mem_sites_read {s : Site} {X : Symbol} {rest : List Symbol} (h : (s, X :: rest) ∈ sites) :
    (s.read X, rest) ∈ sites := by
  obtain ⟨j, found⟩ := List.getElem?_of_mem h
  exact List.mem_of_getElem? (sites_succ found)

/-- Two sites in one state meet. -/
theorem meet_of_inside : ∀ k ∈ graph.kernels, ∀ s rest s' rest', Inside k s rest →
    Inside k s' rest' → Meet s s' := by
  apply kernels_induction
  · intro s rest s' rest' h h'
    obtain ⟨m, A, rfl, hA⟩ := inside_first h
    obtain ⟨n, B, rfl, hB⟩ := inside_first h'
    exact .first hA hB
  · intro k X ih s rest s' rest' h h'
    rcases inside_next h with ⟨s₀, rfl, old⟩ | ⟨m, A, s₀, P, more, rfl, old, hA⟩ <;>
      rcases inside_next h' with ⟨s₁, rfl, old'⟩ | ⟨n, B, s₁, Q, more', rfl, old', hB⟩ <;>
      have met := Meet.read (X := X) (ih _ _ _ _ old old')
    · exact met
    · exact met.right (mem_sites_read old'.mem) hB
    · exact met.left (mem_sites_read old.mem) hA
    · exact met.both (mem_sites_read old.mem) (mem_sites_read old'.mem) hA hB

end TailLoop.Grammar.Automaton
