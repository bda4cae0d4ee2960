import Mathlib.Data.List.Basic
import Mathlib.Data.Nat.Bitwise
import Mathlib.Tactic.Common
import TailLoop.Grammar.Automaton

/-!
# What the states of the reader stand for

A state of the automaton is a set of items, and `Here q j` says that the item of number `j` is in the
state `q`. The facts about states that reading relies on are three. Where a symbol leads from one
state to another, every item of the target that has been begun comes from the item before it in the
source, and that item stands before the symbol (`before_of_here`). Where an item stands before a
phrase, the starts of all productions of the phrase are in the same state (`here_of_begun`), and
every start is there for that reason (`begun_of_here`). A production is reduced only in states in
which it has been read to its end (`allows_of_action`).
-/

namespace TailLoop.Grammar.Automaton

/-! ## Items -/

/-- What an item says about its production, and the item after it in a list of items. -/
structure Item.Describes (it : Item) (p : Production) (after : Option Item) : Prop where
  bound : it.read ≤ p.symbols.length
  next : it.next = p.symbols[it.read]?
  after : it.next ≠ none → after = some ⟨it.production, it.read + 1, p.symbols[it.read + 1]?⟩

/-- The items of a production are in the order of its symbols. -/
theorem getElem?_itemsOf (number : Nat) (p : Production) {i : Nat} (h : i ≤ p.symbols.length) :
    (itemsOf number p)[i]? = some ⟨number, i, p.symbols[i]?⟩ := by
  unfold itemsOf
  rcases Nat.lt_or_eq_of_le h with h | rfl
  · rw [List.getElem?_append_left (by simpa using h)]
    simp [h]
  · rw [List.getElem?_append_right (by simp)]
    simp

/-- A production has one item more than symbols. -/
theorem length_itemsOf (number : Nat) (p : Production) :
    (itemsOf number p).length = p.symbols.length + 1 := by
  simp [itemsOf]

/-- The items of some productions that are numbered from `k` on. -/
theorem describes_flatten (ps : List Production) (k : Nat) {j : Nat} {it : Item}
    (h : (ps.mapIdx fun i p => itemsOf (k + i) p).flatten[j]? = some it) :
    ∃ i p, ps[i]? = some p ∧ it.production = k + i ∧
      it.Describes p ((ps.mapIdx fun i p => itemsOf (k + i) p).flatten[j + 1]?) := by
  -- By induction on the productions, whose items stand one behind the other.
  induction ps generalizing k j with
  | nil => simp at h
  | cons p ps ih =>
    have tail : (fun i p => itemsOf (k + (i + 1)) p) = fun i p => itemsOf (k + 1 + i) p := by
      funext i p
      rw [Nat.add_assoc, Nat.add_comm 1 i]
    rw [List.mapIdx_cons, List.flatten_cons, tail] at h ⊢
    -- The item is one of the first production, or it is counted in the rest.
    by_cases here : j < (itemsOf k p).length
    · rw [length_itemsOf] at here
      rw [Nat.add_zero, List.getElem?_append_left (by rw [length_itemsOf]; exact here),
        getElem?_itemsOf k p (by omega)] at h
      cases h
      refine ⟨0, p, rfl, rfl, by simp only; omega, rfl, ?_⟩
      -- If there is more to read, the next item belongs to the same production.
      intro more
      have inside : j < p.symbols.length := by
        by_contra out
        exact more (List.getElem?_eq_none (by omega))
      rw [Nat.add_zero, List.getElem?_append_left (by rw [length_itemsOf]; omega)]
      exact getElem?_itemsOf k p inside
    · rw [Nat.add_zero, List.getElem?_append_right (by omega)] at h
      obtain ⟨i, q, found, number, bound, next, after⟩ := ih (k + 1) h
      refine ⟨i + 1, q, found, by omega, bound, next, ?_⟩
      rw [Nat.add_zero, List.getElem?_append_right (by omega),
        show j + 1 - (itemsOf k p).length = j - (itemsOf k p).length + 1 by omega]
      exact after

/-- An item belongs to a production, stands before its next symbol, and is followed by the item that
has read this symbol. -/
theorem describes_item {j : Nat} {it : Item} (h : items[j]? = some it) :
    ∃ p, productions[it.production]? = some p ∧ it.Describes p items[j + 1]? := by
  have shift : productions.mapIdx itemsOf = productions.mapIdx fun i p => itemsOf (0 + i) p := by
    simp
  unfold items at h ⊢
  rw [shift] at h ⊢
  obtain ⟨i, p, found, number, describes⟩ := describes_flatten productions 0 h
  exact ⟨p, by rw [number, Nat.zero_add]; exact found, describes⟩

/-- Every production has an item at its start. -/
theorem exists_start {number : Nat} {p : Production} (h : productions[number]? = some p) :
    ∃ j : Nat, items[j]? = some ⟨number, 0, p.symbols[0]?⟩ := by
  have inside : (⟨number, 0, p.symbols[0]?⟩ : Item) ∈ items := by
    rw [items, List.mem_flatten]
    refine ⟨itemsOf number p, ?_, ?_⟩
    · rw [List.mem_mapIdx]
      obtain ⟨bound, rfl⟩ := List.getElem?_eq_some_iff.mp h
      exact ⟨number, bound, rfl⟩
    · exact List.mem_of_getElem? (getElem?_itemsOf number p (Nat.zero_le _))
  exact List.getElem?_of_mem inside

/-- The first item is the start of the first production. -/
theorem first_item : ∃ next, items[0]? = some ⟨0, 0, next⟩ := by
  obtain ⟨p, rest, h⟩ : ∃ p rest, productions = p :: rest := ⟨_, _, rfl⟩
  rw [items, h, List.mapIdx_cons, List.flatten_cons,
    List.getElem?_append_left (by rw [length_itemsOf]; omega),
    getElem?_itemsOf 0 p (Nat.zero_le _)]
  exact ⟨_, rfl⟩

/-! ## Sets of items -/

/-- A bit of a sum of sets is one of some set. -/
theorem testBit_foldl_or (sets : List Nat) (a j : Nat) :
    (sets.foldl (· ||| ·) a).testBit j = (a.testBit j || sets.any (·.testBit j)) := by
  induction sets generalizing a with
  | nil => simp
  | cons s sets ih => rw [List.foldl_cons, ih, Nat.testBit_or, List.any_cons, Bool.or_assoc]

/-- The set of the items with a property. -/
theorem testBit_itemSet (p : Item → Bool) (j : Nat) :
    (itemSet p).testBit j = true ↔ ∃ it, items[j]? = some it ∧ p it = true := by
  rw [itemSet, testBit_foldl_or, Nat.zero_testBit, Bool.false_or, List.any_eq_true]
  constructor
  · rintro ⟨s, hs, bit⟩
    obtain ⟨i, bound, rfl⟩ := List.mem_mapIdx.mp hs
    split at bit
    · rename_i holds
      rw [Nat.one_shiftLeft, Nat.testBit_two_pow, decide_eq_true_eq] at bit
      subst bit
      exact ⟨_, List.getElem?_eq_getElem bound, holds⟩
    · simp at bit
  · rintro ⟨it, found, holds⟩
    obtain ⟨bound, rfl⟩ := List.getElem?_eq_some_iff.mp found
    refine ⟨1 <<< j, List.mem_mapIdx.mpr ⟨j, bound, by rw [if_pos holds]⟩, ?_⟩
    rw [Nat.one_shiftLeft, Nat.testBit_two_pow, decide_eq_true_eq]

/-- Two sets have an item in common. -/
theorem and_ne_zero {a b : Nat} : a &&& b ≠ 0 ↔ ∃ j, a.testBit j = true ∧ b.testBit j = true := by
  constructor
  · intro h
    obtain ⟨j, bit⟩ := Nat.exists_testBit_of_ne_zero h
    rw [Nat.testBit_and, Bool.and_eq_true] at bit
    exact ⟨j, bit⟩
  · rintro ⟨j, ha, hb⟩ zero
    have bit : (a &&& b).testBit j = true := by rw [Nat.testBit_and, ha, hb]; rfl
    rw [zero, Nat.zero_testBit] at bit
    cases bit

/-- One set of items is part of another. -/
def Within (a b : Nat) : Prop := ∀ j, a.testBit j = true → b.testBit j = true

/-- A set is within another one just if it adds nothing to it. -/
theorem within_iff {a b : Nat} : Within a b ↔ a ||| b = b := by
  constructor
  · intro h
    apply Nat.eq_of_testBit_eq
    intro j
    rw [Nat.testBit_or]
    cases bit : a.testBit j with
    | false => rw [Bool.false_or]
    | true => rw [Bool.true_or, h j bit]
  · intro h j bit
    rw [← h, Nat.testBit_or, bit, Bool.true_or]

instance (a b : Nat) : Decidable (Within a b) := decidable_of_iff _ within_iff.symm

/-- A set is within itself. -/
theorem Within.refl (a : Nat) : Within a a := fun _ bit => bit

/-- What is within a set is within what the set is within. -/
theorem Within.trans {a b c : Nat} (h : Within a b) (h' : Within b c) : Within a c :=
  fun j bit => h' j (h j bit)

/-- A set is within a sum on its left. -/
theorem within_or_left (a b : Nat) : Within a (a ||| b) := by
  intro j bit
  rw [Nat.testBit_or, bit, Bool.true_or]

/-- A set is within a sum on its right. -/
theorem within_or_right (a b : Nat) : Within b (a ||| b) := by
  intro j bit
  rw [Nat.testBit_or, bit, Bool.or_true]

/-! ## Opening phrases -/

/-- One round of opening phrases. -/
def openOnce (table : List (Nat × Nat)) (set : Nat) : Nat :=
  table.foldl (fun acc e => if acc &&& e.1 = 0 then acc else acc ||| e.2) set

/-- A round of opening stops where nothing is opened. -/
theorem open_succ (table : List (Nat × Nat)) (rounds set : Nat) :
    open_ table (rounds + 1) set =
      if openOnce table set = set then set else open_ table rounds (openOnce table set) := rfl

/-- Opening once loses nothing. -/
theorem within_openOnce (table : List (Nat × Nat)) (set : Nat) :
    Within set (openOnce table set) := by
  unfold openOnce
  induction table generalizing set with
  | nil => exact .refl set
  | cons e table ih =>
    rw [List.foldl_cons]
    split
    · exact ih set
    · exact (within_or_left _ _).trans (ih _)

/-- A round opens every phrase before which an item of the set stands. -/
theorem opens_openOnce {table : List (Nat × Nat)} {set : Nat} {e : Nat × Nat} (he : e ∈ table)
    (h : set &&& e.1 ≠ 0) : Within e.2 (openOnce table set) := by
  unfold openOnce
  induction table generalizing set with
  | nil => cases he
  | cons d table ih =>
    rw [List.foldl_cons]
    rcases List.mem_cons.mp he with rfl | he
    · rw [if_neg h]
      exact (within_or_right _ _).trans (within_openOnce table _)
    · apply ih he
      split
      · exact h
      · obtain ⟨j, bit, before⟩ := and_ne_zero.1 h
        exact and_ne_zero.2 ⟨j, within_or_left _ _ j bit, before⟩

/-- The entries of a table whose phrase is not yet opened. -/
def unopened (table : List (Nat × Nat)) (set : Nat) : List (Nat × Nat) :=
  table.filter fun e => ¬Within e.2 set

/-- A round that changes the set opens a phrase. -/
theorem exists_opened {table : List (Nat × Nat)} {set : Nat} (h : openOnce table set ≠ set) :
    ∃ e ∈ table, ¬Within e.2 set ∧ Within e.2 (openOnce table set) := by
  unfold openOnce at h ⊢
  -- By induction on the table: the first entry that changes the set was not within it before.
  induction table with
  | nil => exact (h rfl).elim
  | cons e table ih =>
    rw [List.foldl_cons] at h ⊢
    by_cases same : (if set &&& e.1 = 0 then set else set ||| e.2) = set
    · rw [same] at h ⊢
      obtain ⟨d, hd, opened⟩ := ih h
      exact ⟨d, List.mem_cons_of_mem _ hd, opened⟩
    · split at same
      · exact (same rfl).elim
      · rename_i meets
        rw [if_neg meets]
        refine ⟨e, List.mem_cons_self, ?_, (within_or_right _ _).trans (within_openOnce table _)⟩
        intro inside
        apply same
        rw [Nat.or_comm]
        exact within_iff.1 inside

/-- Enough rounds of opening phrases come to an end. -/
theorem openOnce_open {table : List (Nat × Nat)} {rounds set : Nat}
    (h : (unopened table set).length ≤ rounds) :
    openOnce table (open_ table rounds set) = open_ table rounds set := by
  -- By induction on the rounds: each one that changes the set opens an entry for good.
  induction rounds generalizing set with
  | zero =>
    change openOnce table set = set
    by_contra grows
    obtain ⟨e, he, out, -⟩ := exists_opened grows
    have rest : e ∈ unopened table set := by simp [unopened, he, out]
    rw [List.length_eq_zero_iff.mp (Nat.le_zero.mp h)] at rest
    cases rest
  | succ rounds ih =>
    rw [open_succ]
    split
    · assumption
    · rename_i grows
      apply ih
      obtain ⟨e, he, out, opened⟩ := exists_opened grows
      have before : e ∈ unopened table set := by simp [unopened, he, out]
      have after : e ∉ unopened table (openOnce table set) := by simp [unopened, opened]
      -- No entry is closed again, so that fewer are left.
      have fewer : (unopened table (openOnce table set)).Sublist (unopened table set) := by
        apply List.monotone_filter_right
        intro d out
        simp only [decide_eq_true_eq] at out ⊢
        exact fun inside => out (inside.trans (within_openOnce table set))
      have less : (unopened table (openOnce table set)).length ≠ (unopened table set).length :=
        fun same => after (fewer.eq_of_length same ▸ before)
      have := fewer.length_le
      omega

/-- Opening loses nothing. -/
theorem within_open (table : List (Nat × Nat)) (rounds set : Nat) :
    Within set (open_ table rounds set) := by
  induction rounds generalizing set with
  | zero => exact .refl set
  | succ rounds ih =>
    rw [open_succ]
    split
    · exact .refl set
    · exact (within_openOnce table set).trans (ih _)

/-- What a round adds is the start of a phrase before which an item stands. -/
theorem opened_of_openOnce {table : List (Nat × Nat)} {set j : Nat}
    (h : (openOnce table set).testBit j = true) :
    set.testBit j = true ∨
      ∃ e ∈ table, openOnce table set &&& e.1 ≠ 0 ∧ e.2.testBit j = true := by
  unfold openOnce at h ⊢
  -- By induction on the table: a bit comes from the set or from an entry that meets it.
  induction table generalizing set with
  | nil => exact .inl h
  | cons e table ih =>
    rw [List.foldl_cons] at h ⊢
    rcases ih h with inside | ⟨d, hd, meets, bit⟩
    · split at inside
      · exact .inl inside
      · rename_i meets
        rw [if_neg meets]
        rw [Nat.testBit_or, Bool.or_eq_true] at inside
        -- What the entry has met is within the result, too.
        refine inside.imp_right fun bit => ⟨e, List.mem_cons_self, ?_, bit⟩
        obtain ⟨i, here, before⟩ := and_ne_zero.1 meets
        exact and_ne_zero.2
          ⟨i, (within_or_left _ _).trans (within_openOnce table _) i here, before⟩
    · exact .inr ⟨d, List.mem_cons_of_mem _ hd, meets, bit⟩

/-- What is opened was there or is opened by an entry. -/
theorem opened_of_open {table : List (Nat × Nat)} {rounds set j : Nat}
    (h : (open_ table rounds set).testBit j = true) :
    set.testBit j = true ∨
      ∃ e ∈ table, open_ table rounds set &&& e.1 ≠ 0 ∧ e.2.testBit j = true := by
  induction rounds generalizing set with
  | zero => exact .inl h
  | succ rounds ih =>
    rw [open_succ] at h ⊢
    split at h
    · exact .inl h
    · rename_i grows
      rw [if_neg grows]
      -- A bit of the next round was opened in that round or later.
      rcases ih h with inside | opened
      · refine (opened_of_openOnce inside).imp_right ?_
        rintro ⟨e, he, meets, bit⟩
        obtain ⟨i, here, before⟩ := and_ne_zero.1 meets
        exact ⟨e, he, and_ne_zero.2 ⟨i, within_open _ _ _ i here, before⟩, bit⟩
      · exact .inr opened

/-! ## Closed sets of items -/

/-- Each phrase is listed. -/
theorem mem_all (p : Phrase) : p ∈ Phrase.all := by cases p <;> decide

/-- Each terminal is listed. -/
theorem mem_terminals (t : Terminal) : t ∈ Terminal.all := by cases t <;> decide

/-- What closing adds: the sets of the entries that apply. -/
theorem testBit_close (full : List (Nat × Nat)) (set j : Nat) :
    (close full set).testBit j = true ↔
      set.testBit j = true ∨ ∃ e ∈ full, set &&& e.1 ≠ 0 ∧ e.2.testBit j = true := by
  -- The set that is asked stays the same, and only the accumulated one grows.
  have general : ∀ acc : Nat,
      (full.foldl (fun acc e => if set &&& e.1 = 0 then acc else acc ||| e.2) acc).testBit j = true ↔
        acc.testBit j = true ∨ ∃ e ∈ full, set &&& e.1 ≠ 0 ∧ e.2.testBit j = true := by
    induction full with
    | nil => simp
    | cons e full ih =>
      intro acc
      rw [List.foldl_cons, ih, List.exists_mem_cons_iff]
      split
      · rename_i apart
        simp [apart]
      · rename_i meets
        rw [Nat.testBit_or, Bool.or_eq_true]
        simp [meets, or_assoc]
  exact general set

-- The sets of the grammar are large numbers, which are not to be computed.
attribute [local irreducible] itemSet open_ Phrase.all


/-- The items before a phrase. -/
def beforePhrase (p : Phrase) : Nat := itemSet (·.next == some (.phrase p))

/-- The items at the starts of the productions of a phrase. -/
def startsOf (p : Phrase) : Nat :=
  itemSet fun i => i.read == 0 && (productions[i.production]?.map (·.phrase)) == some p

/-- There is one entry for each phrase that stands next. -/
theorem mem_openings {e : Nat × Nat} :
    e ∈ openings ↔ ∃ p, e = (beforePhrase p, startsOf p) := by
  rw [openings, List.mem_map]
  constructor
  · rintro ⟨p, -, rfl⟩
    exact ⟨p, rfl⟩
  · rintro ⟨p, rfl⟩
    exact ⟨p, mem_all p, rfl⟩

/-- The starts that a phrase opens, directly or through others. -/
def allStarts (p : Phrase) : Nat := open_ openings Phrase.all.length (startsOf p)

/-- There is one full entry for each phrase that stands next. -/
theorem mem_fullOpenings {e : Nat × Nat} :
    e ∈ fullOpenings ↔ ∃ p, e = (beforePhrase p, allStarts p) := by
  rw [fullOpenings, List.mem_map]
  constructor
  · rintro ⟨d, hd, rfl⟩
    obtain ⟨p, rfl⟩ := mem_openings.1 hd
    exact ⟨p, rfl⟩
  · rintro ⟨p, rfl⟩
    exact ⟨_, mem_openings.2 ⟨p, rfl⟩, rfl⟩

/-- Opening the phrases of a phrase comes to an end: there are no more rounds than phrases. -/
theorem startsOf_within_allStarts {p q : Phrase} (h : allStarts p &&& beforePhrase q ≠ 0) :
    Within (startsOf q) (allStarts p) := by
  have rounds : (unopened openings (startsOf p)).length ≤ Phrase.all.length := by
    refine (List.length_filter_le ..).trans ?_
    rw [openings, List.length_map]
  have opened := opens_openOnce (mem_openings.2 ⟨q, rfl⟩) h
  rw [allStarts, openOnce_open rounds] at opened
  exact opened

/-- A set of items that begins a state, closed. -/
def closure (kernel : Nat) : Nat := close fullOpenings kernel

/-- The closure of a set of items: the items that start a phrase which stands next. -/
theorem testBit_closure {kernel j : Nat} :
    (closure kernel).testBit j = true ↔ kernel.testBit j = true ∨
      ∃ p, kernel &&& beforePhrase p ≠ 0 ∧ (allStarts p).testBit j = true := by
  rw [closure, testBit_close]
  refine or_congr_right ?_
  constructor
  · rintro ⟨e, he, meets, bit⟩
    obtain ⟨p, rfl⟩ := mem_fullOpenings.1 he
    exact ⟨p, meets, bit⟩
  · rintro ⟨p, meets, bit⟩
    exact ⟨_, mem_fullOpenings.2 ⟨p, rfl⟩, meets, bit⟩

/-- A closed set has the starts of every phrase before which one of its items stands. -/
theorem startsOf_within_closure {kernel : Nat} {p : Phrase}
    (h : closure kernel &&& beforePhrase p ≠ 0) : Within (startsOf p) (closure kernel) := by
  intro j bit
  obtain ⟨i, here, before⟩ := and_ne_zero.1 h
  rw [testBit_closure]
  rcases testBit_closure.1 here with inside | ⟨q, meets, opened⟩
  · exact .inr ⟨p, and_ne_zero.2 ⟨i, inside, before⟩, within_open _ _ _ j bit⟩
  · exact .inr ⟨q, meets, startsOf_within_allStarts (and_ne_zero.2 ⟨i, opened, before⟩) j bit⟩

/-- What closing a set adds is the start of a phrase before which one of its items stands. -/
theorem start_of_closure {kernel j : Nat} (h : (closure kernel).testBit j = true) :
    kernel.testBit j = true ∨
      ∃ p, closure kernel &&& beforePhrase p ≠ 0 ∧ (startsOf p).testBit j = true := by
  rcases testBit_closure.1 h with inside | ⟨q, meets, opened⟩
  · exact .inl inside
  · obtain ⟨i, inside, before⟩ := and_ne_zero.1 meets
    refine .inr ?_
    rcases opened_of_open opened with start | ⟨e, he, met, bit⟩
    · exact ⟨q, and_ne_zero.2 ⟨i, testBit_closure.2 (.inl inside), before⟩, start⟩
    · obtain ⟨p, rfl⟩ := mem_openings.1 he
      obtain ⟨k, here, stands⟩ := and_ne_zero.1 met
      exact ⟨p, and_ne_zero.2 ⟨k, testBit_closure.2 (.inr ⟨q, meets, here⟩), stands⟩, bit⟩

/-! ## The graph of states -/

attribute [local irreducible] before fullOpenings

/-- A new set takes the place of none. -/
theorem place_keeps {kernels : Array Nat} {kernel i k : Nat} (h : kernels[i]? = some k) :
    (Graph.place kernels kernel).1[i]? = some k := by
  unfold Graph.place
  split
  · exact h
  · have bound := (Array.getElem?_eq_some_iff.mp h).1
    rw [Array.getElem?_push, if_neg (by omega)]
    exact h

/-- A set is found at its number. -/
theorem place_finds (kernels : Array Nat) (kernel : Nat) :
    (Graph.place kernels kernel).1[(Graph.place kernels kernel).2]? = some kernel := by
  unfold Graph.place
  split
  · rename_i i found
    obtain ⟨bound, same, -⟩ := Array.findIdx?_eq_some_iff_getElem.mp found
    rw [Array.getElem?_eq_getElem bound, eq_of_beq same]
  · simp

/-- What the states after each symbol have to do with the items of a closed set. -/
structure Follows (closed : Nat) (masks : List (Symbol × Nat)) (kernels : Array Nat)
    (r : Array Nat × List (Symbol × Nat)) : Prop where
  keeps : ∀ i k : Nat, kernels[i]? = some k → r.1[i]? = some k
  sound : ∀ a ∈ r.2, ∃ mask, (a.1, mask) ∈ masks ∧ closed &&& mask ≠ 0 ∧
    r.1[a.2]? = some ((closed &&& mask) <<< 1)
  complete : ∀ e ∈ masks, closed &&& e.2 ≠ 0 → ∃ target, (e.1, target) ∈ r.2

/-- Following the symbols of a state does what it should. -/
theorem follow_spec (closed : Nat) (masks : List (Symbol × Nat)) (kernels : Array Nat) :
    Follows closed masks kernels (Graph.follow closed masks kernels) := by
  -- By induction on the symbols: a kernel is placed for each one that the closure stands before.
  induction masks generalizing kernels with
  | nil => exact ⟨fun _ _ h => h, nofun, nofun⟩
  | cons e masks ih =>
    obtain ⟨X, mask⟩ := e
    rw [Graph.follow]
    split
    -- The symbol is before no item of the closure, so that it has no arrow.
    · rename_i apart
      obtain ⟨keeps, sound, complete⟩ := ih kernels
      refine ⟨keeps, ?_, ?_⟩
      · intro a ha
        obtain ⟨m, hm, found⟩ := sound a ha
        exact ⟨m, List.mem_cons_of_mem _ hm, found⟩
      · intro d hd meets
        rcases List.mem_cons.mp hd with rfl | hd
        · exact (meets apart).elim
        · exact complete d hd meets
    · rename_i meets
      -- The kernel is placed, so that the arrow leads to its state.
      obtain ⟨keeps, sound, complete⟩ := ih (Graph.place kernels ((closed &&& mask) <<< 1)).1
      refine ⟨fun i k h => keeps i k (place_keeps h), ?_, ?_⟩
      · intro a ha
        rcases List.mem_cons.mp ha with rfl | ha
        · exact ⟨mask, List.mem_cons_self, meets, keeps _ _ (place_finds _ _)⟩
        · obtain ⟨m, hm, found⟩ := sound a ha
          exact ⟨m, List.mem_cons_of_mem _ hm, found⟩
      · intro d hd meets
        rcases List.mem_cons.mp hd with rfl | hd
        · exact ⟨_, List.mem_cons_self⟩
        · obtain ⟨target, found⟩ := complete d hd meets
          exact ⟨target, List.mem_cons_of_mem _ found⟩

/-- What holds of the states found so far and of the arrows of those that were visited. -/
structure Graph.Sound (g : Graph) : Prop where
  start : g.kernels[0]? = some 1
  sizes : g.closed.size = g.arrows.size
  closed : ∀ q c : Nat, g.closed[q]? = some c → ∃ k, g.kernels[q]? = some k ∧ c = closure k
  arrow : ∀ (q : Nat) c arrows, g.closed[q]? = some c → g.arrows[q]? = some arrows →
    ∀ a ∈ arrows, ∃ mask, (a.1, mask) ∈ before ∧ c &&& mask ≠ 0 ∧
      g.kernels[a.2]? = some ((c &&& mask) <<< 1)
  complete : ∀ (q : Nat) c arrows, g.closed[q]? = some c → g.arrows[q]? = some arrows →
    ∀ e ∈ before, c &&& e.2 ≠ 0 → ∃ target, (e.1, target) ∈ arrows

/-- An entry of a table that gained one. -/
theorem getElem?_push_or {α : Type} {as : Array α} {a b : α} {q : Nat}
    (h : (as.push a)[q]? = some b) : q = as.size ∧ b = a ∨ q < as.size ∧ as[q]? = some b := by
  rw [Array.getElem?_push] at h
  split at h
  · rename_i last
    cases h
    exact .inl ⟨last, rfl⟩
  · exact .inr ⟨(Array.getElem?_eq_some_iff.mp h).1, h⟩

/-- A visited state is the last one, or it was visited before. -/
theorem Graph.visited {g : Graph} {closed c q : Nat} {arrows as : List (Symbol × Nat)}
    (sizes : g.closed.size = g.arrows.size) (hc : (g.closed.push closed)[q]? = some c)
    (ha : (g.arrows.push arrows)[q]? = some as) :
    c = closed ∧ as = arrows ∨ g.closed[q]? = some c ∧ g.arrows[q]? = some as := by
  rcases getElem?_push_or hc with ⟨rfl, rfl⟩ | ⟨less, hc⟩
  · rcases getElem?_push_or ha with ⟨-, rfl⟩ | ⟨less, -⟩
    · exact .inl ⟨rfl, rfl⟩
    · omega
  · rcases getElem?_push_or ha with ⟨rfl, -⟩ | ⟨-, ha⟩
    · omega
    · exact .inr ⟨hc, ha⟩

/-- Exploring keeps the graph sound. -/
theorem Graph.Sound.explore (fuel : Nat) {g : Graph} (h : g.Sound) :
    (Graph.explore before fullOpenings fuel g).Sound := by
  induction fuel generalizing g with
  | zero => exact h
  | succ fuel ih =>
    rw [Graph.explore]
    split
    · exact h
    · rename_i kernel found
      -- The state is visited: its arrows are those that follow its closure.
      obtain ⟨keeps, sound, complete⟩ := follow_spec (closure kernel) before g.kernels
      change (Graph.explore before fullOpenings fuel
        ⟨(Graph.follow (closure kernel) before g.kernels).1, g.closed.push (closure kernel),
          g.arrows.push (Graph.follow (closure kernel) before g.kernels).2⟩).Sound
      apply ih
      refine ⟨keeps _ _ h.start, by simp [h.sizes], ?_, ?_, ?_⟩
      -- The closure is that of the kernel, for the new state as for the old ones.
      · intro q c hc
        rcases getElem?_push_or hc with ⟨rfl, rfl⟩ | ⟨-, hc⟩
        · exact ⟨kernel, keeps _ _ (h.sizes ▸ found), rfl⟩
        · obtain ⟨k, hk, rfl⟩ := h.closed q c hc
          exact ⟨k, keeps _ _ hk, rfl⟩
      -- Each arrow was placed for a symbol before some item.
      · intro q c arrows hc ha a mem
        rcases Graph.visited h.sizes hc ha with ⟨rfl, rfl⟩ | ⟨hc, ha⟩
        · exact sound a mem
        · obtain ⟨mask, hm, meets, hk⟩ := h.arrow q c arrows hc ha a mem
          exact ⟨mask, hm, meets, keeps _ _ hk⟩
      -- And each such symbol has an arrow.
      · intro q c arrows hc ha e he meets
        rcases Graph.visited h.sizes hc ha with ⟨rfl, rfl⟩ | ⟨hc, ha⟩
        · exact complete e he meets
        · exact h.complete q c arrows hc ha e he meets

/-- The graph of the states is sound. -/
theorem sound_graph : graph.Sound := by
  apply Graph.Sound.explore
  exact ⟨rfl, rfl, by simp, by simp, by simp⟩

/-! ## Items of a state -/

attribute [local irreducible] graph

/-- Each symbol is listed. -/
theorem mem_symbols (X : Symbol) : X ∈ symbols := by
  rw [symbols, List.mem_append]
  cases X with
  | terminal t => exact .inl (List.mem_map_of_mem (mem_terminals t))
  | phrase p => exact .inr (List.mem_map_of_mem (mem_all p))

/-- The items before a symbol. -/
def beforeSymbol (X : Symbol) : Nat := itemSet (·.next == some X)

/-- Each symbol has one set of items before it. -/
theorem mem_before {X : Symbol} {mask : Nat} : (X, mask) ∈ before ↔ mask = beforeSymbol X := by
  unfold before
  rw [List.mem_map]
  constructor
  · rintro ⟨Y, -, same⟩
    cases same
    rfl
  · rintro rfl
    exact ⟨X, mem_symbols X, rfl⟩

/-- The items before a symbol are those for which it is next. -/
theorem testBit_beforeSymbol {X : Symbol} {j : Nat} :
    (beforeSymbol X).testBit j = true ↔ ∃ it, items[j]? = some it ∧ it.next = some X := by
  rw [beforeSymbol, testBit_itemSet]
  simp

/-- The item of a number is in a state. -/
def Here (q j : Nat) : Prop := ∃ kernel, graph.kernels[q]? = some kernel ∧
  (closure kernel).testBit j = true

/-- A state whose arrows are known. -/
def Visited (q : Nat) : Prop := q < graph.arrows.size

/-- A symbol leads from one state to another. -/
def Leads (q : Nat) (X : Symbol) (r : Nat) : Prop :=
  ∃ arrows, graph.arrows[q]? = some arrows ∧ (X, r) ∈ arrows

/-- A state that reading can come to: the first one, or one that a symbol leads to. -/
def Reached (q : Nat) : Prop := q = 0 ∨ ∃ r X, Leads r X q

/-- What is found by its key is listed. -/
theorem mem_of_lookup {α β : Type} [DecidableEq α] {l : List (α × β)} {a : α} {b : β}
    (h : l.lookup a = some b) : (a, b) ∈ l := by
  induction l with
  | nil => cases h
  | cons e l ih =>
    obtain ⟨k, v⟩ := e
    rw [List.lookup_cons] at h
    split at h
    · rename_i same
      cases h
      rw [eq_of_beq same]
      exact List.mem_cons_self
    · exact List.mem_cons_of_mem _ (ih h)

/-- A listed key is found. -/
theorem lookup_of_mem {α β : Type} [DecidableEq α] {l : List (α × β)} {a : α} {b : β}
    (h : (a, b) ∈ l) : ∃ b', l.lookup a = some b' := by
  induction l with
  | nil => cases h
  | cons e l ih =>
    obtain ⟨k, v⟩ := e
    rw [List.lookup_cons]
    split
    · exact ⟨v, rfl⟩
    · rename_i apart
      rcases List.mem_cons.mp h with same | h
      · cases same
        simp at apart
      · exact ih h

/-- Where the graph tells, a symbol leads. -/
theorem leads_of_after {q r : Nat} {X : Symbol} (h : graph.after q X = some r) : Leads q X r := by
  obtain ⟨arrows, found, led⟩ := Option.bind_eq_some_iff.mp h
  exact ⟨arrows, found, mem_of_lookup led⟩

/-- A state from which a symbol leads is visited. -/
theorem visited_of_leads {q r : Nat} {X : Symbol} (h : Leads q X r) : Visited q := by
  obtain ⟨arrows, found, -⟩ := h
  exact (Array.getElem?_eq_some_iff.mp found).1

/-- The items of a visited state and its arrows. -/
theorem Visited.spec {q : Nat} (h : Visited q) : ∃ kernel arrows, graph.kernels[q]? = some kernel ∧
    graph.closed[q]? = some (closure kernel) ∧ graph.arrows[q]? = some arrows := by
  have bound : q < graph.closed.size := (sound_graph).sizes ▸ h
  have found := Array.getElem?_eq_getElem bound
  obtain ⟨kernel, hk, same⟩ := (sound_graph).closed q _ found
  exact ⟨kernel, _, hk, same ▸ found, Array.getElem?_eq_getElem h⟩

/-- The items with which a state begins that a symbol leads to. -/
theorem kernel_of_leads {q r : Nat} {X : Symbol} (h : Leads q X r) :
    ∃ kernel, graph.kernels[q]? = some kernel ∧
      graph.kernels[r]? = some ((closure kernel &&& beforeSymbol X) <<< 1) := by
  obtain ⟨kernel, arrows, hk, hc, ha⟩ := (visited_of_leads h).spec
  obtain ⟨arrows', ha', arrow⟩ := h
  rw [ha] at ha'
  cases ha'
  obtain ⟨mask, hm, -, target⟩ := (sound_graph).arrow q _ arrows hc ha _ arrow
  rw [mem_before.1 hm] at target
  exact ⟨kernel, hk, target⟩

/-- Where an item stands before a symbol, the symbol leads on. -/
theorem leads_of_here {q j : Nat} {it : Item} {X : Symbol} (visited : Visited q) (here : Here q j)
    (found : items[j]? = some it) (next : it.next = some X) : ∃ r, Leads q X r := by
  obtain ⟨kernel, arrows, hk, hc, ha⟩ := visited.spec
  obtain ⟨kernel', hk', bit⟩ := here
  rw [hk] at hk'
  cases hk'
  have meets : closure kernel &&& beforeSymbol X ≠ 0 :=
    and_ne_zero.2 ⟨j, bit, testBit_beforeSymbol.2 ⟨it, found, next⟩⟩
  obtain ⟨target, arrow⟩ :=
    (sound_graph).complete q _ arrows hc ha (X, beforeSymbol X) (mem_before.2 rfl) meets
  exact ⟨target, arrows, ha, arrow⟩

/-- Reading a symbol before which an item stands leads to the item after it. -/
theorem here_of_leads {q r j : Nat} {it : Item} {X : Symbol} (h : Leads q X r)
    (here : Here q j) (found : items[j]? = some it) (next : it.next = some X) : Here r (j + 1) := by
  obtain ⟨kernel, hk, target⟩ := kernel_of_leads h
  obtain ⟨kernel', hk', bit⟩ := here
  rw [hk] at hk'
  cases hk'
  refine ⟨_, target, testBit_closure.2 (.inl ?_)⟩
  rw [Nat.testBit_shiftLeft, Nat.testBit_and, Nat.add_sub_cancel, bit,
    testBit_beforeSymbol.2 ⟨it, found, next⟩]
  simp

/-- An item of a state that has read something comes from the item before it, which stood before the
symbol that led to the state. -/
theorem before_of_here {q r j : Nat} {it : Item} {X : Symbol} (h : Leads q X r) (here : Here r j)
    (found : items[j]? = some it) (begun : it.read ≠ 0) :
    ∃ i it', j = i + 1 ∧ Here q i ∧ items[i]? = some it' ∧ it'.next = some X := by
  obtain ⟨kernel, hk, target⟩ := kernel_of_leads h
  obtain ⟨kernel', hk', bit⟩ := here
  rw [target] at hk'
  cases hk'
  rcases start_of_closure bit with inside | ⟨p, -, start⟩
  · rw [Nat.testBit_shiftLeft, Nat.testBit_and, Bool.and_eq_true, decide_eq_true_eq,
      Bool.and_eq_true] at inside
    obtain ⟨positive, old, before⟩ := inside
    obtain ⟨it', found', next⟩ := testBit_beforeSymbol.1 before
    exact ⟨j - 1, it', by omega, ⟨kernel, hk, old⟩, found', next⟩
  · obtain ⟨it', found', isStart⟩ := (testBit_itemSet _ j).mp start
    rw [found] at found'
    cases found'
    simp [begun] at isStart

/-- The first state holds nothing but starts. -/
theorem read_of_first {j : Nat} {it : Item} (here : Here 0 j) (found : items[j]? = some it) :
    it.read = 0 := by
  obtain ⟨kernel, hk, bit⟩ := here
  rw [(sound_graph).start] at hk
  cases hk
  rcases start_of_closure bit with inside | ⟨p, -, start⟩
  · have first : j = 0 := by
      rw [← Nat.pow_zero 2, Nat.testBit_two_pow, decide_eq_true_eq] at inside
      exact inside.symm
    subst first
    obtain ⟨next, root⟩ := first_item
    cases found.symm.trans root
    rfl
  · obtain ⟨it', found', isStart⟩ := (testBit_itemSet _ j).mp start
    cases found.symm.trans found'
    rw [Bool.and_eq_true] at isStart
    exact eq_of_beq isStart.1

/-- Every start of a phrase in a state stands there because another item stands before the phrase.
The root alone is begun for no such reason. -/
theorem begun_of_here {q j number : Nat} {p : Production} (reached : Reached q) (here : Here q j)
    (found : items[j]? = some ⟨number, 0, p.symbols[0]?⟩) (of : productions[number]? = some p)
    (inner : number ≠ 0) : ∃ i it, Here q i ∧ items[i]? = some it ∧
      it.next = some (.phrase p.phrase) := by
  obtain ⟨kernel, hk, bit⟩ := here
  rcases start_of_closure bit with inside | ⟨p', meets, start⟩
  -- In the kernel there are only the very first item and items after a symbol.
  · exfalso
    rcases reached with rfl | ⟨r, X, led⟩
    · rw [(sound_graph).start] at hk
      cases hk
      have first : j = 0 := by
        rw [← Nat.pow_zero 2, Nat.testBit_two_pow, decide_eq_true_eq] at inside
        exact inside.symm
      subst first
      obtain ⟨next, root⟩ := first_item
      rw [root] at found
      cases found
      -- An item after a symbol is not the first of its production.
      exact inner rfl
    · obtain ⟨kernel', hk', target⟩ := kernel_of_leads led
      rw [target] at hk
      cases hk
      rw [Nat.testBit_shiftLeft, Nat.testBit_and, Bool.and_eq_true, decide_eq_true_eq,
        Bool.and_eq_true] at inside
      obtain ⟨positive, -, before⟩ := inside
      obtain ⟨it', found', next⟩ := testBit_beforeSymbol.1 before
      obtain ⟨p', -, describes⟩ := describes_item found'
      have after := describes.after (by simp [next])
      rw [show j - 1 + 1 = j by omega, found] at after
      cases after
  -- Otherwise the closure has opened the production before some item.
  · obtain ⟨it, found', isStart⟩ := (testBit_itemSet _ j).mp start
    rw [found] at found'
    cases found'
    simp only [beq_self_eq_true, Bool.true_and, of, Option.map_some, beq_iff_eq,
      Option.some.injEq] at isStart
    subst isStart
    obtain ⟨i, old, before⟩ := and_ne_zero.1 meets
    obtain ⟨it', stands, next⟩ := testBit_beforeSymbol.1 before
    exact ⟨i, it', ⟨kernel, hk, old⟩, stands, next⟩

/-- Where an item stands before a phrase, the starts of the phrase are. -/
theorem here_of_begun {q i j number : Nat} {it : Item} {p : Production} (here : Here q i)
    (stands : items[i]? = some it) (next : it.next = some (.phrase p.phrase))
    (of : productions[number]? = some p) (found : items[j]? = some ⟨number, 0, p.symbols[0]?⟩) :
    Here q j := by
  obtain ⟨kernel, hk, bit⟩ := here
  have before : (beforePhrase p.phrase).testBit i = true := by
    rw [beforePhrase, testBit_itemSet]
    exact ⟨it, stands, beq_iff_eq.mpr next⟩
  have start : (startsOf p.phrase).testBit j = true := by
    rw [startsOf, testBit_itemSet]
    refine ⟨_, found, ?_⟩
    simp only [beq_self_eq_true, Bool.true_and, of, Option.map_some]
  exact ⟨kernel, hk, startsOf_within_closure (and_ne_zero.2 ⟨i, bit, before⟩) j start⟩

/-! ## Actions of a state -/

/-- Reading the rest of a production from a state leads to the end of the production, unless it leads
to a state that was not visited. -/
theorem here_of_trace {number : Nat} {p : Production} (of : productions[number]? = some p)
    {q r i j d : Nat} (here : Here q j) (found : items[j]? = some ⟨number, i, p.symbols[i]?⟩)
    (stop : (graph.trace q (p.symbols.drop i)).getLastD d = r) (visited : Visited r) :
    ∃ k, Here r k ∧ items[k]? = some ⟨number, p.symbols.length, none⟩ := by
  -- By induction on the symbols that are left: each step leads to the state of the next item.
  induction more : p.symbols.drop i generalizing q i j d with
  | nil =>
    obtain ⟨p', of', describes⟩ := describes_item found
    rw [of] at of'
    cases of'
    have last : i = p.symbols.length :=
      Nat.le_antisymm describes.bound (List.drop_eq_nil_iff.mp more)
    rw [more, Graph.trace] at stop
    subst last stop
    rw [List.getElem?_eq_none (Nat.le_refl _)] at found
    exact ⟨j, here, found⟩
  | cons X rest ih =>
    obtain ⟨p', of', describes⟩ := describes_item found
    rw [of] at of'
    cases of'
    have next : p.symbols[i]? = some X := by
      rw [← List.head?_drop, more]
      rfl
    have rest' : p.symbols.drop (i + 1) = rest := by
      rw [← List.drop_drop, more]
      rfl
    rw [more, Graph.trace] at stop
    split at stop
    · rename_i r' led
      rw [List.getLastD_cons] at stop
      have after := describes.after (by simp [next])
      exact ih (here_of_leads (leads_of_after led) here found next) after (rest' ▸ stop) rest'
    -- Since the item stands in the state, there is an arrow for its symbol.
    · rename_i stuck
      change q = r at stop
      subst stop
      obtain ⟨r', arrows, found', arrow⟩ := leads_of_here visited here found next
      obtain ⟨r'', led⟩ := lookup_of_mem arrow
      rw [Graph.after, found'] at stuck
      cases led.symm.trans stuck

/-- What the production of a number is like by itself. The root has the first production only and
stands in none. A program stands alone in the production of the root; the one without statements is
the only empty production. A label is a name and a colon before a statement, and no production reads
the end of the text. -/
structure Regular (number : Nat) (p : Production) : Prop where
  first : p.phrase = .root → number = 0
  root : .phrase .root ∉ p.symbols
  program : .phrase .program ∈ p.symbols → p.phrase = .root ∧ p.symbols = [.phrase .program]
  empty : p.symbols = [] → p.phrase = .program ∧ number = 2
  labeled : p.phrase = .labeledStatement →
    p.symbols = [.terminal .name, .terminal .colon, .phrase .statement]
  endOfInput : .terminal .endOfInput ∉ p.symbols

instance (number : Nat) (p : Production) : Decidable (Regular number p) :=
  decidable_of_iff
    ((p.phrase = .root → number = 0) ∧ .phrase .root ∉ p.symbols ∧
      (.phrase .program ∈ p.symbols → p.phrase = .root ∧ p.symbols = [.phrase .program]) ∧
      (p.symbols = [] → p.phrase = .program ∧ number = 2) ∧
      (p.phrase = .labeledStatement →
        p.symbols = [.terminal .name, .terminal .colon, .phrase .statement]) ∧
      .terminal .endOfInput ∉ p.symbols)
    ⟨fun ⟨first, root, program, empty, labeled, endOfInput⟩ =>
      ⟨first, root, program, empty, labeled, endOfInput⟩,
      fun ⟨first, root, program, empty, labeled, endOfInput⟩ =>
      ⟨first, root, program, empty, labeled, endOfInput⟩⟩

/-- Every production is regular. -/
theorem regular {number : Nat} {p : Production} (of : productions[number]? = some p) :
    Regular number p := by
  have all : ∀ e ∈ productions.zipIdx, Regular e.2 e.1 := by decide +kernel
  exact all (p, number) (List.mem_zipIdx_iff_getElem?.mpr of)

/-- Where a phrase is begun, the starts of its productions are. -/
theorem here_of_mem_begun {q number : Nat} {p : Production} (visited : Visited q)
    (of : productions[number]? = some p) (begun : p.phrase ∈ graph.begun q) :
    ∃ j, Here q j ∧ items[j]? = some ⟨number, 0, p.symbols[0]?⟩ := by
  obtain ⟨j, found⟩ := exists_start of
  rw [Graph.begun, List.mem_append] at begun
  rcases begun with begun | begun
  -- The root begins in the first state only.
  · split at begun
    · rename_i first
      have root := List.mem_singleton.mp begun
      have zero := (regular of).first root
      subst first zero
      obtain ⟨next, start⟩ := first_item
      obtain ⟨p', of', describes⟩ := describes_item start
      rw [of] at of'
      cases of'
      refine ⟨0, ⟨1, (sound_graph).start, testBit_closure.2 (.inl rfl)⟩, ?_⟩
      rw [start, ← describes.next]
    · cases begun
  -- Any other phrase begins where an arrow reads it, so that its production is opened there.
  · obtain ⟨kernel, arrows, hk, hc, ha⟩ := visited.spec
    rw [ha] at begun
    obtain ⟨⟨X, target⟩, arrow, isPhrase⟩ := List.mem_filterMap.mp begun
    cases X with
    | terminal t => cases isPhrase
    | phrase P =>
      cases isPhrase
      obtain ⟨mask, hm, meets, -⟩ := (sound_graph).arrow q _ arrows hc ha _ arrow
      rw [mem_before.1 hm] at meets
      obtain ⟨i, here, before⟩ := and_ne_zero.1 meets
      obtain ⟨it, stands, next⟩ := testBit_beforeSymbol.1 before
      exact ⟨j, here_of_begun ⟨kernel, hk, here⟩ stands next of found, found⟩

/-- A production that is read from where its phrase is begun has been read to its end where the
reading stops. -/
theorem here_of_reading {r : Reading} (h : r ∈ graph.readings) (visited : Visited r.stop) :
    ∃ p k, productions[r.production]? = some p ∧ Here r.stop k ∧
      items[k]? = some ⟨r.production, p.symbols.length, none⟩ := by
  simp only [Graph.readings, List.mem_flatMap, List.mem_range, List.mem_filterMap] at h
  obtain ⟨q, known, phrase, begun, ⟨number, p⟩, listed, made⟩ := h
  -- The productions are listed with their numbers.
  obtain ⟨bound, of⟩ : ∃ bound : number < productions.length, productions[number] = p := by
    obtain ⟨i, bound, same⟩ := List.mem_mapIdx.mp listed
    cases same
    exact ⟨bound, rfl⟩
  have of' : productions[number]? = some p := List.getElem?_eq_some_iff.mpr ⟨bound, of⟩
  split at made
  · rename_i same
    subst same
    cases made
    -- The production begins in the source, and its symbols lead to the end of the reading.
    obtain ⟨j, here, found⟩ := here_of_mem_begun known of' begun
    obtain ⟨k, stops⟩ := here_of_trace of' here found rfl visited
    exact ⟨p, k, of', stops⟩
  · cases made

/-- The first actions are among the actions. -/
theorem mem_of_mem_firstActions {l : List (Terminal × Action)} {e : Terminal × Action}
    (h : e ∈ firstActions l) : e ∈ l := by
  induction l with
  | nil => exact h
  | cons d l ih =>
    obtain ⟨t, a⟩ := d
    rw [firstActions] at h
    rcases List.mem_cons.mp h with rfl | h
    · exact List.mem_cons_self
    · exact List.mem_cons_of_mem _ (ih (List.mem_filter.mp h).1)

/-- What an action in a state says about its items. -/
def Allows (q : Nat) (t : Terminal) : Action → Prop
  | .shift r => Leads q (.terminal t) r
  | .reduce number => number ≠ 0 ∧ ∃ p k, productions[number]? = some p ∧ Here q k ∧
    items[k]? = some ⟨number, p.symbols.length, none⟩
  | .accept => ∃ p k, productions[0]? = some p ∧ Here q k ∧
    items[k]? = some ⟨0, p.symbols.length, none⟩

/-- There is a row of actions for each visited state. -/
theorem size_build (g : Graph) : (build g).size = g.arrows.size := by
  unfold build
  rw [Array.size_map, Array.size_range]

/-- The states of an automaton are those of its graph that were visited. -/
theorem getElem?_build {g : Graph} {q : Nat} {state : State} (h : (build g)[q]? = some state) :
    ∃ arrows follows, g.arrows[q]? = some arrows ∧
      state = stateOf ((g.closed[q]?).getD 0) arrows (reductions g.readings follows q) := by
  have bound : q < g.arrows.size := size_build g ▸ (Array.getElem?_eq_some_iff.mp h).1
  unfold build at h
  rw [Array.getElem?_map, Option.map_eq_some_iff] at h
  obtain ⟨q', found, rfl⟩ := h
  obtain ⟨_, same⟩ := Array.getElem?_eq_some_iff.mp found
  rw [Array.getElem_range] at same
  subst same
  exact ⟨_, _, Array.getElem?_eq_getElem bound, by rw [Array.getElem?_eq_getElem bound]; rfl⟩

/-- The automaton acts only in states that were visited. -/
theorem visited_of_action {q : Nat} {t : Terminal} {a : Action} (h : action? automaton q t = some a) :
    Visited q := by
  obtain ⟨state, found, -⟩ := Option.bind_eq_some_iff.mp h
  have bound : q < (build graph).size := (Array.getElem?_eq_some_iff.mp found).1
  rw [size_build] at bound
  exact bound

/-- The actions of the automaton are allowed by the items of its states. -/
theorem allows_of_action {q : Nat} {t : Terminal} {a : Action} (h : action? automaton q t = some a) :
    Allows q t a := by
  obtain ⟨state, found, listed⟩ := Option.bind_eq_some_iff.mp h
  obtain ⟨arrows, follows, ha, rfl⟩ := getElem?_build found
  -- The action is one of those that are listed for the state.
  have mem := mem_of_mem_firstActions (mem_of_lookup listed)
  rw [List.mem_append] at mem
  rcases mem with mem | mem
  · obtain ⟨⟨X, target⟩, arrow, isShift⟩ := List.mem_filterMap.mp mem
    cases X with
    | terminal t' =>
      cases isShift
      exact ⟨arrows, ha, arrow⟩
    | phrase p => cases isShift
  -- It is a reduction, whose production has been read up to its end.
  · obtain ⟨r, hr, listed⟩ := List.mem_flatMap.mp mem
    obtain ⟨read, stops⟩ := List.mem_filter.mp hr
    obtain ⟨t', -, same⟩ := List.mem_map.mp listed
    cases eq_of_beq stops
    obtain ⟨p, k, of, here, found⟩ :=
      here_of_reading read (Array.getElem?_eq_some_iff.mp ha).1
    cases same
    split
    · rename_i root
      rw [root] at of found
      exact ⟨p, k, of, here, found⟩
    · rename_i inner
      exact ⟨inner, p, k, of, here, found⟩

/-- A phrase leads from a state where the automaton says so. -/
theorem leads_of_goto {q r : Nat} {p : Phrase} (h : goto? automaton q p = some r) :
    Leads q (.phrase p) r := by
  obtain ⟨state, found, listed⟩ := Option.bind_eq_some_iff.mp h
  obtain ⟨arrows, follows, ha, rfl⟩ := getElem?_build found
  obtain ⟨⟨X, target⟩, arrow, isPhrase⟩ := List.mem_filterMap.mp (mem_of_lookup listed)
  cases X with
  | terminal t => cases isPhrase
  | phrase p' =>
    cases isPhrase
    exact ⟨arrows, ha, arrow⟩

/-- A visited state has a row of actions. -/
theorem exists_state {g : Graph} {q : Nat} (h : q < g.arrows.size) :
    ∃ state, (build g)[q]? = some state :=
  ⟨_, Array.getElem?_eq_getElem (size_build g ▸ h)⟩

/-- Where a phrase leads from a state, the automaton says so. -/
theorem goto_of_leads {q r : Nat} {p : Phrase} (h : Leads q (.phrase p) r) :
    ∃ r', goto? automaton q p = some r' := by
  obtain ⟨state, found⟩ := exists_state (visited_of_leads h)
  obtain ⟨arrows, ha, arrow⟩ := h
  obtain ⟨arrows', follows, ha', rfl⟩ := getElem?_build found
  rw [ha] at ha'
  cases ha'
  unfold goto? automaton
  rw [found]
  exact lookup_of_mem (List.mem_filterMap.mpr ⟨_, arrow, rfl⟩)

end TailLoop.Grammar.Automaton
