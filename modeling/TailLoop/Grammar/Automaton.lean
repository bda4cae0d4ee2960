import TailLoop.Grammar.Production

/-!
# The automaton of the grammar

The states of the reader are sets of items, an item being a production read up to some point. The
items are numbered so that reading on by one symbol adds one to the number; a set of items is then a
number whose binary digits say which items are in it, and reading a symbol is a mask and a shift.
A finished production is reduced only before the terminals that can follow it where it was begun.
Where a terminal can also be read on, it is read, which gives an `else` to the nearest `if`.
-/

namespace TailLoop.Grammar

/-- What the reader does in a state before a terminal. -/
inductive Action where
  /-- Take the terminal and go to a state. -/
  | shift (state : Nat)
  /-- Replace the symbols of a production by its phrase. -/
  | reduce (production : Nat)
  /-- The text is a program. -/
  | accept
deriving DecidableEq

/-- A state of the reader. -/
structure State where
  /-- The items of the state, as a set. -/
  items : Nat
  /-- The terminals it goes on with. -/
  actions : List (Terminal × Action)
  /-- The states after each phrase. -/
  gotos : List (Phrase × Nat)

namespace Automaton

/-- An item: a production, how many of its symbols are read, and the next symbol. -/
structure Item where
  /-- The number of the production. -/
  production : Nat
  /-- How many symbols are read. -/
  read : Nat
  /-- The next symbol, or none when all are read. -/
  next : Option Symbol

/-- The items of the production of the given number. -/
def itemsOf (number : Nat) (p : Production) : List Item :=
  (p.symbols.mapIdx fun i s => ⟨number, i, some s⟩) ++ [⟨number, p.symbols.length, none⟩]

/-- All items; the number of an item is its place in this list. -/
def items : List Item := (productions.mapIdx itemsOf).flatten

/-- The set of the items with a property. -/
def itemSet (p : Item → Bool) : Nat :=
  (items.mapIdx fun i item => if p item then 1 <<< i else 0).foldl (· ||| ·) 0

/-- All symbols. -/
def symbols : List Symbol := Terminal.all.map .terminal ++ Phrase.all.map .phrase

/-- The items before each symbol. -/
def before : List (Symbol × Nat) :=
  symbols.map fun s => (s, itemSet (·.next == some s))

/-- Each phrase with the items before it and the items at the start of its productions. -/
def openings : List (Nat × Nat) :=
  Phrase.all.map fun p =>
    (itemSet (·.next == some (.phrase p)),
     itemSet fun i => i.read == 0 && (productions[i.production]?.map (·.phrase)) == some p)

/-- The items of a set together with the starts of all phrases that they stand before, taken
`rounds` times. -/
def open_ (table : List (Nat × Nat)) : (rounds : Nat) → Nat → Nat
  | 0, set => set
  | rounds + 1, set =>
    let more := table.foldl
      (fun acc (b, starts) => if acc &&& b = 0 then acc else acc ||| starts) set
    if more = set then set else open_ table rounds more

/-- All starts of phrases that a phrase opens, directly or through others. -/
def fullOpenings : List (Nat × Nat) :=
  openings.map fun (b, starts) => (b, open_ openings Phrase.all.length starts)

/-- The closed set of items of a state. -/
def close (full : List (Nat × Nat)) (set : Nat) : Nat :=
  full.foldl (fun acc (b, starts) => if set &&& b = 0 then acc else acc ||| starts) set

/-- States found so far and where symbols lead from each of them. -/
structure Graph where
  /-- The items with which each state begins. -/
  kernels : Array Nat
  /-- The closed set of items of each visited state. -/
  closed : Array Nat
  /-- For each visited state, where symbols lead. -/
  arrows : Array (List (Symbol × Nat))

/-- The number of the state with the given items, which is added when it is new. -/
def Graph.place (kernels : Array Nat) (kernel : Nat) : Array Nat × Nat :=
  match kernels.findIdx? (· == kernel) with
  | some i => (kernels, i)
  | none => (kernels.push kernel, kernels.size)

/-- The states after each symbol from a closed set of items. -/
def Graph.follow (closed : Nat) : List (Symbol × Nat) → Array Nat → Array Nat × List (Symbol × Nat)
  | [], kernels => (kernels, [])
  | (s, mask) :: rest, kernels =>
    let moved := closed &&& mask
    if moved = 0 then Graph.follow closed rest kernels
    else
      let (kernels, target) := Graph.place kernels (moved <<< 1)
      let (kernels, arrows) := Graph.follow closed rest kernels
      (kernels, (s, target) :: arrows)

/-- Visits states in the order in which they were found, at most `fuel` of them. -/
def Graph.explore (before : List (Symbol × Nat)) (full : List (Nat × Nat)) :
    (fuel : Nat) → Graph → Graph
  | 0, g => g
  | fuel + 1, g =>
    match g.kernels[g.arrows.size]? with
    | none => g
    | some kernel =>
      let closed := close full kernel
      let (kernels, arrows) := Graph.follow closed before g.kernels
      Graph.explore before full fuel ⟨kernels, g.closed.push closed, g.arrows.push arrows⟩

/-- The states reached from the start of the root production. There are no more of them than sets of
items. -/
def graph : Graph :=
  Graph.explore before fullOpenings (Nat.pow 2 (items.length + 1)) ⟨#[1], #[], #[]⟩

/-- Where a symbol leads from a state. -/
def Graph.after (g : Graph) (state : Nat) (s : Symbol) : Option Nat :=
  (g.arrows[state]?).bind (·.lookup s)

/-- A terminal as a set of one. -/
def terminalSet (t : Terminal) : Nat := 1 <<< Terminal.all.idxOf t

/-- The terminals that can be read in a state, as a set. -/
def Graph.reads (g : Graph) (state : Nat) : Nat :=
  ((g.arrows[state]?).getD []).foldl
    (fun acc (s, _) => match s with | .terminal t => acc ||| terminalSet t | .phrase _ => acc) 0

/-- A phrase begun in a state, as a number. -/
def cell (state : Nat) (p : Phrase) : Nat := state * Phrase.all.length + Phrase.all.idxOf p

/-- The states passed while the symbols are read from a state, that state first. -/
def Graph.trace (g : Graph) : (state : Nat) → List Symbol → List Nat
  | state, [] => [state]
  | state, s :: rest =>
    match g.after state s with
    | some next => state :: g.trace next rest
    | none => [state]

/-- What reading one production from one state says about the terminals that can follow: in the
state at its end the production may be reduced before whatever follows its phrase, and whatever
follows its phrase also follows its last symbol, if that is a phrase. -/
structure Reading where
  /-- The phrase and where it was begun. -/
  source : Nat
  /-- The state at the end of the production. -/
  stop : Nat
  /-- The production. -/
  production : Nat
  /-- The last phrase and where it was begun, if the production ends in one. -/
  last : Option Nat

/-- The phrases begun in a state. The root is begun in the first one. -/
def Graph.begun (g : Graph) (state : Nat) : List Phrase :=
  (if state = 0 then [.root] else []) ++
    ((g.arrows[state]?).getD []).filterMap fun (s, _) =>
      match s with | .phrase p => some p | .terminal _ => none

/-- The readings of all productions from all states in which their phrase is begun. -/
def Graph.readings (g : Graph) : List Reading :=
  (List.range g.arrows.size).flatMap fun state =>
    (g.begun state).flatMap fun p =>
      (productions.mapIdx fun number production => (number, production)).filterMap
        fun (number, production) =>
          if production.phrase = p then
            let states := g.trace state production.symbols
            some
              { source := cell state p
                stop := states.getLastD state
                production := number
                last :=
                  match production.symbols.getLast? with
                  | some (.phrase q) => (states.dropLast.getLast?).map (cell · q)
                  | _ => none }
          else none

/-- The terminals that directly follow a phrase begun in a state. The end follows the root. -/
def Graph.directFollow (g : Graph) (state : Nat) (p : Phrase) : Nat :=
  if state = 0 ∧ p = .root then terminalSet .endOfInput
  else ((g.after state (.phrase p)).map g.reads).getD 0

/-- The terminals that directly follow each phrase begun in each state. -/
def Graph.directFollows (g : Graph) : Array Nat :=
  (Array.range (g.arrows.size * Phrase.all.length)).map fun c =>
    g.directFollow (c / Phrase.all.length) (Phrase.all.getD (c % Phrase.all.length) .root)

/-- Passes on what follows the phrase of a reading to its last phrase. -/
def pass (follows : Array Nat) (r : Reading) : Array Nat :=
  match r.last with
  | some q => follows.setIfInBounds q (follows[q]?.getD 0 ||| follows[r.source]?.getD 0)
  | none => follows

/-- Passes on what follows until nothing changes, at most `rounds` times. -/
def spread (readings : List Reading) : (rounds : Nat) → Array Nat → Array Nat
  | 0, follows => follows
  | rounds + 1, follows =>
    let next := readings.foldl pass follows
    if next = follows then follows else spread readings rounds next

/-- The terminals that can follow each phrase begun in each state. Every round but the last makes
one of the sets a greater number. -/
def Graph.follows (g : Graph) : Array Nat :=
  spread g.readings (g.directFollows.size * Nat.pow 2 Terminal.all.length + 1) g.directFollows

/-- The terminals of a set. -/
def terminalsOf (set : Nat) : List Terminal :=
  Terminal.all.filter fun t => set &&& terminalSet t != 0

/-- The reductions of a state: productions read there with the terminals that may follow. -/
def reductions (readings : List Reading) (follows : Array Nat) (state : Nat) :
    List (Terminal × Action) :=
  (readings.filter (·.stop == state)).flatMap fun r =>
    (terminalsOf (follows[r.source]?.getD 0)).map fun t =>
      (t, if r.production = 0 then .accept else .reduce r.production)

/-- Actions without repetition of a terminal; the first one counts. -/
def firstActions : List (Terminal × Action) → List (Terminal × Action)
  | [] => []
  | (t, a) :: rest => (t, a) :: (firstActions rest).filter (·.1 != t)

/-- A state of the reader from its arrows and reductions. -/
def stateOf (closed : Nat) (arrows : List (Symbol × Nat)) (reduces : List (Terminal × Action)) :
    State where
  items := closed
  actions := firstActions
    ((arrows.filterMap fun (s, target) =>
        match s with | .terminal t => some (t, Action.shift target) | .phrase _ => none) ++ reduces)
  gotos := arrows.filterMap fun (s, target) =>
    match s with | .phrase p => some (p, target) | .terminal _ => none

/-- The states of the reader. -/
def build (g : Graph) : Array State :=
  let readings := g.readings
  let follows := g.follows
  (Array.range g.arrows.size).map fun state =>
    stateOf ((g.closed[state]?).getD 0) ((g.arrows[state]?).getD [])
      (reductions readings follows state)

end Automaton

/-- The states of the reader for the grammar; reading starts in the first one. -/
def automaton : Array State := Automaton.build Automaton.graph

/-- What the reader does in a state before a terminal. -/
def action? (states : Array State) (state : Nat) (t : Terminal) : Option Action :=
  (states[state]?).bind (·.actions.lookup t)

/-- The state after a phrase. -/
def goto? (states : Array State) (state : Nat) (p : Phrase) : Option Nat :=
  (states[state]?).bind (·.gotos.lookup p)

/-- The terminals that a state goes on with. -/
def acceptable (states : Array State) (state : Nat) : List Terminal :=
  ((states[state]?).map (·.actions.map (·.1))).getD []

end TailLoop.Grammar
