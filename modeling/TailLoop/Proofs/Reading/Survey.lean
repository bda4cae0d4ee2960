import TailLoop.Proofs.Reading.Sites

/-!
# A survey of the grammar

That no state of the reader has to choose between two things to do is shown without its states, of
which there are too many for the kernel. The survey goes through pairs of sites instead. It tells
from the productions alone which sites can meet and which terminals can follow, in as many rounds as
give complete sets, and finds no two sites that meet and clash (`survey`). What the sets mean is
proved in `Conflicts.lean`.
-/

namespace TailLoop.Grammar.Automaton

/-! ## Sets of phrases and terminals

The digits of a number say which phrases or terminals are in a set. The numbers are small and no
lists of numbers are kept, so that the kernel can compute with them. -/

/-- The union of the sets of those of the listed phrases that are in a set. -/
def unionOver (f : Phrase → Nat) (set : Nat) : List Phrase → Nat
  | [] => 0
  | B :: rest =>
    bif set.testBit B.ctorIdx then f B ||| unionOver f set rest else unionOver f set rest

/-- The phrases with which a production of a phrase begins. -/
def leftOf (A : Phrase) : List Production → Nat
  | [] => 0
  | p :: rest =>
    match p.symbols with
    | .phrase B :: _ =>
      bif p.phrase.ctorIdx.beq A.ctorIdx then 1 <<< B.ctorIdx ||| leftOf A rest else leftOf A rest
    | _ => leftOf A rest

/-- The phrases that a phrase reaches in at most `2 ^ d` steps. -/
def reach : (d : Nat) → Phrase → Nat
  | 0, A => 1 <<< A.ctorIdx ||| leftOf A productions
  | d + 1, A => unionOver (reach d) (reach d A) Phrase.all

/-- The phrases that are begun wherever a phrase is. -/
def reachable (A : Phrase) : Nat := reach 5 A

/-- The terminals with which a production of a phrase begins. -/
def directFirst (A : Phrase) : List Production → Nat
  | [] => 0
  | p :: rest =>
    match p.symbols with
    | .terminal t :: _ =>
      bif p.phrase.ctorIdx.beq A.ctorIdx then 1 <<< t.ctorIdx ||| directFirst A rest
      else directFirst A rest
    | _ => directFirst A rest

/-- The terminals with which a symbol can begin. -/
def firstOf : Symbol → Nat
  | .terminal t => 1 <<< t.ctorIdx
  | .phrase A => unionOver (directFirst · productions) (reachable A) Phrase.all

/-! ## Looking back from a site

Whether two sites can meet is found by going back from both of them, as long as they have read the
same symbols. Where one of them is at its start, its phrase has to be begun in a state of the other.
-/

/-- A symbol as a number. -/
def code : Symbol → Nat
  | .terminal t => t.ctorIdx
  | .phrase A => 100 + A.ctorIdx

/-- The sites after a symbol, each without the symbol. -/
def sitesAfter (X : Symbol) : List (Site × List Symbol) → List (Site × List Symbol)
  | [] => []
  | (.read s Y, rest) :: more =>
    bif (code X).beq (code Y) then (s, rest) :: sitesAfter X more else sitesAfter X more
  | _ :: more => sitesAfter X more

/-- The sites after a symbol and before a phrase. -/
def openers : List (Site × List Symbol) → List (Site × Symbol × Phrase)
  | [] => []
  | (.read s X, .phrase A :: _) :: rest => (s, X, A) :: openers rest
  | _ :: rest => openers rest

/-- The phrases that are begun together with a phrase, if `begins` tells which are begun in the
states of a site. -/
def begunWith (begins : Site → Symbol → Nat) (A : Phrase) : List (Site × Symbol × Phrase) → Nat
  | [] => bif (reachable .root).testBit A.ctorIdx then reachable .root else 0
  | (s, X, B) :: rest =>
    bif (reachable B).testBit A.ctorIdx then begins s X ||| begunWith begins A rest
    else begunWith begins A rest

/-- Whether two sites can meet, if `begins` tells which phrases are begun in the states of a
site. -/
def meetsBy (begins : Site → Symbol → Nat) : Site → Site → Bool
  | .start _ A, .start _ B => (begunWith begins A (openers sites)).testBit B.ctorIdx
  | .start _ A, .read s X => (begins s X).testBit A.ctorIdx
  | .read s X, .start _ A => (begins s X).testBit A.ctorIdx
  | .read s X, .read s' X' => bif (code X).beq (code X') then meetsBy begins s s' else false

/-- The phrases that the sites with a property open. -/
def openedBy (meets : Site → Bool) : List (Site × List Symbol) → Nat
  | [] => 0
  | (s, .phrase A :: _) :: rest =>
    bif meets s then reachable A ||| openedBy meets rest else openedBy meets rest
  | _ :: rest => openedBy meets rest

/-- A set of all phrases. -/
def everyPhrase : Nat := 0xffffffffffffff

/-- The phrases that are begun in the states of the site after a symbol, by looking back through at
most `d` productions. -/
def begins : (d : Nat) → Site → Symbol → Nat
  | 0, _, _ => everyPhrase
  | d + 1, s, X => openedBy (meetsBy (begins d) s) (sitesAfter X sites)

/-- Whether two sites can meet, by looking back through at most `d` productions. -/
def meets (d : Nat) : Site → Site → Bool := meetsBy (begins d)

/-! ## What follows a phrase -/

/-- The sites before a phrase. -/
def sitesBefore (A : Phrase) : List (Site × List Symbol) → List (Site × List Symbol)
  | [] => []
  | (s, .phrase B :: rest) :: more =>
    bif A.ctorIdx.beq B.ctorIdx then (s, .phrase B :: rest) :: sitesBefore A more
    else sitesBefore A more
  | _ :: more => sitesBefore A more

/-- Whether a site can be in a state where a statement, and with it a label, can begin. -/
def besideLabel (s : Site) : Bool := meets 1 (.start 0 .labeledStatement) s

/-- The terminals that follow the phrase after a site: those with which the next symbol begins, or
those that follow the phrase of the site. -/
def followAt (marked : Bool) (follow : Bool → Phrase → Nat) (s : Site) : List Symbol → Nat
  | _ :: Y :: _ => firstOf Y
  | _ =>
    match s with
    | .start _ A => follow marked A
    | .read s _ => follow false s.phrase

/-- The terminals that follow the phrase after one of the sites. With a mark, only sites beside a
label count. -/
def followAfter (marked : Bool) (follow : Bool → Phrase → Nat) : List (Site × List Symbol) → Nat
  | [] => 0
  | (s, rest) :: more =>
    bif !marked || besideLabel s then
      followAt marked follow s rest ||| followAfter marked follow more
    else followAfter marked follow more

/-- What follows the root. -/
def followRoot (A : Phrase) : Nat :=
  bif A.ctorIdx.beq (Phrase.ctorIdx .root) then 1 <<< Terminal.ctorIdx .endOfInput else 0

/-- The terminals that follow a phrase, found in `d` rounds. With a mark, those that follow it where
a label can begin. -/
def follow : (d : Nat) → (marked : Bool) → Phrase → Nat
  | 0, _, A => followRoot A
  | d + 1, marked, A =>
    followAfter marked (follow d) (sitesBefore A sites) ||| followRoot A

/-- The terminals that can follow a phrase. -/
def followOf (marked : Bool) (A : Phrase) : Nat := follow 18 marked A

/-! ## The survey -/

/-- The two places where a terminal can be read although a production can also be reduced before
it: an `else` after an `if` without one, and a colon after a name. -/
def excepted (s s' : Site) (Y : Symbol) : Bool :=
  (code Y).beq (code (.terminal .else_)) &&
      (s.phrase.ctorIdx.beq (Phrase.ctorIdx .ifStatement) && s.count.beq 4) ||
    (code Y).beq (code (.terminal .colon)) &&
      (s.count.beq 0 && (s.phrase.ctorIdx.beq (Phrase.ctorIdx .primary) &&
        s'.phrase.ctorIdx.beq (Phrase.ctorIdx .labeledStatement)))

/-- The terminals before which a production that ends with a symbol after the first site is reduced
while something else is done at the second site, after the same symbol. -/
def clash (s s' : Site) : List Symbol → Nat
  | [] =>
    bif s.number.beq s'.number then 0 else followOf false s.phrase &&& followOf false s'.phrase
  | Y :: _ => bif excepted s s' Y then 0 else firstOf Y &&& followOf false s.phrase

/-- Whether a production that is read to its end meets nothing that clashes with it. -/
def conflictFree : Site × List Symbol → Bool
  | (.read s X, []) =>
    (sitesAfter X sites).all fun e => (clash s e.1 e.2).beq 0 || !meets 3 s e.1
  | _ => true

/-- Whether enough rounds were taken to find what a phrase reaches and what follows it. -/
def settled (A : Phrase) : Bool :=
  (unionOver (reach 0) (reachable A) Phrase.all).beq (reachable A) &&
    ((follow 19 false A).beq (followOf false A) && (follow 19 true A).beq (followOf true A))

/-- What the survey of the grammar finds: the sets are complete, no colon follows a name where a
label can begin, and there are no conflicts. -/
def surveyed : Bool :=
  Phrase.all.all settled &&
    (!(followOf true .primary).testBit (Terminal.ctorIdx .colon) && sites.all conflictFree)

theorem survey : surveyed = true := by decide +kernel

end TailLoop.Grammar.Automaton
