import Mathlib.Data.List.Forall2
import TailLoop.Proofs.Reading.Automaton
import TailLoop.Source.Reader

/-!
# What holds of everything that is read

A property of contents, one for each symbol of the grammar, is kept by reading when every token has
the property of its terminal and every rule of a production gives a content with the property of
its phrase from parts with those of its symbols (`KeptByReading`). Then the program that a text is
read as has the property of programs (`KeptByReading.of_parse`).

The stack of the reader carries the proof. Its states are the stops of a walk through the automaton,
whose steps are the symbols that the parts were read as (`Stacked`). Where a production is reduced,
the items of the top state say that the last steps of the walk were its symbols (`Stacked.pop`).
-/

namespace TailLoop.Source

open Grammar Grammar.Automaton

/-- A property of the contents of symbols that the tokens of a text have and rules keep. -/
structure KeptByReading (source : Text) (M : Symbol → Content → Prop) : Prop where
  token : ∀ allowed t terminal n, t <:+ source → match? allowed t = some (terminal, n) →
    M (.terminal terminal) (.token (t.take n))
  phrase : ∀ p ∈ productions, ∀ file parts result,
    List.Forall₂ (fun X part => M X part.content) p.symbols parts →
    content file p.rule parts = .ok result → M (.phrase p.phrase) result

/-- The root is a program. -/
theorem root_production :
    productions[0]? = some (derive .root [Symbol.phrase .program] (.keep 0)) := rfl

/-- A stack whose states are led to one from the other by the symbols of its parts. -/
inductive Stacked (M : Symbol → Content → Prop) : List Frame → Prop where
  | nil : Stacked M []
  | cons {frame : Frame} {rest : List Frame} {X : Symbol}
      (led : Leads (topState rest) X frame.state) (fits : M X frame.part.content)
      (below : Stacked M rest) : Stacked M (frame :: rest)

/-- A machine that has not met a fault has such a stack. -/
def Machine.Sound (M : Symbol → Content → Prop) (m : Machine) : Prop :=
  m.fault = none → Stacked M m.stack

/-- A table of states whose actions the items of the states allow, and which knows where each phrase
leads from a state. -/
structure Faithful (states : Array State) : Prop where
  visited : ∀ {q t a}, action? states q t = some a → Visited q
  allows : ∀ {q t a}, action? states q t = some a → Allows q t a
  goto : ∀ {q p r}, Leads q (.phrase p) r → ∃ r', goto? states q p = some r' ∧
    Leads q (.phrase p) r'

/-- The automaton that is run is faithful to its states. -/
theorem faithful_automaton : Faithful automaton where
  visited := visited_of_action
  allows := allows_of_action
  goto led := by
    obtain ⟨r, goes⟩ := goto_of_leads led
    exact ⟨r, goes, leads_of_goto goes⟩

variable {M : Symbol → Content → Prop} {stack : List Frame} {states : Array State}
  {file source : Text} {t : Terminal}

/-- The top of a stack was reached. -/
theorem Stacked.reached (h : Stacked M stack) : Reached (topState stack) := by
  cases h with
  | nil => exact .inl rfl
  | cons led fits below => exact .inr ⟨_, _, led⟩

/-- The state below some symbols of a stack was visited if the state above them was. -/
theorem Stacked.visited_drop (h : Stacked M stack) (i : Nat) (top : Visited (topState stack)) :
    Visited (topState (stack.drop i)) := by
  induction h generalizing i with
  | nil => rwa [List.drop_nil]
  | cons led fits below ih =>
    cases i with
    | zero => exact top
    | succ i => exact ih i (visited_of_leads led)

/-- The parts of the symbols that an item has read are the last ones on the stack, and the state
below them begins the production of the item. -/
theorem Stacked.pop {i k number : Nat} {next : Option Symbol} {p : Production}
    (h : Stacked M stack) (here : Here (topState stack) k)
    (found : items[k]? = some ⟨number, i, next⟩) (of : productions[number]? = some p) :
    List.Forall₂ (fun X part => M X part.content) (p.symbols.take i)
        ((stack.take i).map (·.part)).reverse ∧
      Stacked M (stack.drop i) ∧
      ∃ j, Here (topState (stack.drop i)) j ∧ items[j]? = some ⟨number, 0, p.symbols[0]?⟩ := by
  induction i generalizing stack k next with
  | zero =>
    obtain ⟨p', of', describes⟩ := describes_item found
    cases of.symm.trans of'
    refine ⟨by simp, h, k, here, ?_⟩
    rw [found, ← describes.next]
  | succ i ih =>
    cases h with
    | nil => cases read_of_first here found
    | @cons frame rest X led fits below =>
      obtain ⟨j, it, rfl, here', found', before⟩ :=
        before_of_here led here found (Nat.succ_ne_zero i)
      -- The item before stands before the symbol of the last part.
      obtain ⟨p', of', describes⟩ := describes_item found'
      have after := describes.after (by simp [before])
      rw [found] at after
      simp only [Option.some.injEq, Item.mk.injEq, Nat.add_right_cancel_iff] at after
      obtain ⟨rfl, rfl, -⟩ := after
      cases of.symm.trans of'
      obtain ⟨fitting, deeper, start⟩ := ih below here' found'
      refine ⟨?_, deeper, start⟩
      have symbol : p.symbols[it.read]? = some X := describes.next ▸ before
      rw [List.take_add_one, symbol, List.take_succ_cons, List.map_cons, List.reverse_cons]
      exact List.rel_append fitting (.cons fits .nil)

/-- A reduction that the table asks for keeps the stack sound. -/
theorem Machine.Sound.reduce (kept : KeptByReading source M) (faithful : Faithful states)
    {m : Machine} (h : m.Sound M) {number : Nat} {p : Production}
    (act : action? states (topState m.stack) t = some (.reduce number))
    (of : productions[number]? = some p) : (reduce states file p m).Sound M := by
  obtain ⟨inner, p', k, of', here, found⟩ := faithful.allows act
  cases of.symm.trans of'
  intro clear
  unfold Source.reduce at clear ⊢
  dsimp only at clear ⊢
  split at clear
  · rename_i result made
    obtain ⟨fitting, below, j, begun, start⟩ := (h clear).pop here found of
    rw [List.take_length] at fitting
    have fits := kept.phrase p (List.mem_of_getElem? of) file _ result fitting made
    -- The state below begins the production, so its phrase leads on from there.
    obtain ⟨i, it, stands, known, next⟩ := begun_of_here below.reached begun start of inner
    have visited := (h clear).visited_drop p.symbols.length (faithful.visited act)
    obtain ⟨r, led⟩ := leads_of_here visited stands known next
    obtain ⟨r', goes, led'⟩ := faithful.goto led
    refine .cons (X := .phrase p.phrase) ?_ fits below
    rw [goes, Option.getD_some]
    exact led'
  · rw [Option.or_eq_none_iff] at clear
    cases clear.2

/-- What reducing before a terminal comes to: the machine is still sound, a terminal that is taken
leads on, and a program is accepted where the table says so. -/
def Settled.Sound (M : Symbol → Content → Prop) (states : Array State) (t : Terminal) :
    Settled → Prop
  | .shift state m => m.Sound M ∧ Leads (topState m.stack) (.terminal t) state
  | .accept m => m.Sound M ∧ action? states (topState m.stack) t = some .accept
  | .stuck _ => True

/-- Reducing before a terminal keeps the stack sound. -/
theorem Machine.Sound.settle (kept : KeptByReading source M) (faithful : Faithful states)
    (file : Text) (t : Terminal) (fuel : Nat) {m : Machine} (h : m.Sound M) :
    (settle states file t fuel m).Sound M states t := by
  -- By induction on the fuel: only reductions are settled, each of which keeps the stack sound.
  induction fuel generalizing m with
  | zero => trivial
  | succ fuel ih =>
    rw [Source.settle]
    split
    · rename_i state act
      exact ⟨h, faithful.allows act⟩
    · rename_i act
      exact ⟨h, act⟩
    · rename_i number act
      split
      · rename_i p of
        exact ih (h.reduce kept faithful act of)
      · trivial
    · trivial

/-- A finished reading ends with a part that was read as a program. -/
theorem Machine.Sound.finish (faithful : Faithful states) {m : Machine} {u : Tree}
    (h : m.Sound M) (act : action? states (topState m.stack) t = some .accept)
    (done : finish m = .ok u) :
    ∃ c, M (.phrase .program) c ∧ ∀ u', c = .tree u' → u = u' := by
  obtain ⟨p, k, of, here, found⟩ := faithful.allows act
  cases Option.some.inj ((root_production).symm.trans of)
  obtain ⟨stack, fault⟩ := m
  -- A fault ends the reading without a tree.
  cases fault with
  | some e => cases done
  | none =>
    obtain ⟨fitting, -, -⟩ := (h rfl).pop here found of
    cases stack with
    | nil => cases fitting
    | cons frame rest =>
      cases fitting with
      | cons fits _ =>
        refine ⟨frame.part.content, fits, ?_⟩
        rintro u' same
        obtain ⟨state, ⟨c, l⟩⟩ := frame
        cases same
        cases done
        rfl

/-- Reading that ends well gives a program. -/
theorem Machine.Sound.close (kept : KeptByReading source M) (faithful : Faithful states) {m : Machine}
    {last : Position} {u : Tree} (h : m.Sound M) (done : close states file last m = .ok u) :
    ∃ c, M (.phrase .program) c ∧ ∀ u', c = .tree u' → u = u' := by
  unfold Source.close at done
  have sound := h.settle kept faithful file .endOfInput (settleFuel m)
  split at done
  · rename_i m' settled
    rw [settled] at sound
    exact sound.1.finish faithful sound.2 done
  · cases done
  · cases done

/-- Reading on keeps the stack sound, so that what is accepted is kept. -/
theorem Machine.Sound.readFrom (kept : KeptByReading source M) (faithful : Faithful states)
    (fuel : Nat) {position last : Position} {rest : Text} {m : Machine} {u : Tree}
    (inside : rest <:+ source) (h : m.Sound M)
    (done : readFrom states file fuel position last rest m = .ok u) :
    ∃ c, M (.phrase .program) c ∧ ∀ u', c = .tree u' → u = u' := by
  -- By induction on the fuel, along the reading of the text.
  induction fuel generalizing position last rest m with
  | zero => exact h.close kept faithful done
  | succ fuel ih =>
    cases rest with
    | nil => exact h.close kept faithful done
    | cons c rest =>
      rw [Source.readFrom] at done
      dsimp only at done
      split at done
      · exact ih ((List.drop_suffix _ _).trans inside) h done
      · split at done
        · cases done
        -- A token is kept by the reading, so that it may be put on the stack.
        · rename_i terminal n matched
          have sound := h.settle kept faithful file terminal (settleFuel m)
          split at done
          · rename_i state m' settled
            rw [settled] at sound
            refine ih ((List.drop_suffix _ _).trans inside) (fun clear => ?_) done
            exact .cons sound.2 (kept.token _ _ _ _ inside matched) (sound.1 clear)
          · cases done
          · cases done

/-- A text that is a program is read as a content of programs. -/
theorem KeptByReading.of_parse (kept : KeptByReading source M) {u : Tree}
    (h : parse file source = .ok u) :
    ∃ c, M (.phrase .program) c ∧ ∀ u', c = .tree u' → u = u' :=
  Machine.Sound.readFrom kept faithful_automaton _ (List.suffix_refl source) (fun _ => .nil) h

end TailLoop.Source
