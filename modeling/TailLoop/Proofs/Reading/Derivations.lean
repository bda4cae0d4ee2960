import TailLoop.Proofs.Reading.Conflicts
import TailLoop.Proofs.Reading.Stack
import TailLoop.Proofs.Sameness

/-!
# Whatever the grammar derives is read

`Derives` says by rules which tokens the grammar derives from symbols, and what the rules of the
productions make of them. An `else` may not follow an `if` that lacks one. The reader takes in
whatever is derived from the root and makes the same of it (`accepts_of_derives`): by induction on
the derivation it reaches the end of every phrase on a stack that stands for the symbols before.

`Accepts` gives the steps of the reader one by one. Those before one token come to an end within the
number of reductions that the reader allows, as each makes the stack shorter or puts a looser phrase
on top of it (`Accepts.comes`).
-/

namespace TailLoop.Source

open Grammar Grammar.Automaton

/-- A token: its terminal and its text. -/
abbrev Token := Terminal × Text

/-- The terminal that a list of tokens starts with; it is the end of the input if there is none. -/
def lookahead (w : List Token) : Terminal := (w.head?.map (·.1)).getD .endOfInput

/-! ## Contents -/

/-- Two contents that are the same, locations aside. -/
inductive Agrees : Content → Content → Prop where
  | token {x} : Agrees (.token x) (.token x)
  | tree {t u} (h : t.ReadAs u) : Agrees (.tree t) (.tree u)
  | trees {ts us} (h : List.Forall₂ Tree.ReadAs ts us) :
    Agrees (.trees ts) (.trees us)

/-- Parts with the given contents. -/
def Agree (cs : List Content) (ps : Parts) : Prop :=
  List.Forall₂ (fun c part => Agrees c part.content) cs ps

/-- A rule makes a content from the given ones, wherever they were read. -/
def Makes (rule : Rule) (cs : List Content) (c : Content) : Prop :=
  ∀ file ps, file ≠ [] → Agree cs ps → ∃ c', content file rule ps = .ok c' ∧ Agrees c c'

/-! ## Derivations -/

/-- Tokens that the grammar derives from symbols, with the contents of these. The flag tells whether
the tokens end with an `if` to which an `else` after them would belong; none may follow then. -/
inductive Derives : List Symbol → List Token → List Content → Bool → Prop where
  | nil : Derives [] [] [] false
  | terminal {t x Xs w cs o} (rest : Derives Xs w cs o) :
    Derives (.terminal t :: Xs) ((t, x) :: w) (.token x :: cs) o
  | phrase {number : Nat} {p v ds o c Xs w cs o'} (of : productions[number]? = .some p)
      (some : p.symbols ≠ []) (body : Derives p.symbols v ds o) (makes : Makes p.rule ds c)
      (rest : Derives Xs w cs o') (apart : (o || isShortIf p) = true → lookahead w ≠ .else_) :
    Derives (.phrase p.phrase :: Xs) (v ++ w) (c :: cs)
      (if Xs.isEmpty then o || isShortIf p else o')

variable {Xs : List Symbol} {w rest : List Token} {cs : List Content} {isOpen : Bool}

/-- There is one content for each symbol. -/
theorem Derives.length_eq (h : Derives Xs w cs isOpen) : cs.length = Xs.length := by
  induction h with
  | nil => rfl
  | terminal _ ih => rw [List.length_cons, List.length_cons, ih]
  | phrase _ _ _ _ _ _ _ ih => rw [List.length_cons, List.length_cons, ih]

/-- No symbols are derived from no tokens. -/
theorem Derives.eq_nil (h : Derives [] w cs isOpen) : w = [] := by
  cases h
  rfl

/-- No symbol derives nothing. -/
theorem Derives.ne_nil (h : Derives Xs w cs isOpen) (some : Xs ≠ []) : w ≠ [] := by
  induction h with
  | nil => exact (some rfl).elim
  | terminal => exact List.cons_ne_nil _ _
  | phrase _ more _ _ _ _ ih => exact List.append_ne_nil_of_left_ne_nil (ih more) _

/-- The next token is that of the first text, if there is one. -/
theorem lookahead_append (h : w ≠ []) : lookahead (w ++ rest) = lookahead w := by
  cases w with
  | nil => exact (h rfl).elim
  | cons => rfl

/-- The first token of what is derived from a symbol that leads on leads on. -/
theorem Derives.first (h : Derives Xs w cs isOpen) {X : Symbol} {Ys : List Symbol}
    (first : Xs = X :: Ys) {q r : Nat} (led : Leads q X r) :
    ∃ s, Leads q (.terminal (lookahead w)) s := by
  -- By induction on the derivation: the first token is that of the first phrase that is not empty.
  induction h generalizing X Ys r with
  | nil => cases first
  | terminal =>
    cases first
    exact ⟨r, led⟩
  | @phrase number p v ds o c Xs w cs o' of more body makes rest apart ih =>
    cases first
    rw [lookahead_append (body.ne_nil more)]
    -- The production begins where its phrase can be read.
    obtain ⟨s, path⟩ := path_of_begun of (visited_of_leads led) (.inr ⟨r, led⟩)
    cases begins : p.symbols with
    | nil => exact (more begins).elim
    | cons Y Zs =>
      rw [begins] at path
      obtain ⟨u, step, -⟩ := path
      exact ih begins step

/-! ## Reading -/

variable (file : Text)

/-- The reader, with the given stack, comes to a tree that is the same as the given one by reading
the given tokens. -/
inductive Accepts (t : Tree) : List Frame → List Token → Prop where
  | accept {frame stack u} (act : action? automaton frame.state .endOfInput = some .accept)
      (done : frame.part.content = .tree u) (same : t.ReadAs u) :
    Accepts t (frame :: stack) []
  | shift {stack terminal text w state}
      (act : action? automaton (topState stack) terminal = some (.shift state))
      (next : ∀ place, Accepts t (⟨state, ⟨.token text, place⟩⟩ :: stack) w) :
    Accepts t stack ((terminal, text) :: w)
  | reduce {frames stack frame w} {number : Nat} {p}
      (act : action? automaton (topState (frames ++ stack)) (lookahead w) = .some (.reduce number))
      (of : productions[number]? = .some p) (some : p.symbols ≠ [])
      (path : Path (topState stack) p.symbols (topState (frames ++ stack)))
      (count : p.symbols.length = frames.length)
      (led : Leads (topState stack) (.phrase p.phrase) frame.state)
      (made : reduce automaton file p ⟨frames ++ stack, none⟩ = ⟨frame :: stack, none⟩)
      (next : Accepts t (frame :: stack) w) : Accepts t (frames ++ stack) w

variable {file}

/-- A production on top of the stack is reduced. -/
theorem reduce_frames {q : Nat} {p : Production} {frames stack : List Frame}
    {ds : List Content} {c : Content} (named : file ≠ []) (makes : Makes p.rule ds c)
    (count : p.symbols.length = frames.length) (agree : Agree ds (frames.reverse.map (·.part)))
    (led : Leads (topState stack) (.phrase p.phrase) q) :
    ∃ part, Agrees c part.content ∧
      reduce automaton file p ⟨frames ++ stack, none⟩ = ⟨⟨q, part⟩ :: stack, none⟩ := by
  have parts : ((frames.map (·.part)).reverse) = frames.reverse.map (·.part) := by
    rw [List.map_reverse]
  obtain ⟨c', made, same⟩ := makes file _ named agree
  obtain ⟨r, found⟩ := goto_of_leads led
  have unique : r = q := (leads_of_goto found).unique led
  refine ⟨⟨c', extent file (frames.reverse.map (·.part))⟩, same, ?_⟩
  rw [reduce]
  dsimp only
  rw [count, List.take_left, List.drop_left, parts, made, found, unique]
  rfl

/-- What is derived from symbols that lead on is read: if the reader can go on with what was made of
it, then it can go on with the tokens. The terminal after them has to be one that can follow. -/
theorem Derives.accepts {t : Tree} (named : file ≠ []) (h : Derives Xs w cs isOpen)
    {stack : List Frame} {r : Nat} (visited : Visited (topState stack))
    (path : Path (topState stack) Xs r)
    (follow : ∀ Ys A s, Xs = Ys ++ [.phrase A] → Path (topState stack) Ys s →
      CanFollow s A (lookahead rest))
    (closed : isOpen = true → lookahead rest ≠ .else_)
    (next : ∀ frames : List Frame, Agree cs (frames.reverse.map (·.part)) →
      topState (frames ++ stack) = r → Accepts file t (frames ++ stack) rest) :
    Accepts file t stack (w ++ rest) := by
  induction h generalizing stack r rest with
  | nil => exact next [] .nil path
  | @terminal a x Xs w cs o _ ih =>
    obtain ⟨s, led, path⟩ := path
    refine .shift (action_of_leads led) fun place => ?_
    have visited' : Visited (topState (⟨s, ⟨.token x, place⟩⟩ :: stack)) := led.visited
    refine ih visited' path ?_ closed ?_
    · rintro Ys A u rfl path'
      exact follow (.terminal a :: Ys) A u rfl ⟨s, led, path'⟩
    · intro frames agree top
      have more := next (frames ++ [⟨s, ⟨.token x, place⟩⟩])
      rw [List.append_assoc] at more
      refine more ?_ top
      rw [List.reverse_append, List.map_append]
      exact .cons .token agree
  | @phrase number p v ds o c Xs w cs o' of some body makes _ apart ihBody ihRest =>
    obtain ⟨q, led, path⟩ := path
    rename_i tail
    -- What comes after the phrase can follow it.
    have after : CanFollow (topState stack) p.phrase (lookahead (w ++ rest)) := by
      cases Xs with
      | nil =>
        rw [tail.eq_nil, List.nil_append]
        exact follow [] p.phrase _ rfl rfl
      | cons X Ys =>
        obtain ⟨u, step, -⟩ := path
        obtain ⟨s, read⟩ := tail.first rfl step
        rw [lookahead_append (tail.ne_nil (List.cons_ne_nil _ _))]
        exact .next led read
    have shut : (o || isShortIf p) = true → lookahead (w ++ rest) ≠ .else_ := by
      cases Xs with
      | nil =>
        rw [tail.eq_nil, List.nil_append]
        exact closed
      | cons X Ys =>
        rw [lookahead_append (tail.ne_nil (List.cons_ne_nil _ _))]
        exact apart
    have begun : Begun (topState stack) p.phrase := .inr ⟨q, led⟩
    obtain ⟨s, inner⟩ := path_of_begun of visited begun
    rw [List.append_assoc]
    refine ihBody visited inner ?_ (fun isOpen => shut (by rw [isOpen, Bool.true_or])) ?_
    · rintro Ys A u ends before
      rw [ends] at inner
      obtain ⟨u', before', r', led', -⟩ := inner.split
      have same : u = u' := before.unique before'
      subst same
      exact .last of ends visited begun before led' after
    · intro frames agree top
      have finishes : Finishes (topState (frames ++ stack)) number (lookahead (w ++ rest)) :=
        ⟨_, p, visited, of, begun, top ▸ inner, after⟩
      have action :=
        action_of_finished finishes of some fun short => shut (by rw [short, Bool.or_true])
      have number0 : number ≠ 0 := by
        rintro rfl
        cases of.symm.trans root_production
        exact not_leads_root led
      rw [if_neg number0] at action
      have count : p.symbols.length = frames.length := by
        have length := List.Forall₂.length_eq agree
        rw [List.length_map, List.length_reverse, body.length_eq] at length
        exact length
      obtain ⟨part, same, made⟩ := reduce_frames named makes count agree led
      refine .reduce action of some (top ▸ inner) count led made ?_
      have visited' : Visited (topState (⟨q, part⟩ :: stack)) := led.visited
      refine ihRest visited' path ?_ ?_ ?_
      · rintro Ys A u rfl path'
        exact follow (.phrase p.phrase :: Ys) A u rfl ⟨q, led, path'⟩
      · intro isOpen
        cases Xs with
        | nil =>
          cases tail
          cases isOpen
        | cons X Ys => exact closed isOpen
      · intro frames' agree' top'
        have more := next (frames' ++ [⟨q, part⟩])
        rw [List.append_assoc] at more
        refine more ?_ top'
        rw [List.reverse_append, List.map_append]
        exact .cons same agree'

/-! ## The first state -/

/-- Nothing leads back to the first state, where programs begin. -/
theorem not_leads_first {q : Nat} {X : Symbol} : ¬Leads q X 0 := by
  intro back
  obtain ⟨r, path⟩ := path_of_begun root_production visited_first (.inl ⟨rfl, rfl⟩)
  obtain ⟨s, led, -⟩ := path
  exact not_leads_program back led

/-- A program at the start of a text is accepted at its end. -/
theorem accepts_program : ∃ r, Leads 0 (.phrase .program) r ∧ CanFollow 0 .program .endOfInput ∧
    action? automaton r .endOfInput = some .accept := by
  have begun : Begun 0 .root := .inl ⟨rfl, rfl⟩
  obtain ⟨r, path⟩ := path_of_begun root_production visited_first begun
  obtain ⟨r', led, same⟩ := id path
  cases same
  have finishes : Finishes r 0 .endOfInput :=
    ⟨0, _, visited_first, root_production, begun, path, .root⟩
  have single : [Symbol.phrase .program] = [] ++ [.phrase .program] := rfl
  exact ⟨r, led, .last root_production single visited_first begun rfl led .root,
    action_of_finished finishes root_production (List.cons_ne_nil _ _) nofun⟩

/-- No symbol is read after the end. -/
theorem end_unread {q r : Nat} : ¬Leads q (.terminal .endOfInput) r := by
  intro led
  obtain ⟨kernel, hk, site, rest, inside⟩ := inside_of_leads led
  obtain ⟨p, of, -, symbols⟩ := production_of_site inside.mem
  refine (regular of).endOfInput ?_
  rw [symbols]
  exact List.mem_append_right _ List.mem_cons_self

/-- At the end of an empty text the program without statements is made. -/
theorem action_first : action? automaton 0 .endOfInput = some (.reduce 2) := by
  obtain ⟨r, led, follows, -⟩ := accepts_program
  have finishes : Finishes 0 2 .endOfInput :=
    ⟨0, _, visited_first, rfl, .inr ⟨r, led⟩, rfl, follows⟩
  refine action_of_finishes finishes (fun _ => end_unread) ?_
  rintro number' ⟨q, p, visited, of, begun, path, -⟩
  rcases List.eq_nil_or_concat p.symbols with empty | ⟨Xs, X, ends⟩
  · exact ((regular of).empty empty).2
  · rw [List.concat_eq_append] at ends
    rw [ends] at path
    obtain ⟨s, -, s', back, same⟩ := path.split
    cases same
    exact (not_leads_first back).elim

/-- What is derived from a program is accepted. -/
theorem accepts_of_derives {t : Tree} (named : file ≠ [])
    (h : Derives [.phrase .program] w [.tree t] isOpen) : Accepts file t [] w := by
  obtain ⟨r, led, follows, action⟩ := accepts_program
  have visited : Visited (topState []) := visited_first
  have path : Path (topState []) [.phrase .program] r := ⟨r, led, rfl⟩
  rw [← List.append_nil w]
  refine h.accepts named visited path ?_ ?_ ?_
  -- After the program comes the end of the input.
  · rintro Ys A s ends before
    cases Ys with
    | nil =>
      cases ends
      cases before
      exact follows
    | cons Y Ys =>
      have length := congrArg List.length ends
      simp only [List.length_cons, List.length_append, List.length_nil] at length
      omega
  · exact fun _ => nofun
  -- On the stack there is the frame of the program only.
  · intro frames agree top
    have length := List.Forall₂.length_eq agree
    rw [List.length_map, List.length_reverse] at length
    obtain ⟨frame, rfl⟩ := List.length_eq_one_iff.mp length.symm
    have stop : frame.state = r := top
    have agreed : Agrees (.tree t) frame.part.content := by
      cases agree with
      | cons same _ => exact same
    cases content : frame.part.content with
    | tree u =>
      rw [content] at agreed
      cases agreed with
      | tree same => exact .accept (stop ▸ action) content same
    | token x =>
      rw [content] at agreed
      cases agreed
    | trees us =>
      rw [content] at agreed
      cases agreed

/-! ## Reductions come to an end -/

/-- A bound for how many productions of one symbol can be reduced one after the other, beginning with
a symbol. -/
def height : Symbol → Nat
  | .terminal _ => 56
  | .phrase .root | .phrase .arguments => 0
  | .phrase .program => 1
  | .phrase .statements => 2
  | .phrase A => A.ctorIdx + 1

/-- The longest chain of phrases is bounded. -/
theorem height_le (X : Symbol) : height X ≤ 56 := by
  cases X with
  | terminal => exact Nat.le_refl _
  | phrase A => cases A <;> decide

/-- Whether a production of one symbol is of a phrase below the symbol. -/
def climbs (p : Production) : Bool :=
  match p.symbols with
  | [X] => Nat.blt (height (.phrase p.phrase)) (height X)
  | _ => true

/-- Every production of one phrase leads down. -/
theorem all_climb : productions.all climbs = true := by decide +kernel

/-- Every state but the first is led to by one symbol. -/
theorem symbol_of_leads {q q' r : Nat} {X Y : Symbol} (h : Leads q X r) (h' : Leads q' Y r) :
    X = Y := by
  obtain ⟨kernel, hk, s, rest, j, bit, found⟩ := inside_of_leads h
  have here := here_of_leads h ⟨kernel, hk, bit⟩ (getElem?_of_sites found) rfl
  have after := getElem?_of_sites (sites_succ found)
  obtain ⟨i, it, same, -, stands, next⟩ := before_of_here h' here after (Nat.succ_ne_zero _)
  cases same
  rw [getElem?_of_sites found, Option.some.injEq] at stands
  rw [← stands] at next
  exact Option.some.inj next

/-- A stack that is empty, or whose top was led to by a symbol. -/
def Rooted (stack : List Frame) (fuel : Nat) : Prop :=
  stack = [] ∧ 0 < fuel ∨ ∃ frame rest X, stack = frame :: rest ∧
    Leads (topState rest) X frame.state ∧
    stack.length * 57 + height X < fuel

/-- A stack with fuel left can take a step. -/
theorem Rooted.fuel {stack : List Frame} {fuel : Nat} (h : Rooted stack fuel) :
    ∃ n, fuel = n + 1 := by
  rcases h with ⟨-, positive⟩ | ⟨_, _, _, -, -, less⟩
  · exact ⟨fuel - 1, by omega⟩
  · exact ⟨fuel - 1, by omega⟩

/-- What the reader should come to before the next token: it takes in the token and goes on, or it
accepts if there is none. -/
def Comes (file : Text) (t : Tree) : List Token → Settled → Prop
  | [], .accept m => ∃ u, finish m = .ok u ∧ t.ReadAs u
  | (a, x) :: w, .shift state m => m.fault = none ∧ Leads (topState m.stack) (.terminal a) state ∧
    ∀ place, Accepts file t (⟨state, ⟨.token x, place⟩⟩ :: m.stack) w
  | _, _ => False

/-- A production of one symbol is of the symbol that led to the state. -/
theorem height_of_unit {number : Nat} {p : Production} {X : Symbol} {q q' r : Nat}
    (of : productions[number]? = some p) (unit : p.symbols.length = 1) (path : Path q p.symbols r)
    (led : Leads q' X r) : height (.phrase p.phrase) < height X := by
  obtain ⟨Y, only⟩ := List.length_eq_one_iff.mp unit
  rw [only] at path
  obtain ⟨s, step, rfl⟩ := path
  have same := symbol_of_leads led step
  subst same
  have known := List.all_eq_true.mp all_climb p (List.mem_of_getElem? of)
  rw [climbs, only] at known
  exact Nat.blt_eq.mp known

section Settling

variable {states : Array State} {terminal : Terminal} {m : Machine} {n : Nat}

/-- Accepting ends the reductions. -/
theorem settle_of_accept (act : action? states (topState m.stack) terminal = some .accept) :
    settle states file terminal (n + 1) m = .accept m := by
  rw [settle, act]

/-- Shifting ends the reductions. -/
theorem settle_of_shift {state : Nat}
    (act : action? states (topState m.stack) terminal = some (.shift state)) :
    settle states file terminal (n + 1) m = .shift state m := by
  rw [settle, act]

/-- A reduction is followed by the next. -/
theorem settle_of_reduce {number : Nat} {p : Production}
    (act : action? states (topState m.stack) terminal = some (.reduce number))
    (of : productions[number]? = some p) :
    settle states file terminal (n + 1) m = settle states file terminal n
      (reduce states file p m) := by
  rw [settle, act]
  dsimp only
  rw [of]

end Settling

/-- The reader reduces before the next token as long as it has to. -/
theorem Accepts.comes {t : Tree} {stack : List Frame} (h : Accepts file t stack w) {fuel : Nat}
    (rooted : Rooted stack fuel) :
    Comes file t w (settle automaton file (lookahead w) fuel ⟨stack, none⟩) := by
  induction h generalizing fuel with
  | @accept frame stack u act done same =>
    obtain ⟨n, rfl⟩ := rooted.fuel
    rw [settle_of_accept (by exact act)]
    obtain ⟨state, ⟨content, place⟩⟩ := frame
    cases done
    exact ⟨u, rfl, same⟩
  | @shift stack terminal x v state act next =>
    obtain ⟨n, rfl⟩ := rooted.fuel
    rw [settle_of_shift (by exact act)]
    exact ⟨rfl, allows_of_action act, next⟩
  | @reduce frames stack frame v number p act of more path count led made next ih =>
    obtain ⟨n, rfl⟩ := rooted.fuel
    rw [settle_of_reduce (by exact act) of, made]
    have pushed : frames ≠ [] := by
      rintro rfl
      exact more (List.length_eq_zero_iff.mp count)
    -- The stack is shorter than before, or a looser phrase is on top of it.
    have less : (frame :: stack).length * 57 + height (.phrase p.phrase) < n := by
      rcases rooted with ⟨empty, -⟩ | ⟨top, rest, X, same, led', less⟩
      · exact (List.append_ne_nil_of_left_ne_nil pushed _ empty).elim
      · rw [same] at path
        have bound := height_le (.phrase p.phrase)
        rw [List.length_append] at less
        rw [List.length_cons]
        rcases Nat.lt_or_ge 1 p.symbols.length with long | short
        · omega
        · have positive := List.length_pos_iff.mpr more
          have unit := height_of_unit of (by omega) path led'
          omega
    exact ih (.inr ⟨frame, stack, _, rfl, led, less⟩)

end TailLoop.Source
