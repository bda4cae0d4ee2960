import TailLoop.Proofs.Reading.Derivations

/-!
# Texts of tokens

A text is read token by token. Which terminals are tried depends on the state, but a text often starts
with one token whatever else is tried (`Cuts`), and a text of such tokens, with white space between
them, is a list of tokens of its own (`Lexes`). If the grammar derives the list from a program, then
the reader comes to what was derived (`parse_of_lexes`).
-/

namespace TailLoop.Source

open Grammar Grammar.Automaton

/-- A text starts with a token of a terminal, whatever other terminals are tried. -/
structure Cuts (a : Terminal) (x rest : Text) : Prop where
  more : x ≠ []
  solid : skipLength? (x ++ rest) = none
  cut : ∀ allowed, a ∈ allowed → match? allowed (x ++ rest) = some (a, x.length)

/-- A text of tokens with white space between them. -/
inductive Lexes : Text → List Token → Prop where
  | nil : Lexes [] []
  | space {c rest w} (space : isSpace c = true) (h : Lexes (rest.dropWhile isSpace) w) :
    Lexes (c :: rest) w
  | token {a x rest w} (cuts : Cuts a x rest) (h : Lexes rest w) : Lexes (x ++ rest) ((a, x) :: w)

attribute [local irreducible] automaton

variable {file : Text} {t : Tree} {stack : List Frame} {w : List Token}

/-- The fuel of a machine depends on the height of its stack alone. -/
theorem settleFuel_eq (stack : List Frame) (fault : Option Error) :
    settleFuel ⟨stack, fault⟩ = (stack.length + 2) * 57 := rfl

/-- A token that has been taken in is on top of the stack. -/
theorem rooted_shift {state : Nat} {a : Terminal} {part : Part}
    (led : Leads (topState stack) (.terminal a) state) (fault : Option Error) :
    Rooted (⟨state, part⟩ :: stack) (settleFuel ⟨⟨state, part⟩ :: stack, fault⟩) := by
  refine .inr ⟨_, _, _, rfl, led, ?_⟩
  have bound := height_le (.terminal a)
  rw [settleFuel_eq, List.length_cons]
  omega

/-- The terminal before which something is done is tried. -/
theorem mem_acceptable {state : Nat} {a : Terminal} {action : Action}
    (h : action? automaton state a = some action) : a ∈ acceptable automaton state := by
  unfold action? at h
  unfold acceptable
  cases found : automaton[state]? with
  | none => rw [found] at h; cases h
  | some s =>
    rw [found] at h
    exact List.mem_map.mpr ⟨(a, action), mem_of_lookup h, rfl⟩

/-- A terminal that is accepted is one of those that are tried. -/
theorem Accepts.mem_acceptable {a : Terminal} {x : Text}
    (h : Accepts file t stack ((a, x) :: w)) : a ∈ acceptable automaton (topState stack) := by
  cases h with
  | shift act => exact Source.mem_acceptable act
  | reduce act => exact Source.mem_acceptable act

/-- Blanks are dropped. -/
theorem drop_space (rest : Text) :
    rest.drop (rest.takeWhile isSpace).length = rest.dropWhile isSpace := by
  induction rest with
  | nil => rfl
  | cons c rest ih =>
    rw [List.takeWhile_cons, List.dropWhile_cons]
    split
    · exact ih
    · rfl

section Steps

variable {states : Array State} (position : Position) {last : Position} {n : Nat} {c : Nat}
  {more : Text} {m : Machine}

/-- Reading ends where the text does. -/
theorem readFrom_nil : readFrom states file n position last [] m = close states file last m := by
  cases n with
  | zero => rw [readFrom]
  | succ n => rw [readFrom]; exact fun h => by cases h

/-- Blanks are skipped. -/
theorem readFrom_space (space : isSpace c = true) :
    ∃ position', readFrom states file (n + 1) position last (c :: more) m =
      readFrom states file n position' last (more.dropWhile isSpace) m := by
  have skip : skipLength? (c :: more) = some (1 + (more.takeWhile isSpace).length) := by
    simp only [skipLength?, space, if_true]
  have left : (c :: more).drop (1 + (more.takeWhile isSpace).length) = more.dropWhile isSpace := by
    rw [Nat.add_comm, List.drop_succ_cons, drop_space]
  refine ⟨position.advance ((c :: more).take (1 + (more.takeWhile isSpace).length)), ?_⟩
  rw [readFrom]
  simp only [skip, left]

/-- A token is cut off and taken in. -/
theorem readFrom_token {a : Terminal} {x rest : Text} {state : Nat} {m' : Machine}
    (cuts : Cuts a x rest) (tried : a ∈ acceptable states (topState m.stack))
    (settled : settle states file a (settleFuel m) m = .shift state m') :
    ∃ stop place, readFrom states file (n + 1) position last (x ++ rest) m =
      readFrom states file n stop position rest
        ⟨⟨state, ⟨.token x, place⟩⟩ :: m'.stack, m'.fault⟩ := by
  obtain ⟨c, more, same⟩ :=
    List.exists_cons_of_ne_nil (List.append_ne_nil_of_left_ne_nil cuts.more rest)
  have cut := cuts.cut _ tried
  have solid := cuts.solid
  have taken : (x ++ rest).take x.length = x := List.take_left
  have left : (x ++ rest).drop x.length = rest := List.drop_left
  rw [same] at cut solid taken left
  refine ⟨position.advance x, stretch file position (position.advance x), ?_⟩
  rw [same, readFrom]
  simp only [solid, cut, taken, left, settled]

end Steps

/-- The reader accepts a text of tokens that it can go on with. -/
theorem Lexes.reads {text : Text} (lexed : Lexes text w) (accepts : Accepts file t stack w)
    (rooted : Rooted stack (settleFuel ⟨stack, none⟩)) {fuel : Nat} (enough : text.length < fuel)
    (position last : Position) :
    ∃ u, readFrom automaton file fuel position last text ⟨stack, none⟩ = .ok u ∧
      t.ReadAs u := by
  -- By induction on how the text is cut into tokens.
  induction lexed generalizing stack fuel position last with
  -- At the end the machine accepts what it has on its stack.
  | nil =>
    have comes := accepts.comes rooted
    rw [readFrom_nil, close]
    change Comes file t [] (settle automaton file .endOfInput _ _) at comes
    generalize settle automaton file .endOfInput _ _ = settled at comes ⊢
    cases settled with
    | accept m => exact comes
    | _ => exact comes.elim
  -- White space is skipped, and the machine is as before.
  | @space c rest w space _ ih =>
    obtain ⟨n, rfl⟩ : ∃ n, fuel = n + 1 := ⟨fuel - 1, by omega⟩
    obtain ⟨position', next⟩ := readFrom_space position space
    rw [next]
    refine ih accepts rooted ?_ _ _
    have shorter := (List.dropWhile_suffix isSpace (l := rest)).length_le
    rw [List.length_cons] at enough
    omega
  -- The machine is settled for the token, and shifts it.
  | @token a x rest w cuts _ ih =>
    obtain ⟨n, rfl⟩ : ∃ n, fuel = n + 1 := ⟨fuel - 1, by omega⟩
    have comes := accepts.comes rooted
    change Comes file t ((a, x) :: w) (settle automaton file a _ _) at comes
    cases settled : settle automaton file a (settleFuel ⟨stack, none⟩) ⟨stack, none⟩ with
    | shift state m =>
      rw [settled] at comes
      obtain ⟨fine, led, next⟩ := comes
      obtain ⟨stop, place, read⟩ :=
        readFrom_token position cuts accepts.mem_acceptable settled
      rw [read, fine]
      refine ih (next _) (rooted_shift led none) ?_ _ _
      have positive := List.length_pos_iff.mpr cuts.more
      rw [List.length_append] at enough
      omega
    | _ =>
      rw [settled] at comes
      exact comes.elim

/-- A text of tokens that the grammar derives from a program is read as what was derived. -/
theorem parse_of_lexes {text : Text} {isOpen : Bool} (named : file ≠ []) (lexed : Lexes text w)
    (derived : Derives [.phrase .program] w [.tree t] isOpen) :
    ∃ u, parse file text = .ok u ∧ t.ReadAs u :=
  lexed.reads (accepts_of_derives named derived) (.inl ⟨rfl, by decide⟩) (Nat.lt_succ_self _) _ _

end TailLoop.Source
