import TailLoop.Print
import TailLoop.Proofs.Reading.Lexemes
import TailLoop.Proofs.Reading.Rules

/-!
# Texts of phrases

A text spells symbols when its tokens are derived from them. Texts are put together like the symbols
(`Spells.append`), and a production makes a phrase of its symbols (`Spells.make`).
-/

namespace TailLoop.Source

open Grammar Grammar.Automaton
open Text (isNameStart isNamePart)

/-! ## Tokens of a text -/

/-- A text is read as tokens before anything that starts with a code point which may follow. -/
def Reads (follow : Nat → Bool) (x : Text) (w : List Token) : Prop :=
  ∀ rest v, (∀ c ∈ rest.head?, follow c = true) → Lexes rest v → Lexes (x ++ rest) (w ++ v)

/-- A text may follow another, and so may what comes after it if it is empty. -/
def Meets (ends follow : Nat → Bool) (y : Text) : Prop :=
  ∀ rest : Text, (∀ c ∈ rest.head?, follow c = true) → ∀ c ∈ (y ++ rest).head?, ends c = true

/-- Anything may follow. -/
def anything (_ : Nat) : Bool := true

/-- What may follow a name. -/
def endsName (c : Nat) : Bool := !isNamePart c

/-- The code points that follow an expression in a printed program: a blank, a bracket, a comma and
a semicolon. -/
def delimits (c : Nat) : Bool := [32, 40, 41, 44, 59, 91, 93].contains c

variable {ends follow : Nat → Bool} {x y : Text} {v w : List Token} {Xs Ys : List Symbol}
  {cs ds : List Content} {c : Content} {isOpen isOpen' : Bool}

/-- A text meets an end by its first code point. -/
theorem meets_head (h : y.head?.any ends = true) : Meets ends follow y := by
  cases y with
  | nil => cases h
  | cons d y =>
    rintro rest - c ⟨⟩
    exact h

/-- Everything meets what may be followed by anything. -/
theorem meets_anything : Meets anything follow y := fun _ _ _ _ => rfl

/-- A delimiter ends a name. -/
theorem endsName_of_delimits {c : Nat} (h : delimits c = true) : endsName c = true := by
  have known : ∀ c ∈ [32, 40, 41, 44, 59, 91, 93], endsName c = true := by decide
  exact known c (List.contains_iff_mem.mp h)

/-- A delimiter ends a number. -/
theorem endsNumber_of_delimits {c : Nat} (h : delimits c = true) : endsNumber c = true := by
  have known : ∀ c ∈ [32, 40, 41, 44, 59, 91, 93], endsNumber c = true := by decide
  exact known c (List.contains_iff_mem.mp h)

/-- Two texts are read one after the other, where the second meets the end of the first. -/
theorem Reads.append (first : Reads ends x v) (last : Reads follow y w)
    (meets : Meets ends follow y) : Reads follow (x ++ y) (v ++ w) := by
  intro rest u next lexed
  rw [List.append_assoc, List.append_assoc]
  exact first _ _ (meets rest next) (last _ _ next lexed)

/-- A text that is read before more is read before less. -/
theorem Reads.mono (h : Reads ends x w) (weaker : ∀ c, follow c = true → ends c = true) :
    Reads follow x w :=
  fun rest v next lexed => h rest v (fun c hc => weaker c (next c hc)) lexed

/-- A token that is cut off is read. -/
theorem reads_token {a : Terminal}
    (cuts : ∀ rest : Text, (∀ c ∈ rest.head?, follow c = true) → Cuts a x rest) :
    Reads follow x [(a, x)] :=
  fun rest _ next lexed => .token (cuts rest next) lexed

/-- Blanks are read as nothing. -/
theorem reads_spaces (all : ∀ c ∈ x, isSpace c = true) : Reads anything x [] :=
  fun _ _ _ lexed => lexed.spaces all

/-! ## Derivations put together -/

/-- Two derivations in a row, if an open condition is not followed by `else`. -/
theorem Derives.append (first : Derives Xs v cs isOpen) (last : Derives Ys w ds isOpen')
    (more : Ys ≠ []) (apart : isOpen = true → lookahead w ≠ .else_) :
    Derives (Xs ++ Ys) (v ++ w) (cs ++ ds) isOpen' := by
  -- By induction on the first derivation, at whose end the second one goes on.
  induction first with
  | nil => exact last
  | terminal _ ih => exact .terminal (ih apart)
  | @phrase number p v bs o d Xs w' cs isOpen of some body makes tail apart' _ ih =>
    rw [List.append_assoc, List.cons_append, List.cons_append]
    cases Xs with
    -- Only if the rest is empty, the next token comes from the second derivation.
    | nil =>
      cases tail
      have whole : Derives (.phrase p.phrase :: Ys) (v ++ w) (d :: ds)
          (if Ys.isEmpty then o || isShortIf p else isOpen') := .phrase of some body makes last apart
      rwa [if_neg (by rwa [List.isEmpty_iff])] at whole
    | cons X Xs =>
      have next : lookahead (w' ++ w) = lookahead w' :=
        lookahead_append (tail.ne_nil (List.cons_ne_nil _ _))
      exact .phrase of some body makes (ih apart) (by rwa [next])

/-- No phrase starts with `else`. -/
theorem lookahead_ne_else (h : Derives Xs w cs isOpen) (some : Xs ≠ [])
    (other : Xs.head? ≠ .some (.terminal .else_)) : lookahead w ≠ .else_ := by
  have starts : ∀ p ∈ productions, p.symbols.head? ≠ .some (.terminal .else_) := by decide +kernel
  induction h with
  | nil => exact (some rfl).elim
  | @terminal a =>
    rintro rfl
    exact other rfl
  | phrase of more body _ _ _ ih =>
    rw [lookahead_append (body.ne_nil more)]
    exact ih more (starts _ (List.mem_of_getElem? of))

/-! ## Texts of symbols -/

/-- A text spells symbols with the given contents, before anything that may follow. The flag tells
whether an `else` after the text would belong to an `if` at its end. -/
def Spells (follow : Nat → Bool) (Xs : List Symbol) (x : Text) (cs : List Content) (isOpen : Bool) :
    Prop :=
  ∃ w, Reads follow x w ∧ Derives Xs w cs isOpen

/-- Nothing spells no symbols. -/
theorem spells_nil : Spells anything [] [] [] false :=
  ⟨[], fun _ _ _ lexed => lexed, .nil⟩

/-- A spelling before more is one before less. -/
theorem Spells.mono (h : Spells ends Xs x cs isOpen) (weaker : ∀ c, follow c = true → ends c = true) :
    Spells follow Xs x cs isOpen := by
  obtain ⟨w, reads, derived⟩ := h
  exact ⟨w, reads.mono weaker, derived⟩

/-- A text after another one. -/
theorem Spells.append (first : Spells ends Xs x cs false) (last : Spells follow Ys y ds isOpen)
    (meets : Meets ends follow y) : Spells follow (Xs ++ Ys) (x ++ y) (cs ++ ds) isOpen := by
  obtain ⟨v, reads, derived⟩ := first
  obtain ⟨w, reads', derived'⟩ := last
  refine ⟨v ++ w, reads.append reads' meets, ?_⟩
  cases Ys with
  | nil =>
    cases derived'
    rwa [List.append_nil, List.append_nil, List.append_nil]
  | cons Y Ys => exact derived.append derived' (List.cons_ne_nil _ _) nofun

/-- A text after a statement, which is no `else` if this would belong to the statement. -/
theorem Spells.and_then {Y : Symbol} (first : Spells ends Xs x cs isOpen)
    (last : Spells follow (Y :: Ys) y ds isOpen') (meets : Meets ends follow y)
    (apart : isOpen = true → Y ≠ .terminal .else_) :
    Spells follow (Xs ++ Y :: Ys) (x ++ y) (cs ++ ds) isOpen' := by
  obtain ⟨v, reads, derived⟩ := first
  obtain ⟨w, reads', derived'⟩ := last
  refine ⟨v ++ w, reads.append reads' meets, derived.append derived' (List.cons_ne_nil _ _) ?_⟩
  intro open_
  exact lookahead_ne_else derived' (List.cons_ne_nil _ _) fun same =>
    apart open_ (Option.some.inj same)

/-- White space before a text. -/
theorem Spells.after_space (space : ∀ c ∈ x, isSpace c = true) (h : Spells follow Xs y cs isOpen) :
    Spells follow Xs (x ++ y) cs isOpen := by
  obtain ⟨w, reads, derived⟩ := h
  exact ⟨w, (reads_spaces space).append reads meets_anything, derived⟩

/-- A blank after a text. -/
theorem Spells.before_blank (h : Spells ends Xs x cs isOpen) (fits : ends 32 = true) :
    Spells anything Xs (x ++ " ") cs isOpen := by
  obtain ⟨w, reads, derived⟩ := h
  refine ⟨w ++ [], reads.append (reads_spaces ?_) (meets_head fits), ?_⟩
  · exact List.forall_mem_singleton.mpr rfl
  · rwa [List.append_nil]

/-- Whether a production for a phrase is that of an `if` without an `else`. -/
def isShort (A : Phrase) (Xs : List Symbol) : Bool := A == .ifStatement && Xs.length == 5

/-- Symbols that are a phrase, which may be an `if` without an `else`. -/
theorem Spells.make_open {A : Phrase} (h : Spells follow Xs x cs isOpen) (made : Produces A Xs cs c)
    (some : Xs ≠ []) : Spells follow [.phrase A] x [c] (isOpen || isShort A Xs) := by
  obtain ⟨w, reads, derived⟩ := h
  obtain ⟨rule, known, makes⟩ := made
  obtain ⟨number, of⟩ := List.getElem?_of_mem known
  have whole := Derives.phrase of some derived makes .nil fun _ => nofun
  rw [List.append_nil] at whole
  exact ⟨w, reads, whole⟩

/-- Symbols that are a phrase. -/
theorem Spells.make {A : Phrase} (h : Spells follow Xs x cs isOpen) (made : Produces A Xs cs c)
    (long : (Xs.isEmpty || isShort A Xs) = false) : Spells follow [.phrase A] x [c] isOpen := by
  rw [Bool.or_eq_false_iff, List.isEmpty_eq_false_iff] at long
  have whole := h.make_open made long.1
  rwa [long.2, Bool.or_false] at whole

/-- A phrase that is another one. -/
theorem Spells.is {A : Phrase} {X : Symbol} {d : Content} (h : Spells follow [X] x [d] isOpen)
    (made : Produces A [X] [d] c) : Spells follow [.phrase A] x [c] isOpen :=
  h.make made (Bool.and_false _)

/-! ## Tokens -/

variable {a : Terminal}

/-- Whether a terminal is listed and a text is made of its spelling. -/
def isListed (table : List Terminal) (a : Terminal) (made x : Text) : Bool :=
  table.contains a && made == x

/-- A listed text is the spelling of its terminal. -/
theorem mem_of_isListed {table : List Terminal} {made : Text} (h : isListed table a made x = true) :
    a ∈ table ∧ made = x := by
  rwa [isListed, Bool.and_eq_true, List.contains_iff_mem, beq_iff_eq] at h

/-- A terminal of a table is listed with its spelling. -/
theorem isListed_spelling {table : List Terminal} (known : a ∈ table) :
    isListed table a a.spelling a.spelling = true := by
  rw [isListed, Bool.and_eq_true, List.contains_iff_mem]
  exact ⟨known, beq_self_eq_true _⟩

/-- A token that is cut off spells its terminal. -/
theorem spells_token (cuts : ∀ rest : Text, (∀ c ∈ rest.head?, follow c = true) → Cuts a x rest) :
    Spells follow [.terminal a] x [.token x] false :=
  ⟨_, reads_token cuts, .terminal .nil⟩

/-- Where a name ends, no part of a name comes next. -/
theorem isNamePart_of_ends {rest : Text} (ends : ∀ c ∈ rest.head?, endsName c = true) :
    ∀ c ∈ rest.head?, isNamePart c = false := fun c next => by
  rw [← Bool.not_eq_true']
  exact ends c next

/-- Whether a text is a name and no keyword. -/
def isFree (x : Text) : Bool := Text.isName x && !keywordSpellings.contains x

/-- A name that is no keyword spells a name. -/
theorem spells_name (free : isFree x = true) :
    Spells endsName [.terminal .name] x [.token x] false := by
  rw [isFree, Bool.and_eq_true, Bool.not_eq_true', ← Bool.not_eq_true, List.contains_iff_mem] at free
  exact spells_token fun rest next => cuts_name free.1 free.2 (isNamePart_of_ends next)

/-- Each keyword stands in the table of keywords. -/
theorem mem_keywordTable :
    ∀ a ∈ Terminal.keywords, (a, a.label, a.spelling) ∈ Terminal.keywordTable := by
  decide

/-- A keyword spells itself before what ends a name. -/
theorem spells_reserved (a : Terminal) (x : Text)
    (listed : isListed Terminal.keywords a a.spelling x = true) :
    Spells endsName [.terminal a] x [.token x] false := by
  obtain ⟨known, rfl⟩ := mem_of_isListed listed
  exact spells_token fun _ next => cuts_keyword (mem_keywordTable a known) (isNamePart_of_ends next)

/-- A keyword with a blank. -/
theorem spells_word (a : Terminal) (y : Text)
    (listed : isListed Terminal.keywords a (a.spelling ++ " ") y = true) :
    Spells anything [.terminal a] y [.token a.spelling] false := by
  obtain ⟨known, rfl⟩ := mem_of_isListed listed
  exact (spells_reserved a a.spelling (isListed_spelling known)).before_blank rfl

/-- The signs. -/
def signs : List Terminal := signTable.map (·.1)

/-- The signs are spelled as the table says. -/
theorem spelling_of_sign : ∀ e ∈ signTable, e.1.spelling = e.2.2 := by decide +kernel

/-- Each sign stands in the table of signs. -/
theorem mem_signTable (sign : a ∈ signs) : ∃ label, (a, label, a.spelling) ∈ signTable := by
  obtain ⟨e, known, rfl⟩ := List.mem_map.mp sign
  exact ⟨e.2.1, spelling_of_sign e known ▸ known⟩

/-- Signs that are not the beginning of another one. -/
def closedSigns : List Terminal :=
  [.leftParen, .rightParen, .leftBrace, .rightBrace, .leftBracket, .rightBracket, .semicolon, .comma,
   .colon, .question, .tilde, .plusPlus, .minusMinus]

/-- A closed sign is a plain sign with which no other one begins. -/
theorem closed_of_mem : ∀ a ∈ closedSigns,
    a ∈ signs ∧ isPlainSign a.spelling = true ∧ continuations a.spelling = [] := by
  decide +kernel

/-- A closed sign spells itself before anything. -/
theorem spells_sign (a : Terminal) (x : Text)
    (listed : isListed closedSigns a a.spelling x = true) :
    Spells anything [.terminal a] x [.token x] false := by
  obtain ⟨known, rfl⟩ := mem_of_isListed listed
  obtain ⟨sign, plain, closed⟩ := closed_of_mem a known
  obtain ⟨label, known⟩ := mem_signTable sign
  exact spells_token fun _ _ => cuts_closed known plain closed

/-- A sign between blanks. -/
theorem spells_padded (a : Terminal) (x : Text)
    (listed : isListed closedSigns a (" " ++ (a.spelling ++ " ")) x = true) :
    Spells anything [.terminal a] x [.token a.spelling] false := by
  obtain ⟨known, rfl⟩ := mem_of_isListed listed
  exact ((spells_sign a a.spelling (isListed_spelling known)).before_blank rfl).after_space
    (List.forall_mem_singleton.mpr rfl)

/-- A sign before a blank. -/
theorem spells_spaced (sign : a ∈ signs) (other : a ≠ .dot) (same : a.spelling = x) :
    Spells anything [.terminal a] (x ++ " ") [.token x] false := by
  subst same
  obtain ⟨label, known⟩ := mem_signTable sign
  refine ⟨[(a, a.spelling)], fun rest v _ lexed => ?_, .terminal .nil⟩
  rw [List.append_assoc]
  have cuts : Cuts a a.spelling (32 :: rest) := cuts_spaced known other
  exact .token cuts (lexed.spaces (List.forall_mem_singleton.mpr rfl))

/-- A point before a name. -/
theorem spells_property (free : isFree x = true) :
    Spells endsName [.terminal .dot, .terminal .name] ("." ++ x) [.token ".", .token x] false := by
  obtain ⟨w, reads, derived⟩ := spells_name free
  refine ⟨(.dot, Text.ofString ".") :: w, fun rest v next lexed => ?_, .terminal derived⟩
  rw [List.append_assoc]
  refine .token (cuts_dot ?_) (reads rest v next lexed)
  rw [isFree, Bool.and_eq_true] at free
  cases x with
  | nil => cases free.1
  | cons c more =>
    have name := free.1
    rw [Text.isName, Bool.and_eq_true] at name
    exact ⟨c, more ++ rest, rfl, name.1⟩

/-- A decimal numeral spells a number before what ends one. -/
theorem spells_number (numeral : DecimalNumeral x) :
    Spells endsNumber [.terminal .number] x [.token x] false :=
  spells_token fun _ next => cuts_number numeral next

/-- A quoted text spells a string before anything. -/
theorem spells_string (s : Text) :
    Spells anything [.terminal .string] (Literal.quote s) [.token (Literal.quote s)] false :=
  spells_token fun rest _ => cuts_string s rest

/-! ## Expressions -/

variable {p q : Precedence}

/-- An expression that holds together tightly spells one that holds together less tightly. -/
theorem Spells.loosen (h : Spells follow [.phrase (level p)] x [c] isOpen) (le : q ≤ p)
    (bound : p ≤ 16) : Spells follow [.phrase (level q)] x [c] isOpen := by
  induction p, le using Nat.le_induction with
  | base => exact h
  | succ p _ ih => exact ih (h.is (produces_level bound)) (Nat.le_of_succ_le bound)

/-- An expression in parentheses. -/
theorem Spells.parentheses {t : Tree} (h : Spells delimits [.phrase .expression] x [.tree t] false) :
    Spells anything [.terminal .leftParen, .phrase .expression, .terminal .rightParen]
      (Print.parenthesize x) [.token "(", .tree t, .token ")"] false :=
  ((spells_sign .leftParen "(" rfl).append h meets_anything).append (spells_sign .rightParen ")" rfl)
    (meets_head rfl)

/-- An expression in parentheses is a simple one. -/
theorem Spells.enclosed {t : Tree} (h : Spells delimits [.phrase .expression] x [.tree t] false) :
    Spells anything [.phrase .primary] (Print.parenthesize x) [.tree t] false :=
  h.parentheses.make produces_parentheses rfl

/-- A symbol that is read as a sign. -/
inductive IsSign : Symbol → Text → Prop where
  | terminal {a : Terminal} {x : Text} (sign : a ∈ signs ∧ a ≠ .dot ∧ a.spelling = x) :
    IsSign (.terminal a) x
  | phrase {A : Phrase} {a : Terminal} {x : Text} (sign : a ∈ signs ∧ a ≠ .dot ∧ a.spelling = x)
      (of : ⟨A, [.terminal a], .keep 0⟩ ∈ signProductions) : IsSign (.phrase A) x

/-- An operator may be followed by a blank. -/
theorem IsSign.spaced {X : Symbol} (h : IsSign X x) :
    Spells anything [X] (x ++ " ") [.token x] false := by
  cases h with
  | terminal sign => exact spells_spaced sign.1 sign.2.1 sign.2.2
  | phrase sign of =>
    exact (spells_spaced sign.1 sign.2.1 sign.2.2).is ⟨_, mem_sign of, makes_keep rfl⟩

/-- A sign between blanks. -/
theorem IsSign.padded {X : Symbol} (h : IsSign X x) :
    Spells anything [X] (" " ++ (x ++ " ")) [.token x] false :=
  h.spaced.after_space (List.forall_mem_singleton.mpr rfl)

/-- A symbol is read as an operator between an operand of a precedence and one that holds together
more tightly. -/
def Joins (S : Symbol) (x : Text) (p : Precedence) (shape : Tree → Tree → Shape Tree) : Prop :=
  IsSign S x ∧ ∀ l t u, Produces (level p) [.phrase (level p), S, .phrase (level (p + 1))]
    [.tree t, .token x, .tree u] (.tree (.node l (shape t u)))

/-- A sign joins operands by a rule that has the sign in it. -/
theorem joins_fixed {a : Terminal} {rule : Text} (sign : a ∈ signs ∧ a ≠ .dot ∧ a.spelling = x)
    (known : ⟨level p, [.phrase (level p), .terminal a, .phrase (level (p + 1))],
      fixedBinary rule x⟩ ∈ binaryProductions) :
    ∃ S, Joins S x p (.binary (.text x)) :=
  ⟨_, .terminal sign, fun _ _ _ => ⟨_, mem_binary known, makes_binary⟩⟩

/-- A sign joins operands logically by a rule that has the sign in it. -/
theorem joins_logical {a : Terminal} {rule : Text} (sign : a ∈ signs ∧ a ≠ .dot ∧ a.spelling = x)
    (known : ⟨level p, [.phrase (level p), .terminal a, .phrase (level (p + 1))],
      fixedLogical rule x⟩ ∈ binaryProductions) :
    ∃ S, Joins S x p (.logical (.text x)) :=
  ⟨_, .terminal sign, fun _ _ _ => ⟨_, mem_binary known, makes_logical⟩⟩

/-- A sign that is read as an operator joins operands. -/
theorem joins_any {A : Phrase} (a : Terminal) (sign : a ∈ signs ∧ a ≠ .dot ∧ a.spelling = x)
    (of : ⟨A, [.terminal a], .keep 0⟩ ∈ signProductions)
    (known : ⟨level p, [.phrase (level p), .phrase A, .phrase (level (p + 1))], anyBinary⟩ ∈
      binaryProductions) : ∃ S, Joins S x p (.binary (.text x)) :=
  ⟨_, .phrase sign of, fun _ _ _ => ⟨_, mem_binary known, makes_anyBinary⟩⟩

/-- Every binary operator is read with its precedence. -/
theorem joins_of_binary (known : (x, p) ∈ BinaryOperator.table.map (·.2)) :
    2 ≤ p ∧ p < 15 ∧ ∃ S, Joins S x p (.binary (.text x)) := by
  have bounds : ∀ e ∈ BinaryOperator.table.map (·.2), 2 ≤ e.2 ∧ e.2 < 15 := by decide
  refine ⟨(bounds _ known).1, (bounds _ known).2, ?_⟩
  simp only [BinaryOperator.table, List.map_cons, List.map_nil, List.mem_cons, List.not_mem_nil,
    or_false, Prod.mk.injEq] at known
  -- In the order of the table, each operator by its terminal.
  rcases known with ⟨rfl, rfl⟩ | ⟨rfl, rfl⟩ | ⟨rfl, rfl⟩ | ⟨rfl, rfl⟩ | ⟨rfl, rfl⟩ | ⟨rfl, rfl⟩ |
    ⟨rfl, rfl⟩ | ⟨rfl, rfl⟩ | ⟨rfl, rfl⟩ | ⟨rfl, rfl⟩ | ⟨rfl, rfl⟩ | ⟨rfl, rfl⟩ | ⟨rfl, rfl⟩ |
    ⟨rfl, rfl⟩ | ⟨rfl, rfl⟩ | ⟨rfl, rfl⟩ | ⟨rfl, rfl⟩ | ⟨rfl, rfl⟩ | ⟨rfl, rfl⟩
  · exact joins_any .equalEqual (by decide) (by repeat constructor) (by repeat constructor)
  · exact joins_any .bangEqual (by decide) (by repeat constructor) (by repeat constructor)
  · exact joins_any .equalEqualEqual (by decide) (by repeat constructor) (by repeat constructor)
  · exact joins_any .bangEqualEqual (by decide) (by repeat constructor) (by repeat constructor)
  · exact joins_any .less (by decide) (by repeat constructor) (by repeat constructor)
  · exact joins_any .lessEqual (by decide) (by repeat constructor) (by repeat constructor)
  · exact joins_any .greater (by decide) (by repeat constructor) (by repeat constructor)
  · exact joins_any .greaterEqual (by decide) (by repeat constructor) (by repeat constructor)
  · exact joins_any .shiftLeft (by decide) (by repeat constructor) (by repeat constructor)
  · exact joins_any .shiftRight (by decide) (by repeat constructor) (by repeat constructor)
  · exact joins_any .shiftRightZero (by decide) (by repeat constructor) (by repeat constructor)
  · exact joins_any .plus (by decide) (by repeat constructor) (by repeat constructor)
  · exact joins_any .minus (by decide) (by repeat constructor) (by repeat constructor)
  · exact joins_any .star (by decide) (by repeat constructor) (by repeat constructor)
  · exact joins_any .slash (by decide) (by repeat constructor) (by repeat constructor)
  · exact joins_any .percent (by decide) (by repeat constructor) (by repeat constructor)
  · exact joins_fixed (a := .bar) (by decide) (by repeat constructor)
  · exact joins_fixed (a := .caret) (by decide) (by repeat constructor)
  · exact joins_fixed (a := .ampersand) (by decide) (by repeat constructor)

/-- Every logical operator is read with its precedence. -/
theorem joins_of_logical (known : (x, p) ∈ LogicalOperator.table.map (·.2)) :
    2 ≤ p ∧ p < 15 ∧ ∃ S, Joins S x p (.logical (.text x)) := by
  have bounds : ∀ e ∈ LogicalOperator.table.map (·.2), 2 ≤ e.2 ∧ e.2 < 15 := by decide
  refine ⟨(bounds _ known).1, (bounds _ known).2, ?_⟩
  simp only [LogicalOperator.table, List.map_cons, List.map_nil, List.mem_cons, List.not_mem_nil,
    or_false, Prod.mk.injEq] at known
  rcases known with ⟨rfl, rfl⟩ | ⟨rfl, rfl⟩
  · exact joins_logical (a := .barBar) (by decide) (by repeat constructor)
  · exact joins_logical (a := .ampersandAmpersand) (by decide) (by repeat constructor)

/-- The assignment operators are signs. -/
theorem sign_of_assignment : ∀ x ∈ assignmentSpellings, ∃ e ∈ Terminal.assignmentTable,
    e.1 ∈ signs ∧ e.1 ≠ .dot ∧ e.1.spelling = x := by
  decide +kernel

/-- Every assignment is read as one. -/
theorem isSign_of_assignment (known : x ∈ assignmentSpellings) : IsSign (.phrase .assignOp) x := by
  obtain ⟨e, inside, sign⟩ := sign_of_assignment x known
  refine .phrase sign ?_
  have of : (⟨.assignOp, [.terminal e.1], .keep 0⟩ : Production) ∈
      oneOf .assignOp (Terminal.assignmentTable.map (·.1)) :=
    List.mem_map.mpr ⟨e.1, List.mem_map_of_mem inside, rfl⟩
  simp only [signProductions, List.append_assoc]
  exact List.mem_append_left _ of

/-- What may follow a sign without making it longer. -/
def endsSign (a : Terminal) (c : Nat) : Bool := !(continuations a.spelling).contains c

/-- The signs of unary operators. -/
def unarySigns : List Terminal := [.bang, .tilde, .plus, .minus]

/-- The signs before an operand are plain ones. -/
theorem plain_of_unary : ∀ a ∈ unarySigns, a ∈ signs ∧ isPlainSign a.spelling = true := by decide

/-- A sign of a unary operator, before an operand that does not make it longer. -/
theorem spells_unarySign {a : Terminal} (known : a ∈ unarySigns) :
    Spells (endsSign a) [.phrase .unaryOp] a.spelling [.token a.spelling] false := by
  obtain ⟨sign, plain⟩ := plain_of_unary a known
  obtain ⟨label, listed⟩ := mem_signTable sign
  have token : Spells (endsSign a) [.terminal a] a.spelling [.token a.spelling] false := by
    refine spells_token fun rest next => cuts_sign listed (isPlainSign_append plain) fun c hc => ?_
    have ends := next c hc
    rwa [endsSign, Bool.not_eq_true', ← Bool.not_eq_true, List.contains_iff_mem] at ends
  have of : ⟨.unaryOp, [.terminal a], .keep 0⟩ ∈ signProductions := by
    simp only [unarySigns, List.mem_cons, List.not_mem_nil, or_false] at known
    rcases known with rfl | rfl | rfl | rfl <;> repeat constructor
  exact token.is ⟨_, mem_sign of, makes_keep rfl⟩

/-- A word that is a unary operator. -/
theorem spells_unaryWord {a : Terminal} (known : a ∈ [Terminal.typeof, .void]) :
    Spells anything [.phrase .unaryOp] (a.spelling ++ " ") [.token a.spelling] false := by
  simp only [List.mem_cons, List.not_mem_nil, or_false] at known
  rcases known with rfl | rfl
  · exact (spells_word .typeof "typeof " rfl).is
      ⟨_, mem_sign (by repeat constructor), makes_keep rfl⟩
  · exact (spells_word .void "void " rfl).is ⟨_, mem_sign (by repeat constructor), makes_keep rfl⟩

/-- An update sign. -/
theorem spells_updateSign (known : x ∈ UpdateOperator.table.map (·.2)) :
    Spells anything [.phrase .updateOp] x [.token x] false := by
  simp only [UpdateOperator.table, List.map_cons, List.map_nil, List.mem_cons, List.not_mem_nil,
    or_false] at known
  rcases known with rfl | rfl
  · exact (spells_sign .plusPlus "++" rfl).is ⟨_, mem_sign (by repeat constructor), makes_keep rfl⟩
  · exact (spells_sign .minusMinus "--" rfl).is ⟨_, mem_sign (by repeat constructor), makes_keep rfl⟩

/-! ## Rows -/

/-- The parts of a text after the first one, each after a separator. -/
theorem join_cons (separator part : Text) (parts : List Text) :
    Text.join separator (part :: parts) = part ++ parts.flatMap (separator ++ ·) := by
  induction parts generalizing part with
  | nil => rw [Text.join, List.flatMap_nil, List.append_nil]
  | cons next parts ih =>
    rw [Text.join, ih, List.flatMap_cons, List.append_assoc, List.append_assoc]
    exact nofun

section Rows

variable {R : Text → Tree → Prop} {xs : List Text} {t : Tree} {ts us : List Tree}

/-- A row grows by one part at a time. -/
theorem grows {P : Text → List Tree → Prop} {g : Text → Text}
    (more : ∀ z ts x t, P z ts → R x t → P (z ++ g x) (ts ++ [t])) (parts : List.Forall₂ R xs us)
    (start : P x ts) : P (x ++ xs.flatMap g) (ts ++ us) := by
  induction parts generalizing x ts with
  | nil => rwa [List.flatMap_nil, List.append_nil, List.append_nil]
  | @cons y u ys us part _ ih =>
    have next := ih (more x ts y u start part)
    rwa [List.append_assoc, List.append_assoc] at next

variable {A M : Phrase} {X : Symbol} {item : Content → Tree → Prop}

/-- How a row is made: of its first part, or of this and the other ones with commas before them. -/
structure CommaRow (A M : Phrase) (X : Symbol) (item : Content → Tree → Prop) : Prop where
  single : ∀ {c t}, item c t → Produces A [X] [c] (.trees [t])
  several : ∀ {c t ts}, item c t → Produces A [X, .phrase M] [c, .trees ts] (.trees (t :: ts))
  second : ∀ {c t}, item c t → Produces M [.terminal .comma, X] [.token ",", c] (.trees [t])
  further : ∀ {c t ts}, item c t →
    Produces M [.phrase M, .terminal .comma, X] [.trees ts, .token ",", c] (.trees (ts ++ [t]))
/-- The parts of a row. -/
def SpellsItem (X : Symbol) (item : Content → Tree → Prop) (x : Text) (t : Tree) : Prop :=
  ∃ c, item c t ∧ Spells delimits [X] x [c] false

/-- A comma and a blank spell a comma. -/
theorem spells_comma : Spells anything [.terminal .comma] ", " [.token ","] false :=
  (spells_sign .comma "," rfl).before_blank rfl

/-- The parts after the first one. -/
theorem CommaRow.more (row : CommaRow A M X item)
    (parts : List.Forall₂ (SpellsItem X item) (x :: xs) (t :: ts)) :
    Spells delimits [.phrase M] ((x :: xs).flatMap (Text.ofString ", " ++ ·)) [.trees (t :: ts)]
      false := by
  cases parts with
  | cons first others =>
    obtain ⟨c, fits, spelled⟩ := first
    have start := (spells_comma.append spelled meets_anything).make (row.second fits)
      (Bool.and_false _)
    refine grows (P := fun z us => Spells delimits [.phrase M] z [.trees us] false)
      (fun z us y u before next => ?_) others start
    obtain ⟨d, fits, spelled⟩ := next
    exact (before.append (spells_comma.append spelled meets_anything) (meets_head rfl)).make
      (row.further fits) (Bool.and_false _)

/-- A row with at least one part. -/
theorem CommaRow.row (row : CommaRow A M X item)
    (parts : List.Forall₂ (SpellsItem X item) (x :: xs) (t :: ts)) :
    Spells delimits [.phrase A] (Text.join ", " (x :: xs)) [.trees (t :: ts)] false := by
  rw [join_cons]
  cases parts with
  | cons first others =>
    obtain ⟨c, fits, spelled⟩ := first
    cases others with
    | nil =>
      rw [List.flatMap_nil, List.append_nil]
      exact spelled.make (row.single fits) (Bool.and_false _)
    | cons second others =>
      exact (spelled.append (row.more (.cons second others)) (meets_head rfl)).make
        (row.several fits) (Bool.and_false _)

/-- A row that may be empty. -/
theorem CommaRow.slot (row : CommaRow A M X item)
    (parts : List.Forall₂ (SpellsItem X item) xs ts) :
    ∃ Xs cs, RowSlot A Xs cs ts ∧ Spells delimits Xs (Text.join ", " xs) cs false := by
  cases parts with
  | nil => exact ⟨[], [], .absent, spells_nil.mono fun _ _ => rfl⟩
  | cons first others => exact ⟨_, _, .present, row.row (.cons first others)⟩

/-- Names in a row, as parameters. -/
theorem params_row : CommaRow .params .moreNames (.terminal .name)
    fun c t => ∃ l n, c = .token n ∧ t = identifierAt l n where
  single := by rintro _ _ ⟨l, n, rfl, rfl⟩; exact produces_param
  several := by rintro _ _ _ ⟨l, n, rfl, rfl⟩; exact produces_params
  second := by rintro _ _ ⟨l, n, rfl, rfl⟩; exact produces_moreName
  further := by rintro _ _ _ ⟨l, n, rfl, rfl⟩; exact produces_moreNames

/-- Declarators in a row. -/
theorem declarators_row : CommaRow .declaratorList .moreDeclarators (.phrase .declarator)
    fun c t => c = .tree t where
  single := by rintro _ _ rfl; exact produces_declarator
  several := by rintro _ _ _ rfl; exact produces_declarators
  second := by rintro _ _ rfl; exact produces_moreDeclarator
  further := by rintro _ _ _ rfl; exact produces_moreDeclarators

/-- Expressions in a row, as arguments or elements. -/
theorem arguments_row : CommaRow .arguments .moreExprs (.phrase .assignmentExpr)
    fun c t => c = .tree t where
  single := by rintro _ _ rfl; exact produces_argument
  several := by rintro _ _ _ rfl; exact produces_arguments
  second := by rintro _ _ rfl; exact produces_moreExpr
  further := by rintro _ _ _ rfl; exact produces_moreExprs

end Rows

/-! ## Programs -/

section Programs

variable {file : Text} {t : Tree} {l : Option Location}

/-- A text of a program is read as the program. -/
theorem parse_of_spells (named : file ≠ [])
    (h : Spells follow [.phrase .program] x [.tree t] isOpen) :
    ∃ u, parse file x = .ok u ∧ t.ReadAs u := by
  obtain ⟨w, reads, derived⟩ := h
  have lexed := reads [] [] nofun .nil
  rw [List.append_nil, List.append_nil] at lexed
  exact parse_of_lexes named lexed derived

/-- A semicolon is the empty statement. -/
theorem spells_emptyStatement :
    Spells anything [.phrase .statement] ";" [.tree (.node l .emptyStatement)] false :=
  ((spells_sign .semicolon ";" rfl).make produces_empty rfl).is
    (produces_ofKind (by repeat constructor))

/-- The production of the empty program. -/
theorem empty_production : productions[2]? =
    some ⟨.program, [], Rule.make "program" fun _ => .program emptyRow⟩ := rfl

attribute [local irreducible] automaton in
/-- The empty text is read as the program without statements. -/
theorem parse_nil (named : file ≠ []) :
    ∃ u, parse file [] = .ok u ∧ (Tree.node l (.program (.tuple []))).ReadAs u := by
  obtain ⟨r, led, -, accepted⟩ := accepts_program
  -- The empty program is made by a reduction without parts.
  have makes : Makes (Rule.make "program" fun _ => .program emptyRow) []
      (.tree (.node l (.program (.tuple [])))) :=
    makes_make fun _ _ _ => Tree.readAs_node rfl nofun (.cons ⟨rfl, Tree.readAs_tuple .nil⟩ .nil)
  have reduced : ∃ part, Agrees (.tree (.node l (.program (.tuple [])))) part.content ∧
      reduce automaton file ⟨.program, [], Rule.make "program" fun _ => .program emptyRow⟩
        ⟨([] : List Frame) ++ [], none⟩ = ⟨[⟨r, part⟩], none⟩ :=
    reduce_frames named makes rfl .nil led
  obtain ⟨⟨content, place⟩, agrees, made⟩ := reduced
  rw [List.append_nil] at made
  cases agrees with
  -- The machine reduces, then it accepts.
  | @tree _ u same =>
    refine ⟨u, ?_, same⟩
    have start : action? automaton (topState (Machine.mk [] none).stack) .endOfInput =
      some (.reduce 2) := action_first
    have first : settle automaton file .endOfInput 114 ⟨[], none⟩ = _ :=
      settle_of_reduce start empty_production
    have last : settle automaton file .endOfInput 113 ⟨[⟨r, ⟨.tree u, place⟩⟩], none⟩ = _ :=
      settle_of_accept accepted
    have fuel : settleFuel ⟨[], none⟩ = 114 := settleFuel_eq [] none
    rw [parse, readFrom_nil, close, fuel, first, made, last]
    rfl

end Programs

end TailLoop.Source
