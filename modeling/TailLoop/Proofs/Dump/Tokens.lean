import TailLoop.Dump
import TailLoop.Literal
import TailLoop.Proofs.Double.Text

/-!
# Reading dumps back

A written S-expression is a row of tokens: parentheses, words and strings, with blanks between them.
How it is broken into lines does not matter: in both forms the tokens are those of the S-expression
(`reads_pretty`, `reads_compact`), and a reader that goes through the text finds them
(`tokensFrom`).

The tokens determine an S-expression of symbols, texts and numbers (`eq_of_tokens`). No word is both
a symbol and a number, or both an integer and another number. So two such S-expressions that are
written alike are the same.
-/

namespace TailLoop.SExpr

/-! ## Tokens -/

/-- A token of a written S-expression. -/
inductive Token where
  | opening
  | closing
  | word (text : Text)
  | string (text : Text)

/-- What a reader of tokens is in the middle of, with what it has read of it. -/
inductive Reading where
  | between
  | word (read : Text)
  | string (read : Text)
  /-- After a backslash in a string. -/
  | escape (read : Text)

/-- The code points that end a word. -/
def delimiters : Text := [' '.toNat, Text.newline, '('.toNat, ')'.toNat, '"'.toNat]

/-- What a code point between tokens is or begins. -/
def begin (c : Nat) : List Token × Reading :=
  if c = '('.toNat then ([.opening], .between)
  else if c = ')'.toNat then ([.closing], .between)
  else if c = '"'.toNat then ([], .string [])
  else if c ∈ delimiters then ([], .between)
  else ([], .word [c])

/-- The tokens that a code point ends, and what comes next. -/
def step (c : Nat) : Reading → List Token × Reading
  | .between => begin c
  | .word read =>
    if c ∈ delimiters then (.word read :: (begin c).1, (begin c).2) else ([], .word (read ++ [c]))
  | .string read =>
    if c = '"'.toNat then ([.string read], .between)
    else if c = '\\'.toNat then ([], .escape read)
    else ([], .string (read ++ [c]))
  | .escape read => ([], .string (read ++ [Literal.unescapePoint c]))

/-- The tokens of a text. -/
def tokensFrom : Reading → Text → List Token
  | .word read, [] => [.word read]
  | _, [] => []
  | reading, c :: rest => (step c reading).1 ++ tokensFrom (step c reading).2 rest

/-- A text reads as tokens, whatever comes after it from a delimiter on. -/
def Reads (t : Text) (tokens : List Token) : Prop :=
  ∀ c ∈ delimiters, ∀ rest,
    tokensFrom .between (t ++ c :: rest) = tokens ++ tokensFrom .between (c :: rest)

/-! ## Words and strings -/

/-- Code points that are all of one word. -/
def IsWord (t : Text) : Prop := t ≠ [] ∧ ∀ c ∈ t, c ∉ delimiters

/-- The tokens of a text, code point by code point. -/
theorem tokensFrom_cons (reading : Reading) (c : Nat) (rest : Text) :
    tokensFrom reading (c :: rest) = (step c reading).1 ++ tokensFrom (step c reading).2 rest := by
  cases reading <;> rfl

/-- A word goes on up to a delimiter. -/
theorem tokensFrom_word {read t rest : Text} {c : Nat} (word : ∀ c ∈ t, c ∉ delimiters)
    (ends : c ∈ delimiters) :
    tokensFrom (.word read) (t ++ c :: rest) =
      .word (read ++ t) :: tokensFrom .between (c :: rest) := by
  induction t generalizing read with
  | nil =>
    have step : step c (.word read) = (.word read :: (begin c).1, (begin c).2) := if_pos ends
    rw [List.nil_append, List.append_nil, tokensFrom_cons, step, tokensFrom_cons]
    rfl
  | cons a t ih =>
    rw [List.forall_mem_cons] at word
    have step : step a (.word read) = ([], .word (read ++ [a])) := if_neg word.1
    rw [List.cons_append, tokensFrom_cons, step, List.nil_append, ih word.2, List.append_assoc,
      List.singleton_append]

/-- What is no delimiter begins a word. -/
theorem begin_of_not_mem {c : Nat} (h : c ∉ delimiters) : begin c = ([], .word [c]) := by
  have apart {d : Nat} (known : d ∈ delimiters) : c ≠ d := fun same => h (same ▸ known)
  rw [begin, if_neg (apart (by decide)), if_neg (apart (by decide)), if_neg (apart (by decide)),
    if_neg h]

/-- A word reads as itself. -/
theorem reads_word {t : Text} (word : IsWord t) : Reads t [.word t] := by
  obtain ⟨some, all⟩ := word
  obtain ⟨a, t, rfl⟩ := List.exists_cons_of_ne_nil some
  rw [List.forall_mem_cons] at all
  intro c hc rest
  have first : step a .between = ([], .word [a]) := begin_of_not_mem all.1
  rw [List.cons_append, tokensFrom_cons, first, List.nil_append, tokensFrom_word all.2 hc]
  rfl

/-- Escapes that are undone code point by code point. -/
def Faithful (escapes : List (Nat × Text)) : Prop :=
  (∀ c ∈ ['"'.toNat, '\\'.toNat], (escapes.lookup c).isSome = true) ∧
    ∀ e ∈ escapes, ∃ l, e.2 = ['\\'.toNat, l] ∧ Literal.unescapePoint l = e.1

/-- The compact escapes tell code points apart. -/
theorem faithful_compact : Faithful compactEscapes := by
  refine ⟨by decide, ?_⟩
  unfold compactEscapes
  simp only [List.forall_mem_cons, List.not_mem_nil, false_implies, implies_true, and_true]
  exact ⟨⟨92, rfl, rfl⟩, ⟨34, rfl, rfl⟩, ⟨98, rfl, rfl⟩, ⟨102, rfl, rfl⟩, ⟨110, rfl, rfl⟩,
    ⟨114, rfl, rfl⟩, ⟨116, rfl, rfl⟩⟩

/-- The pretty escapes tell code points apart. -/
theorem faithful_pretty : Faithful prettyEscapes := by
  refine ⟨by decide, ?_⟩
  unfold prettyEscapes
  simp only [List.forall_mem_cons, List.not_mem_nil, false_implies, implies_true, and_true]
  exact ⟨⟨92, rfl, rfl⟩, ⟨34, rfl, rfl⟩⟩

-- A character without an escape is neither a quote nor a backslash.
/-- A code point of a string is read back. -/
theorem tokensFrom_point {escapes : List (Nat × Text)} (faithful : Faithful escapes) (c : Nat)
    (read rest : Text) :
    tokensFrom (.string read) ((escapes.lookup c).getD [c] ++ rest) =
      tokensFrom (.string (read ++ [c])) rest := by
  cases found : escapes.lookup c with
  | none =>
    have other {d : Nat} (known : d ∈ ['"'.toNat, '\\'.toNat]) : c ≠ d := by
      rintro rfl
      have := faithful.1 c known
      rw [found] at this
      cases this
    have plain : step c (.string read) = ([], .string (read ++ [c])) := by
      rw [step, if_neg (other (by decide)), if_neg (other (by decide))]
    rw [Option.getD_none, List.singleton_append, tokensFrom_cons, plain, List.nil_append]
  | some escape =>
    -- An escape is a backslash and a letter, which is undone to the character.
    obtain ⟨before, after, same, -⟩ := List.lookup_eq_some_iff.mp found
    obtain ⟨l, rfl, undone⟩ := faithful.2 (c, escape) (same ▸ by simp)
    have backslash : step '\\'.toNat (.string read) = ([], .escape read) := rfl
    rw [Option.getD_some, List.cons_append, tokensFrom_cons, backslash, List.nil_append,
      List.singleton_append, tokensFrom_cons, step, List.nil_append, undone]

/-- A quoted text reads as its text. -/
theorem reads_quoteWith {escapes : List (Nat × Text)} (faithful : Faithful escapes) (t : Text) :
    Reads (quoteWith escapes t) [.string t] := by
  -- Inside the quotes the text is read to its end, by induction on it.
  have inside (read rest : Text) : tokensFrom (.string read)
      (t.flatMap (fun c => (escapes.lookup c).getD [c]) ++ '"'.toNat :: rest) =
        .string (read ++ t) :: tokensFrom .between rest := by
    induction t generalizing read with
    | nil =>
      have ends : step '"'.toNat (.string read) = ([.string read], .between) := rfl
      rw [List.flatMap_nil, List.nil_append, List.append_nil, tokensFrom_cons, ends]
      rfl
    | cons c t ih =>
      rw [List.flatMap_cons, List.append_assoc, tokensFrom_point faithful, ih, List.append_assoc,
        List.singleton_append]
  intro c _ rest
  have quote : Text.ofString "\"" = ['"'.toNat] := rfl
  rw [quoteWith, quote, List.append_assoc, List.append_assoc, List.singleton_append,
    tokensFrom_cons]
  exact inside [] (c :: rest)

/-! ## Lists -/

section Lists

variable {s t : Text} {ts us : List Token} {items : List Text} {parts : List (List Token)}

/-- A blank between tokens. -/
def IsBlank (c : Nat) : Prop := c = ' '.toNat ∨ c = Text.newline

/-- A blank is a delimiter. -/
theorem IsBlank.mem {c : Nat} (h : IsBlank c) : c ∈ delimiters := by
  rcases h with rfl | rfl <;> decide

/-- Blanks give no tokens. -/
theorem tokensFrom_blanks {lead rest : Text} (blank : ∀ c ∈ lead, IsBlank c) :
    tokensFrom .between (lead ++ rest) = tokensFrom .between rest := by
  induction lead with
  | nil => rfl
  | cons c lead ih =>
    rw [List.forall_mem_cons] at blank
    have none : step c .between = ([], .between) := by
      rcases blank.1 with rfl | rfl <;> rfl
    rw [List.cons_append, tokensFrom_cons, none, List.nil_append, ih blank.2]

/-- Nothing is read as no tokens. -/
theorem reads_nil : Reads [] [] := fun _ _ _ => rfl

/-- Blanks before a text. -/
theorem Reads.indented {lead : Text} (h : Reads t ts) (blank : ∀ c ∈ lead, IsBlank c) :
    Reads (lead ++ t) ts := by
  intro c hc rest
  rw [List.append_assoc, tokensFrom_blanks blank, h c hc]

/-- Two texts with a blank between them. -/
theorem Reads.append {c : Nat} (hs : Reads s ts) (ht : Reads t us) (blank : IsBlank c) :
    Reads (s ++ [c] ++ t) (ts ++ us) := by
  intro d hd rest
  have skipped :
      tokensFrom .between ([c] ++ (t ++ d :: rest)) = tokensFrom .between (t ++ d :: rest) :=
    tokensFrom_blanks (List.forall_mem_singleton.mpr blank)
  rw [List.append_assoc, List.append_assoc, List.singleton_append, hs c blank.mem,
    ← List.singleton_append, skipped, ht d hd, List.append_assoc]

/-- Texts with blanks between them. -/
theorem reads_join {c : Nat} (h : List.Forall₂ Reads items parts) (blank : IsBlank c) :
    Reads (Text.join [c] items) parts.flatten := by
  induction h with
  | nil => exact reads_nil
  | @cons s ts items parts first rest ih =>
    cases rest with
    | nil =>
      rw [List.flatten_cons, List.flatten_nil, List.append_nil]
      exact first
    | cons second rest =>
      rw [List.flatten_cons]
      exact first.append ih blank

/-- A list between parentheses, with blanks after its items. -/
theorem reads_parentheses {trail : Text} (h : Reads t ts) (blank : ∀ c ∈ trail, IsBlank c) :
    Reads ("(" ++ t ++ trail ++ ")") (.opening :: (ts ++ [.closing])) := by
  have opening : Text.ofString "(" = ['('.toNat] := rfl
  have closing : Text.ofString ")" = [')'.toNat] := rfl
  intro c _ rest
  -- After the items comes a blank or the closing parenthesis, each of which ends a token.
  have inside : tokensFrom .between (t ++ (trail ++ ')'.toNat :: c :: rest)) =
      ts ++ tokensFrom .between (')'.toNat :: c :: rest) := by
    cases trail with
    | nil => exact h _ (by decide) _
    | cons d trail =>
      rw [List.cons_append, h d (blank d List.mem_cons_self).mem, ← List.cons_append,
        tokensFrom_blanks blank]
  rw [opening, closing]
  simp only [List.append_assoc, List.cons_append]
  rw [tokensFrom_cons]
  show Token.opening :: tokensFrom .between (t ++ (trail ++ ')'.toNat :: c :: rest)) = _
  rw [inside]
  rfl

/-- A list on one line is read as its parts in parentheses. -/
theorem reads_compactList (h : List.Forall₂ Reads items parts) :
    Reads (compactList items) (.opening :: (parts.flatten ++ [.closing])) := by
  have blank : Text.ofString " " = [' '.toNat] := rfl
  have none : ∀ c ∈ ([] : Text), IsBlank c := nofun
  have list := reads_parentheses (reads_join h (.inl rfl)) none
  rw [List.append_nil] at list
  rw [compactList, blank]
  exact list

/-- The lines of a broken list have the tokens of its items. -/
theorem reads_brokenLines {lead : Text} (blank : ∀ c ∈ lead, IsBlank c)
    (h : List.Forall₂ Reads items parts) : ∃ lines,
      List.Forall₂ Reads (brokenLines lead items) lines ∧ lines.flatten = parts.flatten := by
  have space : Text.ofString " " = [' '.toNat] := rfl
  -- Along the recursion of `brokenLines`: a keyword and its value share a line.
  induction items using brokenLines.induct generalizing parts with
  | case1 =>
    cases h
    exact ⟨[], .nil, rfl⟩
  | case2 part =>
    obtain ⟨ts, _, first, ⟨⟩, rfl⟩ := List.forall₂_cons_left_iff.mp h
    exact ⟨[ts], .cons (first.indented blank) .nil, rfl⟩
  | case3 part value rest keyword ih =>
    obtain ⟨ts, _, first, more, rfl⟩ := List.forall₂_cons_left_iff.mp h
    obtain ⟨us, parts, second, others, rfl⟩ := List.forall₂_cons_left_iff.mp more
    obtain ⟨lines, read, same⟩ := ih others
    refine ⟨(ts ++ us) :: lines, ?_, ?_⟩
    · rw [brokenLines, if_pos keyword, space]
      exact .cons ((first.indented blank).append second (.inl rfl)) read
    · rw [List.flatten_cons, same, List.flatten_cons, List.flatten_cons, List.append_assoc]
  | case4 part value rest plain ih =>
    obtain ⟨ts, _, first, more, rfl⟩ := List.forall₂_cons_left_iff.mp h
    obtain ⟨lines, read, same⟩ := ih more
    refine ⟨ts :: lines, ?_, ?_⟩
    · rw [brokenLines, if_neg plain]
      exact .cons (first.indented blank) read
    · rw [List.flatten_cons, same, List.flatten_cons]

/-- Indentation is blank. -/
theorem isBlank_times (n : Nat) : ∀ c ∈ Text.times n "  ", IsBlank c := by
  intro c hc
  obtain ⟨s, hs, hc⟩ := List.mem_flatten.mp hc
  rw [List.eq_of_mem_replicate hs] at hc
  have blank : ∀ c ∈ Text.ofString "  ", c = ' '.toNat := by decide
  exact .inl (blank c hc)

/-- A list has the tokens of its items, on one line or on several. -/
theorem reads_layOut (indent : Nat) (h : List.Forall₂ Reads items parts) :
    Reads (layOut indent items) (.opening :: (parts.flatten ++ [.closing])) := by
  cases h with
  | nil => exact reads_compactList .nil
  | @cons s ts items parts first rest =>
    rw [layOut]
    split_ifs with fits
    · exact reads_compactList (.cons first rest)
    · obtain ⟨lines, read, same⟩ := reads_brokenLines (isBlank_times (indent + 1)) rest
      have inside := reads_join (.cons first read) (.inr rfl)
      rw [List.flatten_cons, same, ← List.flatten_cons] at inside
      have trail : ∀ c ∈ [Text.newline] ++ Text.times indent "  ", IsBlank c :=
        List.forall_mem_append.mpr ⟨List.forall_mem_singleton.mpr (.inr rfl), isBlank_times indent⟩
      have list := reads_parentheses inside trail
      rwa [← List.append_assoc] at list

end Lists

/-! ## The tokens of an S-expression -/

/-- A name that is written without escapes and is no number: letters, hyphens and a colon, of which a
letter or the colon comes first. -/
def isName (name : Text) : Bool :=
  name.head?.any (58 ≤ ·) && name.all (fun c => c == 45 || c == 58 || (97 ≤ c && c ≤ 122)) &&
    name != Text.ofString "nan" && name != Text.ofString "inf"

/-- S-expressions of names, texts and numbers. -/
inductive Plain : SExpr → Prop
  | symbol {name : Text} (named : isName name = true) : Plain (.symbol name)
  | text (t : Text) : Plain (.raw (.text t))
  | int (n : Int) : Plain (.raw (.int n))
  | num (d : Double) : Plain (.raw (.num d))
  | list {items : List SExpr} (each : ∀ s ∈ items, Plain s) : Plain (.list items)

mutual

/-- The tokens of such an S-expression. -/
def tokens : SExpr → List Token
  | .symbol name => [.word name]
  | .raw (.text t) => [.string t]
  | .raw (.int n) => [.word (Text.ofInt n)]
  | .raw (.num d) => [.word d.text]
  | .raw _ => []
  | .list items => .opening :: ((tokensOf items).flatten ++ [.closing])

/-- The tokens of each of some S-expressions. -/
def tokensOf : List SExpr → List (List Token)
  | [] => []
  | s :: rest => tokens s :: tokensOf rest

end

/-- No letter, digit or sign ends a word. -/
theorem not_mem_delimiters {c : Nat} (h : 42 < c) : c ∉ delimiters := by
  have low : ∀ d ∈ delimiters, d ≤ 42 := by decide
  exact fun known => absurd (low c known) (by omega)

section Names

variable {name : Text}

/-- The code points of a name are small letters and two marks. -/
theorem points_of_isName (named : isName name = true) :
    ∀ c ∈ name, c = 45 ∨ c = 58 ∨ 97 ≤ c ∧ c ≤ 122 := by
  simp only [isName, Bool.and_eq_true, List.all_eq_true, Bool.or_eq_true, beq_iff_eq,
    decide_eq_true_iff, or_assoc] at named
  exact named.1.1.2

/-- A name starts with a letter or a colon. -/
theorem head_of_isName (named : isName name = true) : ∃ c rest, name = c :: rest ∧ 58 ≤ c := by
  cases name with
  | nil => cases named
  | cons c rest =>
    simp only [isName, Bool.and_eq_true] at named
    exact ⟨c, rest, rfl, of_decide_eq_true named.1.1.1⟩

/-- No name is one of the words for numbers. -/
theorem ne_of_isName (named : isName name = true) : name ≠ "nan" ∧ name ≠ "inf" := by
  simp only [isName, Bool.and_eq_true, bne_iff_ne] at named
  exact ⟨named.1.2, named.2⟩

/-- A name is a word. -/
theorem isWord_of_isName (named : isName name = true) : IsWord name := by
  obtain ⟨c, rest, rfl, -⟩ := head_of_isName named
  refine ⟨List.cons_ne_nil _ _, fun d hd => not_mem_delimiters ?_⟩
  have := points_of_isName named d hd
  omega

/-- A name is its own symbol. -/
theorem compactSymbol_of_isName (named : isName name = true) : compactSymbol name = name := by
  have plain : ∀ c ∈ symbolSpecials, c ≠ 45 ∧ c ≠ 58 ∧ (c < 97 ∨ 122 < c) := by decide
  have each : ∀ c ∈ name, (if symbolSpecials.contains c then ['\\'.toNat, c] else [c]) = [c] := by
    refine fun c hc => if_neg fun special => ?_
    have apart := plain c (List.contains_iff_mem.mp special)
    have point := points_of_isName named c hc
    omega
  rw [compactSymbol, List.flatMap_congr each, List.flatMap_singleton']

end Names

/-- An integer is written in digits, perhaps after a sign. -/
theorem digits_ofInt (n : Int) : ∀ c ∈ Text.ofInt n, c = 45 ∨ IsDigit c := by
  cases n with
  | ofNat n => exact fun c hc => .inr (isDigit_ofNat n c hc)
  | negSucc n =>
    rintro c (_ | ⟨_, hc⟩)
    · exact .inl rfl
    · exact .inr (isDigit_ofNat _ c hc)

/-- An integer is a word. -/
theorem isWord_ofInt (n : Int) : IsWord (Text.ofInt n) := by
  refine ⟨?_, fun c hc => not_mem_delimiters ?_⟩
  · cases n with
    | ofNat n => exact List.length_pos_iff.mp (length_ofNat_pos n)
    | negSucc n => exact List.cons_ne_nil _ _
  · rcases digits_ofInt n c hc with rfl | digit
    · decide
    · have := digit.1
      omega

/-- A numeral is a word. -/
theorem isWord_numeral {t : Text} (h : Double.IsNumeral t) : IsWord t := by
  have marks : ∀ c ∈ Double.numeralMarks, 42 < c := by decide
  obtain ⟨digits, some, marked, points⟩ := h
  refine ⟨List.append_ne_nil_of_left_ne_nil some _, ?_⟩
  rw [List.forall_mem_append, List.forall_mem_cons]
  refine ⟨fun c hc => not_mem_delimiters ?_, not_mem_delimiters ?_, fun c hc => not_mem_delimiters ?_⟩
  · have := (digits c hc).1
    omega
  · rcases marked with rfl | rfl <;> decide
  · rcases points c hc with digit | mark
    · have := digit.1
      omega
    · exact marks c mark

/-- A number is a word. -/
theorem isWord_text (d : Double) : IsWord d.text := by
  have word {t : Text} (some : t ≠ []) (points : ∀ c ∈ t, 42 < c) : IsWord t :=
    ⟨some, fun c hc => not_mem_delimiters (points c hc)⟩
  have text := Double.isNumberText_text d
  generalize d.text = t at text
  cases text with
  | nan | infinite | negInfinite => exact word (by decide) (by decide)
  | finite numeral => exact isWord_numeral numeral
  | negative numeral =>
    obtain ⟨-, points⟩ := isWord_numeral numeral
    exact ⟨List.cons_ne_nil _ _, List.forall_mem_cons.mpr ⟨by decide, points⟩⟩

/-! ## Written S-expressions -/

/-- The broken form has the tokens of the S-expression. -/
theorem reads_pretty {s : SExpr} (plain : Plain s) (indent : Nat) :
    Reads (s.pretty indent) s.tokens := by
  -- By induction on the expression: each one is read as its own tokens.
  induction plain generalizing indent with
  | symbol named =>
    rw [pretty, tokens]
    exact reads_word (isWord_of_isName named)
  | text t => exact reads_quoteWith faithful_pretty t
  | int n => exact reads_word (isWord_ofInt n)
  | num d => exact reads_word (isWord_text d)
  | @list items each ih =>
    rw [pretty, tokens]
    -- A list is laid out in lines, which are read one after the other.
    refine reads_layOut indent ?_
    clear each
    induction items with
    | nil => exact .nil
    | cons s rest ih' =>
      rw [List.forall_mem_cons] at ih
      exact .cons (ih.1 _) (ih' ih.2)

/-- The one-line form exists and has the tokens of the S-expression. -/
theorem reads_compact {s : SExpr} (plain : Plain s) : ∃ t, s.compact = .ok t ∧ Reads t s.tokens := by
  -- By induction on the expression: its compact text exists, and it is read as its tokens.
  induction plain with
  | @symbol name named =>
    refine ⟨name, ?_, reads_word (isWord_of_isName named)⟩
    rw [compact, compactSymbol_of_isName named]
  | text t => exact ⟨_, rfl, reads_quoteWith faithful_compact t⟩
  | int n => exact ⟨_, rfl, reads_word (isWord_ofInt n)⟩
  | num d => exact ⟨_, rfl, reads_word (isWord_text d)⟩
  | @list items each ih =>
    -- The items are written one by one, each with its own text.
    have parts : ∃ ts, compactItems items = .ok ts ∧ List.Forall₂ Reads ts (tokensOf items) := by
      clear each
      induction items with
      | nil => exact ⟨[], rfl, .nil⟩
      | cons s rest ih' =>
        rw [List.forall_mem_cons] at ih
        obtain ⟨t, first, read⟩ := ih.1
        obtain ⟨ts, others, reads⟩ := ih' ih.2
        refine ⟨t :: ts, ?_, .cons read reads⟩
        rw [compactItems, first, others]
        rfl
    obtain ⟨ts, written, reads⟩ := parts
    refine ⟨compactList ts, ?_, reads_compactList reads⟩
    rw [compact, written]
    rfl

/-! ## No two S-expressions have the same tokens -/

/-- No name is written like an integer. -/
theorem ofInt_ne_name {name : Text} (named : isName name = true) (n : Int) : Text.ofInt n ≠ name := by
  rintro rfl
  obtain ⟨c, rest, same, large⟩ := head_of_isName named
  rcases digits_ofInt n c (same ▸ List.mem_cons_self) with rfl | digit
  · omega
  · have := digit.2
    omega

/-- No name is written like another number. -/
theorem text_ne_name {name : Text} (named : isName name = true) (d : Double) : d.text ≠ name := by
  intro same
  obtain ⟨nan, inf⟩ := ne_of_isName named
  obtain ⟨c, rest, head, large⟩ := head_of_isName named
  have text := Double.isNumberText_text d
  -- A number begins with a digit or a sign, unless it is one of three words.
  rw [same] at text
  cases text with
  | nan => exact nan rfl
  | infinite => exact inf rfl
  | negInfinite =>
    rw [← (List.cons.inj head).1] at large
    exact absurd large (by decide)
  | finite numeral =>
    rw [head] at numeral
    have := numeral.isDigit.2
    omega
  | negative numeral =>
    rw [← (List.cons.inj head).1] at large
    exact absurd large (by decide)

/-- No integer is written like another number, which has a point, an exponent or letters. -/
theorem text_ne_ofInt (d : Double) (n : Int) : d.text ≠ Text.ofInt n := by
  intro same
  have points := digits_ofInt n
  have text := Double.isNumberText_text d
  rw [same] at text
  generalize Text.ofInt n = t at points text
  have other {c : Nat} (hc : c ∈ t) : c = 45 ∨ 48 ≤ c ∧ c < 58 := points c hc
  have plain {u : Text} (numeral : Double.IsNumeral u) (inside : ∀ c ∈ u, c ∈ t) : False := by
    obtain ⟨-, -, marked, -⟩ := numeral
    have := other (inside _ (List.mem_append_right _ List.mem_cons_self))
    rcases marked with rfl | rfl <;> exact absurd this (by decide)
  cases text with
  | nan | infinite | negInfinite => exact absurd (other (c := 110) (by decide)) (by decide)
  | finite numeral => exact plain numeral fun c hc => hc
  | negative numeral => exact plain numeral fun c hc => List.mem_cons_of_mem _ hc

/-- The tokens of an S-expression do not begin with a closing parenthesis. -/
theorem tokens_head {s : SExpr} (plain : Plain s) (rest : List Token) :
    ∃ t more, s.tokens ++ rest = t :: more ∧ t ≠ .closing := by
  cases plain with
  | symbol | text | int | num => exact ⟨_, _, rfl, nofun⟩
  | list => exact ⟨_, _, rfl, nofun⟩

/-- The items of a list are determined by their tokens when each item is. -/
theorem items_eq_of_tokens {items items' : List SExpr} {rest rest' : List Token}
    (each : ∀ s ∈ items, ∀ s', Plain s' → ∀ rest rest', s.tokens ++ rest = s'.tokens ++ rest' →
      s = s' ∧ rest = rest')
    (plain : ∀ s ∈ items, Plain s) (plain' : ∀ s ∈ items', Plain s)
    (same : (tokensOf items).flatten ++ .closing :: rest =
      (tokensOf items').flatten ++ .closing :: rest') : items = items' ∧ rest = rest' := by
  -- By induction on the items: the closing token ends both rows at once.
  induction items generalizing items' with
  | nil =>
    cases items' with
    | nil => exact ⟨rfl, (List.cons.inj same).2⟩
    -- An item never begins with the closing token.
    | cons s' items' =>
      obtain ⟨t, more, head, other⟩ := tokens_head (plain' s' List.mem_cons_self)
        ((tokensOf items').flatten ++ .closing :: rest')
      rw [tokensOf, tokensOf, List.flatten_cons, List.append_assoc, head] at same
      exact (other (List.cons.inj same).1.symm).elim
  | cons s items ih =>
    cases items' with
    | nil =>
      obtain ⟨t, more, head, other⟩ := tokens_head (plain s List.mem_cons_self)
        ((tokensOf items).flatten ++ .closing :: rest)
      rw [tokensOf, tokensOf, List.flatten_cons, List.append_assoc, head] at same
      exact (other (List.cons.inj same).1).elim
    | cons s' items' =>
      rw [List.forall_mem_cons] at each plain plain'
      rw [tokensOf, tokensOf, List.flatten_cons, List.flatten_cons, List.append_assoc,
        List.append_assoc] at same
      obtain ⟨rfl, others⟩ := each.1 s' plain'.1 _ _ same
      obtain ⟨rfl, rfl⟩ := ih each.2 plain.2 plain'.2 others
      exact ⟨rfl, rfl⟩

/-- The tokens determine the S-expression, whatever comes after them. -/
theorem eq_of_tokens {s s' : SExpr} (plain : Plain s) (plain' : Plain s') {rest rest' : List Token}
    (same : s.tokens ++ rest = s'.tokens ++ rest') : s = s' ∧ rest = rest' := by
  -- By induction on the first expression, by whose first token the second has the same form.
  induction plain generalizing s' rest rest' with
  | symbol named =>
    cases plain' with
    | symbol => cases same; exact ⟨rfl, rfl⟩
    -- A name is not the text of a number.
    | int n => exact (ofInt_ne_name named n (Token.word.inj (List.cons.inj same).1).symm).elim
    | num d => exact (text_ne_name named d (Token.word.inj (List.cons.inj same).1).symm).elim
    | text | list => cases same
  | text t =>
    cases plain' with
    | text => cases same; exact ⟨rfl, rfl⟩
    | _ => cases same
  | int n =>
    cases plain' with
    | symbol named => exact (ofInt_ne_name named n (Token.word.inj (List.cons.inj same).1)).elim
    | int k =>
      obtain ⟨word, others⟩ := List.cons.inj same
      rw [Text.ofInt_injective (Token.word.inj word)]
      exact ⟨rfl, others⟩
    | num d => exact (text_ne_ofInt d n (Token.word.inj (List.cons.inj same).1).symm).elim
    | text | list => cases same
  | num d =>
    cases plain' with
    | symbol named => exact (text_ne_name named d (Token.word.inj (List.cons.inj same).1)).elim
    | int n => exact (text_ne_ofInt d n (Token.word.inj (List.cons.inj same).1)).elim
    | num d' =>
      obtain ⟨word, others⟩ := List.cons.inj same
      rw [Double.text_injective (Token.word.inj word)]
      exact ⟨rfl, others⟩
    | text | list => cases same
  | @list items each ih =>
    cases plain' with
    | @list items' each' =>
      rw [tokens, tokens, List.cons_append, List.cons_append, List.append_assoc, List.append_assoc,
        List.singleton_append, List.singleton_append] at same
      -- The rows end where their parentheses close.
      obtain ⟨rfl, others⟩ := items_eq_of_tokens
        (fun s hs s' plain' rest rest' same => ih s hs plain' same) each each' (List.cons.inj same).2
      exact ⟨rfl, others⟩
    | _ => cases same

/-- No two S-expressions are written alike in the broken form. -/
theorem pretty_injective {s s' : SExpr} (plain : Plain s) (plain' : Plain s')
    (same : s.pretty 0 = s'.pretty 0) : s = s' := by
  have read := reads_pretty plain 0 Text.newline (by decide) []
  have read' := reads_pretty plain' 0 Text.newline (by decide) []
  rw [same, read'] at read
  exact (eq_of_tokens plain plain' read.symm).1

/-- No two S-expressions are written alike on one line. -/
theorem compact_injective {s s' : SExpr} (plain : Plain s) (plain' : Plain s')
    (same : s.compact = s'.compact) : s = s' := by
  obtain ⟨t, written, reads⟩ := reads_compact plain
  obtain ⟨t', written', reads'⟩ := reads_compact plain'
  obtain rfl : t = t' := Except.ok.inj (written.symm.trans (same.trans written'))
  have read := reads Text.newline (by decide) []
  rw [reads' Text.newline (by decide) []] at read
  exact (eq_of_tokens plain plain' read.symm).1

end TailLoop.SExpr
