import TailLoop.Proofs.Reading.Lexemes

/-!
# Strings between quotes

The terminal of strings is a language (`IsString`): a quote, then code points other than that quote,
a backslash and a line feed, or a backslash with any code point but a line feed after it, and the
quote again. The scan of a token finds the one string of the language that a text starts with
(`stringLength_eq_some_iff`). What is written for a text is such a string, whatever stands after it,
and is read as the text that it was written for (`quote_roundTrip`).
-/

namespace TailLoop.Source

open Grammar

/-- What can stand between two quotes. -/
inductive Quotable (q : Nat) : Text → Prop where
  | nil : Quotable q []
  /-- A code point by itself. -/
  | point {c x} (quote : c ≠ q) (backslash : c ≠ '\\'.toNat) (line : c ≠ Text.newline)
      (h : Quotable q x) : Quotable q (c :: x)
  /-- A backslash and the code point after it, which may be a quote or a backslash. -/
  | escape {c x} (line : c ≠ Text.newline) (h : Quotable q x) : Quotable q ('\\'.toNat :: c :: x)

/-- The texts of the terminal of strings. -/
inductive IsString : Text → Prop where
  | mk {q x} (quote : q = '"'.toNat ∨ q = '\''.toNat) (inside : Quotable q x) :
    IsString (q :: (x ++ [q]))

variable {q n : Nat} {t x y : Text}

/-! ## The scan of a string -/

/-- The scan passes over what can stand between quotes and stops behind the quote after it. -/
theorem stringRest_of_quotable (straight : q ≠ '\\'.toNat) (inside : Quotable q x) (rest : Text) :
    stringRest? q false (x ++ q :: rest) = some (x.length + 1) := by
  induction inside with
  | nil => rw [List.nil_append, stringRest?, if_pos rfl, List.length_nil]
  | @point c x quote backslash line _ ih =>
    rw [List.cons_append, stringRest?, if_neg quote, if_neg line,
      beq_eq_false_iff_ne.mpr backslash, ih, Option.map_some, List.length_cons]
  | @escape c x line _ ih =>
    have backslash : '\\'.toNat ≠ Text.newline := by decide
    rw [List.cons_append, List.cons_append, stringRest?, if_neg straight.symm, if_neg backslash,
      beq_self_eq_true, stringRest?, if_neg line, ih, Option.map_some, Option.map_some]
    rfl

/-- Where the scan stops, it has passed over what can stand between quotes. After a backslash the
backslash counts as passed, too. -/
theorem quotable_of_stringRest {escaped : Bool} (found : stringRest? q escaped t = some n) :
    ∃ x rest, Quotable q (if escaped then '\\'.toNat :: x else x) ∧ t = x ++ q :: rest ∧
      n = x.length + 1 := by
  induction t generalizing escaped n with
  | nil => cases escaped <;> cases found
  | cons c t ih =>
    cases escaped with
    | true =>
      rw [stringRest?] at found
      split_ifs at found with line
      obtain ⟨m, inner, rfl⟩ := Option.map_eq_some_iff.mp found
      obtain ⟨x, rest, inside, rfl, rfl⟩ := ih inner
      exact ⟨c :: x, rest, .escape line inside, rfl, rfl⟩
    | false =>
      rw [stringRest?] at found
      split_ifs at found with quote line
      · subst quote
        cases found
        exact ⟨[], t, .nil, rfl, rfl⟩
      · obtain ⟨m, inner, rfl⟩ := Option.map_eq_some_iff.mp found
        obtain ⟨x, rest, inside, rfl, rfl⟩ := ih inner
        refine ⟨c :: x, rest, ?_, rfl, rfl⟩
        -- A backslash and the code point after it are one part of the text, so that what the scan
        -- says after a backslash is already about both of them.
        cases backslash : c == '\\'.toNat with
        | true =>
          rw [backslash] at inside
          rw [beq_iff_eq.mp backslash]
          exact inside
        | false =>
          rw [backslash] at inside
          exact .point quote (beq_eq_false_iff_ne.mp backslash) line inside

/-- The length that is found at the start of a text is that of a string. -/
theorem stringLength_eq_some_iff :
    stringLength? t = some n ↔ ∃ x rest, IsString x ∧ t = x ++ rest ∧ n = x.length := by
  constructor
  -- The string ends at the quote that it begins with.
  · intro found
    cases t with
    | nil => cases found
    | cons q t =>
      rw [stringLength?] at found
      split_ifs at found with quote
      obtain ⟨m, inner, rfl⟩ := Option.map_eq_some_iff.mp found
      obtain ⟨x, rest, inside, rfl, rfl⟩ := quotable_of_stringRest inner
      refine ⟨q :: (x ++ [q]), rest, .mk quote inside, ?_, ?_⟩
      · rw [List.cons_append, List.append_assoc, List.singleton_append]
      · rw [List.length_cons, List.length_append, List.length_singleton]
  -- Conversely, no character inside ends the string.
  · rintro ⟨_, rest, ⟨quote, inside⟩, rfl, rfl⟩
    rename_i q x
    have straight : q ≠ '\\'.toNat := by rcases quote with rfl | rfl <;> decide
    rw [List.cons_append, List.append_assoc, List.singleton_append, stringLength?, if_pos quote,
      stringRest_of_quotable straight inside, Option.map_some, List.length_cons, List.length_append,
      List.length_singleton]

/-- A text starts with one string at most. -/
theorem IsString.eq_of_prefix (hx : IsString x) (hy : IsString y) (px : x <+: t) (py : y <+: t) :
    x = y := by
  obtain ⟨r, same⟩ := px
  obtain ⟨s, rfl⟩ := py
  have first := stringLength_eq_some_iff.2 ⟨x, r, hx, same.symm, rfl⟩
  have second := stringLength_eq_some_iff.2 ⟨y, s, hy, rfl, rfl⟩
  exact (List.append_inj same (Option.some.inj (first.symm.trans second))).1

/-! ## What is written for a text -/

/-- What is written for a text between the quotes can stand there. -/
theorem quotable_flatMap (v : Text) : Quotable '"'.toNat (v.flatMap Literal.escapePoint) := by
  obtain ⟨x, rest, inside, same, length⟩ := quotable_of_stringRest (@staysInside_flatMap [] v)
  rw [(List.append_inj same (Nat.succ.inj length)).1]
  exact inside

/-- A quoted text is a string. -/
theorem isString_quote (v : Text) : IsString (Literal.quote v) :=
  .mk (.inl rfl) (quotable_flatMap v)

/-- Whatever stands after it, what is written for a text is the one string that the terminal matches
there, the reader takes it as a token, and its inside is read as the text. -/
theorem quote_roundTrip (v rest : Text) :
    (∀ x, IsString x ∧ x <+: Literal.quote v ++ rest ↔ x = Literal.quote v) ∧
      stringLength? (Literal.quote v ++ rest) = some (Literal.quote v).length ∧
      (∀ allowed, .string ∈ allowed →
        match? allowed (Literal.quote v ++ rest) = some (.string, (Literal.quote v).length)) ∧
      Literal.unescape ((Literal.quote v).drop 1).dropLast = v := by
  have there : Literal.quote v <+: Literal.quote v ++ rest := List.prefix_append _ _
  refine ⟨fun x => ⟨fun ⟨string, start⟩ => ?_, ?_⟩, ?_, (cuts_string v rest).cut, unquote_quote v⟩
  · exact string.eq_of_prefix (isString_quote v) start there
  · rintro rfl
    exact ⟨isString_quote v, there⟩
  · exact stringLength_eq_some_iff.2 ⟨_, rest, isString_quote v, rfl, rfl⟩

end TailLoop.Source
