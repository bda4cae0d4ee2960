import TailLoop.Proofs.Reading.Strings
import TailLoop.Source.Reader

/-!
# Places in a text

A place is given by two offsets: its lines and columns are those of the offsets
(`Location.between`), and its text is what stands between them (`slice`). `IsToken` tells which
stretches of a text can be taken as a token, `Skips` which ones are passed over, and `Tokens` which
ones are tokens with nothing but white space and comments between them. The texts that nodes start
and end with, and those of the nodes without further nodes, are given kind by kind (`Shape.opening`,
`Shape.closing`, `Shape.IsReadFrom`).
-/

namespace TailLoop

/-! ## Offsets -/

/-- The line of an offset, counted from one: one more than the line feeds before it. -/
def lineAt (source : Text) (offset : Nat) : Nat := 1 + (source.take offset).count Text.newline

/-- The column of an offset, counted from one: one more than the code points between the last line
feed and it. -/
def columnAt (source : Text) (offset : Nat) : Nat :=
  1 + ((source.take offset).reverse.takeWhile (· != Text.newline)).length

/-- The place between two offsets of a text. -/
def Location.between (file source : Text) (start stop : Nat) : Location where
  file := file
  line := lineAt source start
  column := columnAt source start
  start := start
  stop := stop
  endLine := lineAt source stop
  endColumn := columnAt source stop

namespace Source

open Grammar

variable {file source x : Text} {a b c d start stop n : Nat}

/-- The text between two offsets. -/
def slice (source : Text) (start stop : Nat) : Text := (source.take stop).drop start

/-- The text between two offsets has as many code points as lie between them. -/
theorem length_slice (inside : stop ≤ source.length) :
    (slice source start stop).length = stop - start := by
  rw [slice, List.length_drop, List.length_take, Nat.min_eq_left inside]

/-- The text of a stretch starts with those of the stretches at its start. -/
theorem slice_prefix (le : b ≤ c) : slice source a b <+: slice source a c := by
  have whole : source.take b <+: source.take c := List.take_prefix_take_left le
  exact whole.drop a

/-- The text of a stretch ends with those of the stretches at its end. -/
theorem slice_suffix (le : a ≤ b) : slice source b c <:+ slice source a c := by
  have later : slice source b c = (slice source a c).drop (b - a) := by
    rw [slice, slice, List.drop_drop, Nat.add_sub_cancel' le]
  rw [later]
  exact List.drop_suffix _ _

/-- The text between two offsets is the middle one of three. -/
theorem slice_append (pre mid post : Text) :
    slice (pre ++ mid ++ post) pre.length (pre ++ mid).length = mid := by
  rw [slice, List.take_left, List.drop_left]

/-- The position after the code points of a text. -/
def Position.after (t : Text) : Position := ⟨t.length, lineAt t t.length, columnAt t t.length⟩

/-- Going on after a text comes to the position after both. -/
theorem Position.advance_after (t u : Text) :
    (Position.after t).advance u = Position.after (t ++ u) := by
  induction u generalizing t with
  | nil => rw [List.append_nil, Position.advance]
  | cons c u ih =>
    have step : (if c = Text.newline then
        (⟨(after t).offset + 1, (after t).line + 1, 1⟩ : Position)
        else ⟨(after t).offset + 1, (after t).line, (after t).column + 1⟩) = after (t ++ [c]) := by
      unfold after lineAt columnAt
      rw [List.take_length, List.take_length, List.count_append, List.reverse_append,
        List.reverse_singleton, List.singleton_append, List.takeWhile_cons, List.length_append]
      by_cases feed : c = Text.newline
      · simp [feed, Nat.add_assoc]
      · simp [feed, Nat.add_comm]
    rw [Position.advance, step, ih, List.append_assoc, List.singleton_append]

/-- The stretch of some code points of a text is the place between their offsets. -/
theorem stretch_eq_between (file pre mid post : Text) :
    stretch file (.after pre) (.after (pre ++ mid)) =
      .between file (pre ++ mid ++ post) pre.length (pre ++ mid).length := by
  have start : (pre ++ mid ++ post).take pre.length = pre := by
    rw [List.append_assoc, List.take_left]
  have stop : (pre ++ mid ++ post).take (pre ++ mid).length = pre ++ mid := List.take_left
  simp only [stretch, Position.after, Location.between, lineAt, columnAt, start, stop,
    List.take_length]

/-- From the start of one place to the end of another. -/
theorem joined_between : joined (.between file source a b) (.between file source c d) =
    .between file source a d := rfl

/-! ## How much is cut from a text -/

/-- A comment takes no more than there is. -/
theorem le_of_commentRest {t : Text} (h : commentRest? t = some n) : n ≤ t.length := by
  induction t generalizing n with
  | nil => cases h
  | cons c t ih =>
    rw [commentRest?] at h
    split at h
    · rename_i closes
      cases h
      cases t with
      | nil => cases closes.2
      | cons => exact Nat.le_add_left 2 _
    · obtain ⟨m, inner, rfl⟩ := Option.map_eq_some_iff.mp h
      exact Nat.succ_le_succ (ih inner)

/-- What is skipped is something, and no more than there is. -/
theorem bounds_of_skip {t : Text} (h : skipLength? t = some n) : 0 < n ∧ n ≤ t.length := by
  cases t with
  | nil => cases h
  | cons c rest =>
    rw [skipLength_cons] at h
    -- White space is taken as far as it goes.
    split at h
    · cases h
      have most := (List.takeWhile_sublist isSpace (l := rest)).length_le
      rw [List.length_cons]
      omega
    -- A slash may begin a comment, up to the end of the line or to its closing.
    · split at h
      · cases rest with
        | nil => cases h
        | cons d more =>
          dsimp only at h
          split at h
          · cases h
            have most := (List.takeWhile_sublist (· != Text.newline) (l := more)).length_le
            rw [List.length_cons, List.length_cons]
            omega
          · split at h
            · obtain ⟨m, inner, rfl⟩ := Option.map_eq_some_iff.mp h
              have most := le_of_commentRest inner
              rw [List.length_cons, List.length_cons]
              omega
            · cases h
      · cases h

/-- A name takes something, and no more than there is. -/
theorem bounds_of_name {t : Text} (h : nameLength? t = some n) : 0 < n ∧ n ≤ t.length := by
  cases t with
  | nil => cases h
  | cons c rest =>
    rw [nameLength?] at h
    split at h
    · cases h
      have most := (List.takeWhile_sublist Text.isNamePart (l := rest)).length_le
      rw [List.length_cons]
      omega
    · cases h

/-- The digits at the start of a text are no more than there is. -/
theorem digitsLength_le (t : Text) : digitsLength t ≤ t.length :=
  (List.takeWhile_sublist Text.isDecimal (l := t)).length_le

/-- An exponent takes no more than there is. -/
theorem exponentLength_le (t : Text) : exponentLength t ≤ t.length := by
  cases t with
  | nil => exact Nat.le_refl 0
  | cons e rest =>
    have bound (sign : Nat) : (if digitsLength (rest.drop sign) = 0 then 0
        else 1 + sign + digitsLength (rest.drop sign)) ≤ (e :: rest).length := by
      have most := digitsLength_le (rest.drop sign)
      rw [List.length_drop] at most
      rw [List.length_cons]
      split_ifs <;> omega
    change (if isLetterOf 'e'.toNat e then _ else 0) ≤ _
    split
    · exact bound _
    · exact Nat.zero_le _

/-- A hexadecimal number takes something, and no more than there is. -/
theorem bounds_of_hex {t : Text} (h : hexLength? t = some n) : 0 < n ∧ n ≤ t.length := by
  match t with
  | [] => cases h
  | [_] => cases h
  | z :: x :: rest =>
    rw [hexLength?] at h
    split at h
    · cases h
      have most := (List.takeWhile_sublist Text.isHexDigit (l := rest)).length_le
      rw [List.length_cons, List.length_cons]
      omega
    · cases h

/-- A decimal number takes something, and no more than there is. -/
theorem bounds_of_decimal {t : Text} (h : decimalLength? t = some n) : 0 < n ∧ n ≤ t.length := by
  have whole := digitsLength_le t
  unfold decimalLength? at h
  dsimp only at h
  split at h
  · rename_i c rest left
    have length := congrArg List.length left
    rw [List.length_drop, List.length_cons] at length
    have fraction := digitsLength_le rest
    -- With a point there is a digit before or behind it.
    split at h
    · split at h
      · cases h
      · cases h
        omega
    · split at h
      · cases h
      · cases h
        omega
  -- Without a point there is a digit before.
  · split at h
    · cases h
    · cases h
      omega

/-- A number takes something, and no more than there is. -/
theorem bounds_of_number {t : Text} (h : numberLength? t = some n) : 0 < n ∧ n ≤ t.length := by
  rcases Option.or_eq_some_iff.mp h with hex | ⟨-, decimal⟩
  · exact bounds_of_hex hex
  · obtain ⟨m, inner, rfl⟩ := Option.map_eq_some_iff.mp decimal
    have bounds := bounds_of_decimal inner
    have most := exponentLength_le (t.drop m)
    rw [List.length_drop] at most
    omega

/-- A string takes something, and no more than there is. -/
theorem bounds_of_string {t : Text} (h : stringLength? t = some n) : 0 < n ∧ n ≤ t.length := by
  obtain ⟨x, rest, ⟨quote, inside⟩, rfl, rfl⟩ := stringLength_eq_some_iff.mp h
  refine ⟨Nat.succ_pos _, ?_⟩
  rw [List.length_append]
  exact Nat.le_add_right _ _

/-- A token takes something, and no more than there is. -/
theorem bounds_of_match {allowed : List Terminal} {t : Text} {terminal : Terminal}
    (h : match? allowed t = some (terminal, n)) : 0 < n ∧ n ≤ t.length := by
  unfold match? at h
  dsimp only at h
  -- The token is a name, a number, a string or a fixed text.
  split at h
  · rename_i name
    cases h
    exact bounds_of_name (Option.ite_none_right_eq_some.mp name).2
  · rename_i number
    cases h
    exact bounds_of_number (Option.ite_none_right_eq_some.mp number).2
  · rename_i string
    cases h
    exact bounds_of_string (Option.ite_none_right_eq_some.mp string).2
  · obtain ⟨y, known, begins, rfl⟩ := prefix_of_longestFixed h
    obtain ⟨e, mem, made⟩ := List.mem_filterMap.mp known
    obtain ⟨-, same⟩ := Option.ite_none_right_eq_some.mp made
    cases same
    exact ⟨List.length_pos_iff.mpr (fixed_ne_nil e mem), begins.length_le⟩

/-! ## Tokens and what lies between them -/

/-- The reader can take the stretch between two offsets as a token. -/
def IsToken (source : Text) (start stop : Nat) : Prop :=
  skipLength? (source.drop start) = none ∧
    ∃ allowed terminal n, match? allowed (source.drop start) = some (terminal, n) ∧ stop = start + n

/-- White space and comments reach from one offset of a text to another. -/
inductive Skips (source : Text) : Nat → Nat → Prop
  | refl (a : Nat) : Skips source a a
  | skip {a b n : Nat} (skipped : skipLength? (source.drop a) = some n)
    (rest : Skips source (a + n) b) : Skips source a b

/-- Tokens with nothing but white space and comments between them reach from one offset of a text to
another. -/
inductive Tokens (source : Text) : Nat → Nat → Prop
  | token {a b : Nat} (token : IsToken source a b) : Tokens source a b
  | cons {a b c d : Nat} (token : IsToken source a b) (gap : Skips source b c)
    (rest : Tokens source c d) : Tokens source a d

/-- A token lies in the text and is not empty. -/
theorem IsToken.bounds (h : IsToken source a b) : a < b ∧ b ≤ source.length := by
  obtain ⟨-, allowed, terminal, n, matched, rfl⟩ := h
  have bounds := bounds_of_match matched
  rw [List.length_drop] at bounds
  omega

/-- What is skipped goes forward. -/
theorem Skips.le (h : Skips source a b) : a ≤ b := by
  induction h with
  | refl => exact Nat.le_refl _
  | skip _ _ ih => exact Nat.le_trans (Nat.le_add_right _ _) ih

/-- One stretch is skipped after another. -/
theorem Skips.trans (h : Skips source a b) (h' : Skips source b c) : Skips source a c := by
  induction h with
  | refl => exact h'
  | skip skipped _ ih => exact .skip skipped (ih h')

/-- A row of tokens lies in the text and is not empty. -/
theorem Tokens.bounds (h : Tokens source a b) : a < b ∧ b ≤ source.length := by
  induction h with
  | token token => exact token.bounds
  | cons token gap _ ih =>
    have first := token.bounds
    have between := gap.le
    omega

/-- One row of tokens stands after another. -/
theorem Tokens.append (h : Tokens source a b) (gap : Skips source b c) (h' : Tokens source c d) :
    Tokens source a d := by
  induction h with
  | token token => exact .cons token gap h'
  | cons token gap' _ ih => exact .cons token gap' (ih gap)

/-- A row of tokens starts with what is not skipped. -/
theorem Tokens.solid {a b : Nat} (h : Tokens source a b) : skipLength? (source.drop a) = none := by
  cases h with
  | token token => exact token.1
  | cons token => exact token.1

end Source

/-! ## What nodes are read from -/

namespace Shape

/-- The text that a node starts with before the nodes below it: a keyword, a bracket or an operator.
-/
def opening : Shape Tree → Text
  | .function .. => "function"
  | .returnStatement _ => "return"
  | .block _ => "\x7b"
  | .variableDeclaration .. => "var"
  | .ifStatement .. => "if"
  | .forStatement .. | .forEach .. => "for"
  | .whileStatement .. => "while"
  | .doWhileStatement .. => "do"
  | .jump .breaks _ => "break"
  | .jump .continues _ => "continue"
  | .array _ => "["
  | .unary (.text operator) _ _ => operator
  | .update (.text operator) _ (.bool true) => operator
  | _ => []

/-- The text that a node ends with after the nodes below it: a bracket, an operator or a semicolon. -/
def closing : Shape Tree → Text
  | .returnStatement _ | .doWhileStatement .. | .expressionStatement _ | .jump .. => ";"
  | .block _ => "\x7d"
  | .array _ | .member _ _ (.bool true) => "]"
  | .call .. => ")"
  | .update (.text operator) _ (.bool false) => operator
  | _ => []

/-- What the text of a node has to do with the node. A name is its text, and a literal is what its
text denotes. Other nodes start and end with the texts of their kinds. -/
def IsReadFrom : Shape Tree → Text → Prop
  | .identifier name, s => name = .text s
  | .literal (.num d), s =>
    (∃ rest, Source.numberLength? (s ++ rest) = some s.length) ∧ Literal.number s = .ok d
  | .literal (.text x), s => Source.IsString s ∧ Literal.unquote s = x
  | .literal (.bool b), s => s = if b then "true" else "false"
  | .literal .null, s => s = "null"
  | .emptyStatement, s => s = ";"
  | shape, s => shape.opening <+: s ∧ shape.closing <:+ s

end Shape

end TailLoop
