import Mathlib.Tactic.IntervalCases
import TailLoop.Proofs.Reading.Numerals
import TailLoop.Proofs.Reading.Texts

/-!
# Texts that are one token

A name, a keyword, a sign, a numeral and a quoted string are cut as one token, whatever other
terminals are tried, as long as what comes after does not make them longer. White space before a
token does not count.
-/

namespace TailLoop.Source

open Grammar
open Text (isDecimal isNameStart isNamePart)

/-! ## White space -/

variable {text rest x : Text} {w : List Token} {c : Nat}

/-- What is skipped at the start of a text: blanks, or a comment. -/
theorem skipLength_cons (c : Nat) (rest : Text) : skipLength? (c :: rest) =
    if isSpace c then some (1 + (rest.takeWhile isSpace).length)
    else if c = '/'.toNat then
      match rest with
      | d :: more =>
        if d = '/'.toNat then some (2 + (more.takeWhile (· != Text.newline)).length)
        else if d = '*'.toNat then (commentRest? more).map (· + 2)
        else none
      | [] => none
    else none := by
  cases rest <;> rfl

/-- Where nothing is skipped no blank comes first. -/
theorem isSpace_head (solid : skipLength? (c :: rest) = none) : isSpace c = false := by
  rw [← Bool.not_eq_true]
  intro space
  rw [skipLength_cons, if_pos space] at solid
  cases solid

/-- What is no white space and no slash is not skipped. -/
theorem solid_of_head (space : isSpace c = false) (slash : c ≠ '/'.toNat) :
    skipLength? (c :: rest) = none := by
  rw [skipLength_cons, if_neg (by rw [space]; exact Bool.false_ne_true), if_neg slash]

/-- Blanks in front of a text may be taken away. -/
theorem Lexes.trim (h : Lexes text w) : Lexes (text.dropWhile isSpace) w := by
  cases h with
  | nil => exact .nil
  | @space c rest _ space h =>
    rw [List.dropWhile_cons, if_pos space]
    exact h
  | @token a x rest w cuts h =>
    obtain ⟨c, more, same⟩ :=
      List.exists_cons_of_ne_nil (List.append_ne_nil_of_left_ne_nil cuts.more rest)
    have solid := isSpace_head (same ▸ cuts.solid)
    have kept : (x ++ rest).dropWhile isSpace = x ++ rest := by
      rw [same, List.dropWhile_cons, if_neg (by rw [solid]; exact Bool.false_ne_true)]
    rw [kept]
    exact .token cuts h

/-- Blanks may be put in front of a text. -/
theorem Lexes.spaces {s : Text} (all : ∀ c ∈ s, isSpace c = true) (h : Lexes text w) :
    Lexes (s ++ text) w := by
  cases s with
  | nil => exact h
  | cons c s =>
    rw [List.forall_mem_cons] at all
    refine .space all.1 ?_
    change Lexes ((s ++ text).dropWhile isSpace) w
    rw [List.dropWhile_append_of_pos all.2]
    exact h.trim

/-! ## Fixed spellings -/

/-- The code points that would make a spelling of a text longer. -/
def continuations (x : Text) : List Nat :=
  Terminal.fixed.filterMap fun e => if x.isPrefixOf e.2.2 then e.2.2[x.length]? else none

/-- A fixed text that goes on after another one goes on with one of its continuations. -/
theorem mem_continuations {e : Terminal × Text × Text} (known : e ∈ Terminal.fixed)
    (begins : x <+: e.2.2) (next : e.2.2[x.length]? = some c) : c ∈ continuations x :=
  List.mem_filterMap.mpr ⟨e, known, by rw [if_pos
    (List.isPrefixOf_iff_prefix.mpr begins)]; exact next⟩

/-- Nothing that can come after the spelling makes it longer. -/
theorem length_le_of_prefix {e : Terminal × Text × Text} (known : e ∈ Terminal.fixed)
    (ends : ∀ c ∈ rest.head?, c ∉ continuations x) (begins : e.2.2 <+: x ++ rest) :
    e.2.2.length ≤ x.length := by
  by_contra long
  have long : x.length < e.2.2.length := Nat.lt_of_not_le long
  have inside : x <+: e.2.2 :=
    List.prefix_of_prefix_length_le (List.prefix_append x rest) begins long.le
  obtain ⟨z, same⟩ := begins
  have within : (e.2.2 ++ z)[x.length]? = e.2.2[x.length]? := List.getElem?_append_left long
  have next : e.2.2[x.length]? = rest.head? := by
    rw [← within, same, List.getElem?_append_right le_rfl, Nat.sub_self, List.head?_eq_getElem?]
  have there : e.2.2[x.length]? = some e.2.2[x.length] := List.getElem?_eq_getElem long
  exact ends _ (next ▸ there) (mem_continuations known inside there)

/-- What is found is one of the spellings. -/
theorem prefix_of_longestFixed {table : List (Terminal × Text)} {a : Terminal} {n : Nat}
    (h : longestFixed? text table = some (a, n)) :
    ∃ y, (a, y) ∈ table ∧ y <+: text ∧ y.length = n := by
  induction table with
  | nil => cases h
  | cons e rest ih =>
    rw [longestFixed?] at h
    split at h
    · rename_i found
      cases h
      rw [Bool.and_eq_true] at found
      exact ⟨e.2, List.mem_cons_self, List.isPrefixOf_iff_prefix.mp found.1, rfl⟩
    · obtain ⟨y, known, begins, length⟩ := ih h
      exact ⟨y, List.mem_cons_of_mem _ known, begins, length⟩

/-- Something at least as long as each spelling at the start of a text is found. -/
theorem le_longestFixed {table : List (Terminal × Text)} {a : Terminal} (known : (a, x) ∈ table)
    (begins : x <+: text) :
    ∃ b n, longestFixed? text table = some (b, n) ∧ x.length ≤ n := by
  -- By induction on the table: the longest text so far is kept unless a longer one begins the text.
  induction table with
  | nil => cases known
  | cons e rest ih =>
    rw [longestFixed?]
    rcases List.mem_cons.mp known with rfl | known
    · have starts : text.startsWith x = true := List.isPrefixOf_iff_prefix.mpr begins
      cases other : longestFixed? text rest with
      | none =>
        refine ⟨a, x.length, ?_, le_rfl⟩
        simp only [starts, Option.all_none, Bool.and_self, if_true]
      | some r =>
        -- The text itself is longer than the others, or it is not.
        by_cases less : r.2 < x.length
        · refine ⟨a, x.length, ?_, le_rfl⟩
          simp only [starts, Option.all_some, less, decide_true, Bool.and_self, if_true]
        · refine ⟨r.1, r.2, ?_, Nat.le_of_not_lt less⟩
          simp only [Option.all_some, less, decide_false, Bool.and_false, Bool.false_eq_true,
            if_false]
    · obtain ⟨b, n, other, least⟩ := ih known
      simp only [other, Option.all_some]
      split
      · rename_i longer
        rw [Bool.and_eq_true, decide_eq_true_eq] at longer
        exact ⟨_, _, rfl, least.trans longer.2.le⟩
      · exact ⟨b, n, rfl, least⟩

/-- The one spelling at the start of a text that is not the beginning of a longer one is found. -/
theorem longestFixed_of_mem {table : List (Terminal × Text)} {a : Terminal}
    (known : (a, x) ∈ table) (begins : x <+: text)
    (longest : ∀ e ∈ table, e.2 <+: text → e.2.length ≤ x.length)
    (unique : ∀ e ∈ table, e.2 = x → e.1 = a) : longestFixed? text table = some (a, x.length) := by
  obtain ⟨b, n, found, least⟩ := le_longestFixed known begins
  obtain ⟨y, known', begins', rfl⟩ := prefix_of_longestFixed found
  have length : y.length = x.length := (longest _ known' begins').antisymm least
  have same : y = x := by
    rw [List.prefix_iff_eq_take.mp begins, List.prefix_iff_eq_take.mp begins', length]
  have kind : b = a := unique _ known' same
  rw [found, kind, length]

/-- No two terminals have the same fixed text. -/
theorem fixed_unique : ∀ e ∈ Terminal.fixed, ∀ e' ∈ Terminal.fixed, e.2.2 = e'.2.2 → e.1 = e'.1 := by
  decide +kernel

/-- No fixed text is empty. -/
theorem fixed_ne_nil : ∀ e ∈ Terminal.fixed, e.2.2 ≠ [] := by decide

/-- A keyword has a fixed text. -/
theorem mem_fixed_of_keyword {e : Terminal × Text × Text} (known : e ∈ Terminal.keywordTable) :
    e ∈ Terminal.fixed := by
  simp only [Terminal.fixed, List.mem_append]
  exact .inl (.inl (.inl known))

/-- The fixed texts that are tried: those of the allowed terminals, without keywords where a name is
allowed. -/
theorem mem_fixedCandidates {allowed : List Terminal} {a : Terminal} :
    (a, x) ∈ fixedCandidates allowed ↔ (∃ label, (a, label, x) ∈ Terminal.fixed) ∧
      (allowed.contains a && !(allowed.contains .name && Terminal.keywords.contains a)) = true := by
  unfold fixedCandidates
  rw [List.mem_filterMap]
  constructor
  · rintro ⟨⟨b, label, y⟩, known, made⟩
    obtain ⟨tried, same⟩ := Option.ite_none_right_eq_some.mp made
    cases same
    exact ⟨⟨label, known⟩, tried⟩
  · rintro ⟨⟨label, known⟩, tried⟩
    exact ⟨(a, label, x), known, if_pos tried⟩

/-- A keyword is found by its whole spelling. -/
theorem keyword_of_mem {allowed : List Terminal} {a : Terminal} {label : Text}
    (known : (a, label, x) ∈ Terminal.keywordTable) (tried : a ∈ allowed) :
    keyword? allowed x = some a := by
  unfold keyword?
  rw [Option.map_eq_some_iff]
  cases found : Terminal.keywordTable.find? fun e => e.2.2 == x && allowed.contains e.1 with
  | none =>
    have fails := List.find?_eq_none.mp found _ known
    simp [tried] at fails
  | some e =>
    have fits := List.find?_some found
    rw [Bool.and_eq_true, beq_iff_eq] at fits
    exact ⟨e, rfl, fixed_unique _ (mem_fixed_of_keyword (List.mem_of_find?_eq_some found)) _
      (mem_fixed_of_keyword known) fits.1⟩

/-- A spelling of a fixed terminal is cut where no name can begin, or where it is the whole name. -/
theorem cuts_fixed {a : Terminal} {label : Text} (known : (a, label, x) ∈ Terminal.fixed)
    (solid : skipLength? (x ++ rest) = none) (number : numberLength? (x ++ rest) = none)
    (string : stringLength? (x ++ rest) = none)
    (named : a ∉ Terminal.keywords ∧ nameLength? (x ++ rest) = none ∨
      (a, label, x) ∈ Terminal.keywordTable ∧ nameLength? (x ++ rest) = some x.length)
    (ends : ∀ c ∈ rest.head?, c ∉ continuations x) : Cuts a x rest := by
  refine ⟨fixed_ne_nil _ known, solid, fun allowed tried => ?_⟩
  -- All candidates are fixed texts, and none that begins the text here is longer.
  have among : ∀ e ∈ fixedCandidates allowed, ∃ label, (e.1, label, e.2) ∈ Terminal.fixed :=
    fun e he => (mem_fixedCandidates.mp he).1
  have cut (candidate : (a, x) ∈ fixedCandidates allowed) :
      longestFixed? (x ++ rest) (fixedCandidates allowed) = some (a, x.length) := by
    refine longestFixed_of_mem candidate (List.prefix_append x rest) (fun e he begins => ?_)
      fun e he same => ?_
    · obtain ⟨label, known'⟩ := among e he
      exact length_le_of_prefix known' ends begins
    · obtain ⟨label', known'⟩ := among e he
      exact fixed_unique _ known' _ known same
  unfold match?
  simp only [number, string, ite_self]
  have there : allowed.contains a = true := List.contains_iff_mem.mpr tried
  -- A sign is read as it is; a keyword is read as a name first, where names are allowed.
  rcases named with ⟨sign, unnamed⟩ | ⟨keyword, whole⟩
  · rw [unnamed, ite_self]
    refine cut (mem_fixedCandidates.mpr ⟨⟨label, known⟩, ?_⟩)
    have other : Terminal.keywords.contains a = false := by
      rw [← Bool.not_eq_true, List.contains_iff_mem]
      exact sign
    rw [there, other, Bool.and_false]
    rfl
  · cases name : allowed.contains .name with
    | true =>
      rw [if_pos rfl, whole]
      simp only [List.take_left, keyword_of_mem keyword tried, Option.getD_some]
    | false =>
      rw [if_neg Bool.false_ne_true]
      refine cut (mem_fixedCandidates.mpr ⟨⟨label, known⟩, ?_⟩)
      rw [there, name, Bool.false_and]
      rfl

/-! ## Names and keywords -/

/-- What is neither a digit nor a point starts no number. -/
theorem numberLength_of_head (digit : isDecimal c = false) (point : c ≠ '.'.toNat) :
    numberLength? (c :: rest) = none := by
  have zero : c ≠ '0'.toNat := by
    rintro rfl
    cases digit
  have whole : digitsLength (c :: rest) = 0 := by
    rw [digitsLength, List.takeWhile_cons, if_neg (by rw [digit]; exact Bool.false_ne_true)]
    rfl
  have hex : hexLength? (c :: rest) = none := by
    cases rest with
    | nil => rfl
    | cons => exact if_neg fun h => zero h.1
  have decimal : decimalLength? (c :: rest) = none := by
    rw [decimalLength?]
    simp only [whole, List.drop_zero, if_neg point, if_true]
  rw [numberLength?, hex, decimal]
  rfl

/-- No string starts without a quote. -/
theorem stringLength_of_head (double : c ≠ '"'.toNat) (single : c ≠ '\''.toNat) :
    stringLength? (c :: rest) = none := by
  rw [stringLength?, if_neg (not_or.mpr ⟨double, single⟩)]

/-- What a name starts with is a letter, a dollar sign or an underscore. -/
theorem range_of_isNameStart (start : isNameStart c = true) :
    c = 36 ∨ 65 ≤ c ∧ c ≤ 90 ∨ c = 95 ∨ 97 ≤ c ∧ c ≤ 122 := by
  simp only [isNameStart, Text.isAsciiLetter, Bool.or_eq_true, Bool.and_eq_true, decide_eq_true_eq,
    beq_iff_eq, Char.reduceToNat] at start
  omega

/-- What starts like a name starts like no other kind of token. -/
structure StartsName (x : Text) : Prop where
  solid : skipLength? x = none
  number : numberLength? x = none
  string : stringLength? x = none

/-- A name starts with what can start one. -/
theorem startsName_of_head (start : isNameStart c = true) : StartsName (c :: rest) := by
  have range := range_of_isNameStart start
  have digit : isDecimal c = false := by
    rw [← Bool.not_eq_true]
    intro digit
    have := range_of_isDecimal digit
    omega
  have space : isSpace c = false := by
    simp only [isSpace, Bool.or_eq_false_iff, beq_eq_false_iff_ne]
    omega
  refine ⟨solid_of_head space ?_, numberLength_of_head digit ?_, stringLength_of_head ?_ ?_⟩
  · change c ≠ 47; omega
  · change c ≠ 46; omega
  · change c ≠ 34; omega
  · change c ≠ 39; omega

/-- A name is taken as far as it goes. -/
theorem nameLength_append (name : Text.isName x = true)
    (ends : ∀ c ∈ rest.head?, isNamePart c = false) :
    StartsName (x ++ rest) ∧ nameLength? (x ++ rest) = some x.length := by
  cases x with
  | nil => cases name
  | cons c more =>
    rw [Text.isName, Bool.and_eq_true, List.all_eq_true] at name
    obtain ⟨start, parts⟩ := name
    refine ⟨startsName_of_head start, ?_⟩
    have stop : rest.takeWhile isNamePart = [] := by
      cases rest with
      | nil => rfl
      | cons d rest => rw [List.takeWhile_cons, ends d rfl]; rfl
    rw [List.cons_append, nameLength?, if_pos start, List.takeWhile_append_of_pos parts, stop,
      List.append_nil, List.length_cons, Nat.add_comm]

/-- The spellings of the keywords. -/
def keywordSpellings : List Text := Terminal.keywordTable.map (·.2.2)

/-- A name that is no keyword is cut as a name. -/
theorem cuts_name (name : Text.isName x = true) (free : x ∉ keywordSpellings)
    (ends : ∀ c ∈ rest.head?, isNamePart c = false) : Cuts .name x rest := by
  obtain ⟨starts, whole⟩ := nameLength_append name ends
  refine ⟨?_, starts.solid, fun allowed tried => ?_⟩
  · rintro rfl
    cases name
  · have there : allowed.contains .name = true := List.contains_iff_mem.mpr tried
    have plain : keyword? allowed x = none := by
      unfold keyword?
      rw [Option.map_eq_none_iff, List.find?_eq_none]
      intro e known fits
      rw [Bool.and_eq_true, beq_iff_eq] at fits
      exact free (List.mem_map.mpr ⟨e, known, fits.1⟩)
    unfold match?
    simp only [there, if_true, whole, List.take_left, plain, Option.getD_none]

/-- Every keyword is spelled like a name. -/
theorem isName_of_keyword : ∀ e ∈ Terminal.keywordTable, Text.isName e.2.2 = true := by decide

/-- No keyword is the beginning of another one. -/
theorem continuations_of_keyword : ∀ e ∈ Terminal.keywordTable, continuations e.2.2 = [] := by
  decide

/-- A keyword is cut as one. -/
theorem cuts_keyword {a : Terminal} {label : Text} (known : (a, label, x) ∈ Terminal.keywordTable)
    (ends : ∀ c ∈ rest.head?, isNamePart c = false) : Cuts a x rest := by
  obtain ⟨starts, whole⟩ := nameLength_append (isName_of_keyword _ known) ends
  refine cuts_fixed (mem_fixed_of_keyword known) starts.solid starts.number starts.string
    (.inr ⟨known, whole⟩) fun c _ there => ?_
  rw [continuations_of_keyword _ known] at there
  cases there

/-! ## Signs -/

/-- The signs: what is spelled the same always and is no keyword. -/
def signTable : List (Terminal × Text × Text) :=
  Terminal.separatorTable ++ Terminal.assignmentTable ++ Terminal.operatorTable

/-- Whether a text starts with a sign that starts no comment and no number. -/
def isPlainSign : Text → Bool
  | [] => false
  | c :: rest => !isSpace c && !isDecimal c && !isNameStart c && c != '"'.toNat && c != '\''.toNat &&
    c != '.'.toNat && (c != '/'.toNat || rest.head?.any fun d => d != '/'.toNat && d != '*'.toNat)

/-- No sign is a keyword. -/
theorem not_keyword_of_sign : ∀ e ∈ signTable, e.1 ∉ Terminal.keywords := by decide

/-- A sign has a fixed text. -/
theorem mem_fixed_of_sign {e : Terminal × Text × Text} (known : e ∈ signTable) :
    e ∈ Terminal.fixed := by
  simp only [signTable, Terminal.fixed, List.mem_append] at known ⊢
  tauto

/-- A sign is cut as one if nothing that comes after makes it longer. -/
theorem cuts_sign {a : Terminal} {label : Text} (known : (a, label, x) ∈ signTable)
    (plain : isPlainSign (x ++ rest) = true) (ends : ∀ c ∈ rest.head?, c ∉ continuations x) :
    Cuts a x rest := by
  have fixed := mem_fixed_of_sign known
  obtain ⟨c, more, same⟩ :=
    List.exists_cons_of_ne_nil (List.append_ne_nil_of_left_ne_nil (fixed_ne_nil _ fixed) rest)
  have signs := not_keyword_of_sign _ known
  rw [same] at plain
  simp only [isPlainSign, Bool.and_eq_true, Bool.not_eq_true', bne_iff_ne, Bool.or_eq_true] at plain
  obtain ⟨⟨⟨⟨⟨⟨space, digit⟩, letter⟩, double⟩, single⟩, point⟩, slash⟩ := plain
  refine cuts_fixed fixed ?_ ?_ ?_ (.inl ⟨signs, ?_⟩) ends
  -- The text does not begin with white space or a comment.
  · rw [same, skipLength_cons, space, if_neg Bool.false_ne_true]
    split_ifs with isSlash
    · cases more with
      | nil => rfl
      | cons d more =>
        have other := slash.resolve_left fun h => h isSlash
        rw [List.head?_cons, Option.any_some, Bool.and_eq_true, bne_iff_ne, bne_iff_ne] at other
        simp only [if_neg other.1, if_neg other.2]
    · rfl
  -- Nor with a number, a string or a name.
  · rw [same, numberLength_of_head digit point]
  · rw [same, stringLength_of_head double single]
  · rw [same, nameLength?, letter, if_neg Bool.false_ne_true]

/-- A plain sign is one before any text. -/
theorem isPlainSign_append (plain : isPlainSign x = true) : isPlainSign (x ++ rest) = true := by
  cases x with
  | nil => cases plain
  | cons c more =>
    cases more with
    | nil =>
      rw [isPlainSign, List.head?_nil, Option.any_none, Bool.or_false, Bool.and_eq_true] at plain
      rw [List.singleton_append, isPlainSign, plain.1, plain.2]
      rfl
    | cons d more => exact plain

/-- A blank ends every sign but the dot. -/
theorem space_ends_sign : ∀ e ∈ signTable, e.1 ≠ .dot →
    isPlainSign (e.2.2 ++ [32]) = true ∧ 32 ∉ continuations e.2.2 := by
  decide +kernel

/-- Before a blank every sign but the point is cut as one. -/
theorem cuts_spaced {a : Terminal} {label : Text} (known : (a, label, x) ∈ signTable)
    (other : a ≠ .dot) : Cuts a x (32 :: rest) := by
  obtain ⟨plain, ends⟩ := space_ends_sign _ known other
  refine cuts_sign known ?_ fun c next => ?_
  · rw [List.append_cons]
    exact isPlainSign_append plain
  · cases next
    exact ends

/-- A sign that is not the beginning of another one is cut before anything. -/
theorem cuts_closed {a : Terminal} {label : Text} (known : (a, label, x) ∈ signTable)
    (plain : isPlainSign x = true) (closed : continuations x = []) : Cuts a x rest :=
  cuts_sign known (isPlainSign_append plain) fun c _ there => by rw [closed] at there; cases there

/-- A point before a name is cut as one. -/
theorem cuts_dot (name : ∃ c more, rest = c :: more ∧ isNameStart c = true) :
    Cuts .dot ['.'.toNat] rest := by
  obtain ⟨c, more, rfl, start⟩ := name
  have range := range_of_isNameStart start
  have digit : isDecimal c = false := by
    rw [← Bool.not_eq_true]
    intro digit
    have := range_of_isDecimal digit
    omega
  -- The digits of a number would have to follow the point.
  have fraction : digitsLength (c :: more) = 0 := by
    rw [digitsLength, List.takeWhile_cons, if_neg (by rw [digit]; exact Bool.false_ne_true)]
    rfl
  have number : numberLength? ('.'.toNat :: c :: more) = none := by
    have decimal : decimalLength? ('.'.toNat :: c :: more) = none := by
      change (if 0 = 0 ∧ digitsLength (c :: more) = 0 then none
        else some (0 + 1 + digitsLength (c :: more))) = none
      rw [fraction]
      rfl
    rw [numberLength?, decimal]
    rfl
  have known : (Terminal.dot, Text.ofString "DOT", ['.'.toNat]) ∈ Terminal.fixed := by decide
  have closed : continuations ['.'.toNat] = [] := by decide
  exact cuts_fixed known rfl number rfl (.inl ⟨by decide, rfl⟩) fun c _ there => by
    rw [closed] at there
    cases there

/-! ## Numbers -/

/-- The digits of a numeral end where it does. -/
theorem digitsLength_append {digits : Text} (all : AllDecimal digits)
    (ends : ∀ c ∈ rest.head?, isDecimal c = false) :
    digitsLength (digits ++ rest) = digits.length := by
  have stop : rest.takeWhile isDecimal = [] := by
    cases rest with
    | nil => rfl
    | cons d rest => rw [List.takeWhile_cons, ends d rfl]; rfl
  rw [digitsLength, List.takeWhile_append_of_pos all, stop, List.append_nil]

/-- What may come after a number without making it longer. -/
def endsNumber (c : Nat) : Bool := !isNamePart c && !isDecimal c && c != '.'.toNat

/-- No digit comes after the end of a number. -/
theorem ends_digits (ends : ∀ c ∈ rest.head?, endsNumber c = true) :
    ∀ c ∈ rest.head?, isDecimal c = false := fun c next => by
  have ends := ends c next
  rw [endsNumber, Bool.and_eq_true, Bool.and_eq_true, Bool.not_eq_true', Bool.not_eq_true'] at ends
  exact ends.1.2

/-- The letters of exponents and of hexadecimal numbers can be parts of names. -/
theorem isNamePart_of_lower (letter : Text.lowerPoint c = 'e'.toNat ∨ Text.lowerPoint c = 'x'.toNat) :
    isNamePart c = true := by
  have range : 65 ≤ c ∧ c ≤ 90 ∨ 97 ≤ c ∧ c ≤ 122 := by
    have small : Text.lowerPoint c = 101 ∨ Text.lowerPoint c = 120 := letter
    unfold Text.lowerPoint at small
    split_ifs at small <;> omega
  simp only [isNamePart, isNameStart, Text.isAsciiLetter, Bool.or_eq_true, Bool.and_eq_true,
    decide_eq_true_eq]
  exact .inl (.inl (.inl range))

/-- No such letter comes after the end of a number. -/
theorem ends_letter (ends : ∀ c ∈ rest.head?, endsNumber c = true) :
    ∀ c ∈ rest.head?, Text.lowerPoint c ≠ 'e'.toNat ∧ Text.lowerPoint c ≠ 'x'.toNat :=
      fun c next => by
  have ends := ends c next
  rw [endsNumber, Bool.and_eq_true, Bool.and_eq_true, Bool.not_eq_true'] at ends
  rw [← not_or]
  intro letter
  rw [isNamePart_of_lower letter] at ends
  exact Bool.noConfusion ends.1.1

/-- An exponent is taken as a whole. -/
theorem exponentLength_append {exponent : Text} (power : IsExponent exponent)
    (ends : ∀ c ∈ rest.head?, endsNumber c = true) :
    exponentLength (exponent ++ rest) = exponent.length := by
  -- By the form of the exponent: without one the text goes on with no letter for it.
  cases power with
  | none =>
    cases rest with
    | nil => rfl
    | cons c rest =>
      rw [List.nil_append, exponentLength_cons, if_neg]
      · rfl
      · exact fun letter => (ends_letter ends c rfl).1 (eq_of_beq letter)
  | @some e sign digits letter signed all any =>
    -- The sign of the exponent is read as a whole.
    have signs : signLength (sign ++ (digits ++ rest)) = sign.length := by
      simp only [List.mem_cons, List.not_mem_nil, or_false] at signed
      rcases signed with rfl | rfl | rfl
      · cases digits with
        | nil => exact (any rfl).elim
        | cons d digits =>
          have range := range_of_isDecimal (all d List.mem_cons_self)
          refine if_neg ?_
          change ¬(d = 43 ∨ d = 45)
          omega
      · rfl
      · rfl
    -- There are digits, so that the exponent counts.
    have some : digits.length ≠ 0 := fun h => any (List.length_eq_zero_iff.mp h)
    have marked : isLetterOf 'e'.toNat e = true := beq_iff_eq.mpr letter
    rw [List.cons_append, List.append_assoc, exponentLength_cons, if_pos marked, signs,
      List.drop_left, digitsLength_append all (ends_digits ends), if_neg some,
      List.length_cons, List.length_append]
    omega

/-- The digits and the fraction of a numeral are taken as a whole. -/
theorem decimalLength_append {whole fraction digits : Text} (all : AllDecimal whole)
    (point : IsFraction fraction digits) (any : whole.length + digits.length ≠ 0)
    (ends : ∀ c ∈ rest.head?, isDecimal c = false ∧ c ≠ '.'.toNat) :
    decimalLength? (whole ++ (fraction ++ rest)) = some (whole.length + fraction.length) := by
  have drop : (whole ++ (fraction ++ rest)).drop whole.length = fraction ++ rest := List.drop_left
  rw [decimalLength?]
  -- By the form of the fraction: without one the number ends with its whole part.
  cases point with
  | none =>
    have some : whole.length ≠ 0 := by simpa using any
    rw [List.nil_append] at drop ⊢
    simp only [digitsLength_append all fun c next => (ends c next).1, drop]
    cases rest with
    | nil => simp only [if_neg some, List.length_nil, Nat.add_zero]
    | cons c rest =>
      simp only [if_neg (ends c rfl).2, if_neg some, List.length_nil, Nat.add_zero]
  | some allDigits =>
    -- The whole part ends at the point.
    have stop : ∀ c ∈ ('.'.toNat :: (digits ++ rest)).head?, isDecimal c = false := by
      rintro c ⟨⟩
      decide
    have some : ¬(whole.length = 0 ∧ digits.length = 0) := by omega
    rw [List.cons_append] at drop ⊢
    simp only [digitsLength_append all stop, drop, if_true,
      digitsLength_append allDigits fun c next => (ends c next).1, if_neg some, List.length_cons]
    rw [Nat.add_assoc, Nat.add_comm 1]

/-- A decimal numeral is no hexadecimal one. -/
theorem hexLength_of_numeral (numeral : DecimalNumeral x)
    (ends : ∀ c ∈ rest.head?, endsNumber c = true) : hexLength? (x ++ rest) = none := by
  have plain := hasHexMark_numeral numeral
  cases x with
  | nil =>
    obtain ⟨c, more, none, -⟩ := numeral_head numeral
    cases none
  | cons z x =>
    cases x with
    | nil =>
      cases rest with
      | nil => rfl
      | cons c rest => exact if_neg fun hex => (ends_letter ends c rfl).2 (eq_of_beq hex.2.1)
    | cons y x =>
      refine if_neg fun hex => ?_
      rw [Double.hasHexMark, Bool.and_eq_false_iff, beq_eq_false_iff_ne, beq_eq_false_iff_ne] at plain
      exact plain.elim (fun h => h hex.1) fun h => h (eq_of_beq hex.2.1)

/-- A numeral is taken as a whole. -/
theorem numberLength_append (numeral : DecimalNumeral x)
    (ends : ∀ c ∈ rest.head?, endsNumber c = true) : numberLength? (x ++ rest) = some x.length := by
  rw [numberLength?, hexLength_of_numeral numeral ends, Option.none_or]
  obtain @⟨whole, fraction, digits, exponent, all, point, power, any⟩ := numeral
  -- After the fraction comes the exponent or what ends the number.
  have stops : ∀ c ∈ (exponent ++ rest).head?, isDecimal c = false ∧ c ≠ '.'.toNat := by
    cases power with
    | none =>
      intro c next
      have after := ends c next
      rw [endsNumber, Bool.and_eq_true, bne_iff_ne] at after
      exact ⟨ends_digits ends c next, after.2⟩
    | some letter signed allDigits any =>
      rintro c ⟨⟩
      rcases letter_eq letter with rfl | rfl <;> decide
  have exponents := exponentLength_append power ends
  rw [List.append_assoc, List.append_assoc, decimalLength_append all point any stops,
    Option.map_some]
  have drop : (whole ++ (fraction ++ (exponent ++ rest))).drop (whole.length + fraction.length) =
      exponent ++ rest := by
    rw [← List.append_assoc, ← List.length_append, List.drop_left]
  rw [drop, exponents, List.length_append, List.length_append, Nat.add_assoc]

/-- What a numeral starts with is no white space, no letter and no quote. -/
theorem cuts_number (numeral : DecimalNumeral x) (ends : ∀ c ∈ rest.head?, endsNumber c = true) :
    Cuts .number x rest := by
  have whole := numberLength_append numeral ends
  obtain ⟨c, more, rfl, first⟩ := numeral_head numeral
  -- A number begins with a digit or with the point, which are no other first characters.
  have range : 48 ≤ c ∧ c ≤ 57 ∨ 0x660 ≤ c ∨ c = 46 := by
    rcases first with digit | rfl
    · have := range_of_isDecimal digit
      omega
    · exact .inr (.inr rfl)
  have space : isSpace c = false := by
    simp only [isSpace, Bool.or_eq_false_iff, beq_eq_false_iff_ne]
    omega
  have slash : c ≠ '/'.toNat := by change c ≠ 47; omega
  have unnamed : nameLength? (c :: more ++ rest) = none := by
    refine if_neg fun start => ?_
    have := range_of_isNameStart start
    omega
  -- The number is solid, and it is not a name.
  refine ⟨List.cons_ne_nil _ _, solid_of_head space slash, fun allowed tried => ?_⟩
  have there : allowed.contains .number = true := List.contains_iff_mem.mpr tried
  unfold match?
  simp only [unnamed, ite_self, there, if_true, whole]

/-! ## Strings -/

/-- A text inside a string that neither closes it nor ends in the middle of an escape. -/
def StaysInside (q : Nat) (escaped : Bool) (x : Text) : Prop :=
  stringRest? q escaped (x ++ [q]) = some (x.length + 1)

instance (q : Nat) (escaped : Bool) (x : Text) : Decidable (StaysInside q escaped x) :=
  inferInstanceAs (Decidable (_ = _))

/-- What stays inside of a string is skipped by its scan. -/
theorem StaysInside.append {q : Nat} {escaped : Bool} (h : StaysInside q escaped x) :
    stringRest? q escaped (x ++ rest) = (stringRest? q false rest).map (· + x.length) := by
  unfold StaysInside at h
  induction x generalizing escaped with
  | nil =>
    cases escaped with
    | true =>
      rw [List.nil_append, stringRest?, stringRest?] at h
      split_ifs at h
      cases h
    | false => exact Option.map_id.symm ▸ rfl
  | cons c x ih =>
    -- The rest of the text is inside as well, after a backslash or not.
    have step (next : Bool)
        (h : (stringRest? q next (x ++ [q])).map (· + 1) = some ((c :: x).length + 1)) :
        (stringRest? q next (x ++ rest)).map (· + 1) =
          (stringRest? q false rest).map (· + (c :: x).length) := by
      obtain ⟨n, inside, length⟩ := Option.map_eq_some_iff.mp h
      rw [List.length_cons, Nat.add_right_cancel_iff] at length
      rw [ih (inside.trans (congrArg some length)), Option.map_map]
      rfl
    rw [List.cons_append] at h ⊢
    cases escaped with
    | true =>
      rw [stringRest?] at h ⊢
      split_ifs at h ⊢
      exact step false h
    | false =>
      rw [stringRest?] at h ⊢
      split_ifs at h ⊢
      · cases h
      · exact step _ h

/-- The code points that are written as escapes. -/
def isEscaped (c : Nat) : Bool := c < 32 || [34, 92, 0x2028, 0x2029].contains c

/-- A plain code point is written as itself. -/
theorem escapePoint_of_plain (plain : isEscaped c = false) : Literal.escapePoint c = [c] := by
  have escaped : ∀ e ∈ Literal.escapes, isEscaped e.1 = true := by decide
  have none : Literal.escapes.lookup c = none := by
    rw [List.lookup_eq_none_iff]
    intro e known
    rw [bne_iff_ne]
    rintro rfl
    rw [escaped e known] at plain
    cases plain
  have low : ¬ c < 0x20 := by
    intro low
    rw [isEscaped, decide_eq_true low] at plain
    cases plain
  rw [Literal.escapePoint, none]
  exact if_neg low

/-- A code point that is written as itself is no quote, no backslash and no line feed. -/
theorem ne_of_plain (plain : isEscaped c = false) :
    c ≠ 34 ∧ c ≠ '\\'.toNat ∧ c ≠ Text.newline := by
  refine ⟨?_, ?_, ?_⟩ <;>
  · rintro rfl
    cases plain

/-- What is escaped is one of some few code points. -/
theorem mem_of_isEscaped (escaped : isEscaped c = true) :
    c ∈ List.range 32 ++ [34, 92, 0x2028, 0x2029] := by
  rw [isEscaped, Bool.or_eq_true, decide_eq_true_eq, List.contains_iff_mem] at escaped
  rw [List.mem_append, List.mem_range]
  exact escaped

/-- The escapes stay inside of a string. -/
theorem staysInside_escaped : ∀ c ∈ List.range 32 ++ [34, 92, 0x2028, 0x2029],
    StaysInside 34 false (Literal.escapePoint c) := by
  decide +kernel

/-- What is written for a code point stays inside the quotes. -/
theorem staysInside_escapePoint (c : Nat) : StaysInside 34 false (Literal.escapePoint c) := by
  cases escaped : isEscaped c with
  | true => exact staysInside_escaped c (mem_of_isEscaped escaped)
  | false =>
    obtain ⟨quote, backslash, newline⟩ := ne_of_plain escaped
    rw [escapePoint_of_plain escaped, StaysInside, List.singleton_append, stringRest?,
      if_neg quote, if_neg newline, beq_eq_false_iff_ne.mpr backslash]
    rfl

/-- What is written for a code point is read as it. -/
theorem unescape_escapePoint (c : Nat) (more : Text) :
    Literal.unescapeAfter 0 (Literal.escapePoint c ++ more) = c :: Literal.unescapeAfter 0 more := by
  cases escaped : isEscaped c with
  | true =>
    have known := mem_of_isEscaped escaped
    rw [List.mem_append, List.mem_range] at known
    rcases known with low | other
    · interval_cases c <;> rfl
    · simp only [List.mem_cons, List.not_mem_nil, or_false] at other
      rcases other with rfl | rfl | rfl | rfl <;> rfl
  | false =>
    obtain ⟨-, backslash, -⟩ := ne_of_plain escaped
    have plain : (c == '\\'.toNat) = false := beq_eq_false_iff_ne.mpr backslash
    rw [escapePoint_of_plain escaped, List.singleton_append, Literal.unescapeAfter.eq_def]
    simp only [plain]

/-- The inside of a quoted text. -/
theorem staysInside_flatMap (s : Text) :
    stringRest? 34 false (s.flatMap Literal.escapePoint ++ 34 :: rest) =
      some ((s.flatMap Literal.escapePoint).length + 1) := by
  induction s with
  | nil => rfl
  | cons c s ih =>
    rw [List.flatMap_cons, List.append_assoc, (staysInside_escapePoint c).append, ih,
      Option.map_some, List.length_append]
    congr 1
    omega

/-- What was escaped is undone, code point by code point. -/
theorem unescape_flatMap (s : Text) :
    Literal.unescapeAfter 0 (s.flatMap Literal.escapePoint) = s := by
  induction s with
  | nil => rfl
  | cons c s ih => rw [List.flatMap_cons, unescape_escapePoint, ih]

/-- A quoted text is its escaped code points between double quotes. -/
theorem quote_eq (s : Text) :
    Literal.quote s = 34 :: (s.flatMap Literal.escapePoint ++ [34]) := rfl

/-- A quoted text is read as the text. -/
theorem unquote_quote (s : Text) : Literal.unquote (Literal.quote s) = s := by
  rw [quote_eq, Literal.unquote, List.drop_succ_cons, List.drop_zero, List.dropLast_concat]
  exact unescape_flatMap s

/-- A quoted text is cut as a string. -/
theorem cuts_string (s rest : Text) : Cuts .string (Literal.quote s) rest := by
  rw [quote_eq]
  have whole : stringLength? (34 :: (s.flatMap Literal.escapePoint ++ [34]) ++ rest) =
      some (34 :: (s.flatMap Literal.escapePoint ++ [34])).length := by
    rw [List.cons_append, List.append_assoc, List.singleton_append, stringLength?,
      if_pos (.inl rfl), staysInside_flatMap, Option.map_some, List.length_cons, List.length_append]
    rfl
  have unnamed : nameLength? (34 :: (s.flatMap Literal.escapePoint ++ [34]) ++ rest) = none := rfl
  have number : numberLength? (34 :: (s.flatMap Literal.escapePoint ++ [34]) ++ rest) = none :=
    numberLength_of_head (by decide) (by decide)
  refine ⟨List.cons_ne_nil _ _, solid_of_head (by decide) (by decide), fun allowed tried => ?_⟩
  have there : allowed.contains .string = true := List.contains_iff_mem.mpr tried
  unfold match?
  simp only [unnamed, number, ite_self, there, if_true, whole]

end TailLoop.Source
