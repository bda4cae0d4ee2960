/-!
# Text as code points

Source text, names and string values are sequences of Unicode code points. Escapes in a string
literal can name a surrogate on its own, which no `String` holds, so a text is a list of numbers.
Length, order and position all count code points.
-/

namespace TailLoop

/-- A text: its code points in order, surrogates included. -/
abbrev Text := List Nat

namespace Text

/-- The code points of a string. -/
def ofString (s : String) : Text := s.toList.map Char.toNat

instance : Coe String Text := ⟨ofString⟩

/-- The texts of a list of strings. -/
def ofStrings (ss : List String) : List Text := ss.map ofString

/-- A natural number in decimal digits, without leading zeros. -/
def ofNat (n : Nat) : Text := (Nat.toDigits 10 n).map Char.toNat

/-- An integer in decimal digits, with a leading minus when it is negative. -/
def ofInt : Int → Text
  | .ofNat n => ofNat n
  | .negSucc n => "-" ++ ofNat (n + 1)

/-- A number in lower-case hexadecimal digits, filled up with zeros to `width`. -/
def ofHex (width n : Nat) : Text :=
  let digits := (Nat.toDigits 16 n).map Char.toNat
  List.replicate (width - digits.length) '0'.toNat ++ digits

/-- The parts with `separator` between each two. -/
def join (separator : Text) : List Text → Text
  | [] => []
  | [part] => part
  | part :: rest => part ++ separator ++ join separator rest

/-- The text `n` times over. -/
def times (n : Nat) (t : Text) : Text := (List.replicate n t).flatten

/-- The line feed, which alone separates lines. -/
def newline : Nat := 10

/-- The parts of a text between the places where a code point stands; a text without it is one
part. -/
def split (separator : Nat) : Text → List Text
  | [] => [[]]
  | c :: rest =>
    match split separator rest with
    | [] => [[c]]
    | part :: more => if c = separator then [] :: part :: more else (c :: part) :: more

/-- The lines of a text; a text without a line feed is one line. -/
def lines (t : Text) : List Text := t.split newline

/-- Whether `t` begins with `start`. -/
def startsWith (t start : Text) : Bool := start.isPrefixOf t

/-- The position at which `part` first occurs in the text. -/
def find? (part : Text) : Text → Option Nat
  | [] => if part = [] then some 0 else none
  | c :: rest => if part.isPrefixOf (c :: rest) then some 0 else (find? part rest).map (· + 1)

/-- A code point with an ASCII capital letter made small. -/
def lowerPoint (c : Nat) : Nat := if 65 ≤ c ∧ c ≤ 90 then c + 32 else c

/-- The text with its ASCII capital letters made small. -/
def lower (t : Text) : Text := t.map lowerPoint

/-- The text without the line feeds at its end. -/
def trimNewlines (t : Text) : Text := (t.reverse.dropWhile (· == newline)).reverse

/-- The text with a line feed for each carriage return and for each pair of the two. -/
def unifyNewlines : Text → Text
  | [] => []
  | 13 :: 10 :: rest => newline :: unifyNewlines rest
  | c :: rest => (if c = 13 then newline else c) :: unifyNewlines rest

/-- A code point that is half of a surrogate pair, which stands for no character. -/
def isSurrogate (c : Nat) : Bool := 0xd800 ≤ c && c ≤ 0xdfff

/-- Whether the first text comes before the second, code point by code point. -/
def before : Text → Text → Bool
  | _, [] => false
  | [], _ :: _ => true
  | a :: as, b :: bs => a < b || (a == b && before as bs)

/-- Inserts a text into a list of texts in order. -/
def insertSorted (t : Text) : List Text → List Text
  | [] => [t]
  | u :: rest => if before u t then u :: insertSorted t rest else t :: u :: rest

/-- The texts in order, repetitions kept. -/
def sort (ts : List Text) : List Text := ts.foldr insertSorted []

/-- A count with its noun, which takes an `s` unless the count is one. -/
def counted (n : Nat) (noun : Text) : Text :=
  ofNat n ++ " " ++ noun ++ (if n = 1 then [] else ofString "s")

end Text

end TailLoop
