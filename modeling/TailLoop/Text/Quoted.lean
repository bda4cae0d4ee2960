import TailLoop.Text.Printable

/-!
# Quoted texts in messages

Messages show a text between quotes with its unprintable code points escaped. Single quotes are
used unless the text holds one and holds no double quote.
-/

namespace TailLoop.Text

/-- The quote that surrounds a text in a message. -/
def quoteFor (t : Text) : Nat :=
  if t.contains '\''.toNat && !t.contains '"'.toNat then '"'.toNat else '\''.toNat

/-- One code point of a quoted text. -/
def quotePoint (quote c : Nat) : Text :=
  if c = quote || c = '\\'.toNat then ['\\'.toNat, c]
  else if c = '\t'.toNat then "\\t"
  else if c = newline then "\\n"
  else if c = '\r'.toNat then "\\r"
  else if isPrintable c then [c]
  else if c < 0x100 then "\\x" ++ ofHex 2 c
  else if c < 0x10000 then "\\u" ++ ofHex 4 c
  else "\\U" ++ ofHex 8 c

/-- A text between quotes, as messages show it. -/
def quoted (t : Text) : Text :=
  let quote := quoteFor t
  [quote] ++ t.flatMap (quotePoint quote) ++ [quote]

end TailLoop.Text
