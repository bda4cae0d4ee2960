import TailLoop.Text.Basic

/-!
# Texts as bytes

Files hold texts in UTF-8: a code point takes one to four bytes, of which the first one tells how
many follow. Only the shortest form of a code point is accepted and no surrogates are, so the first
byte also bounds the second one.
-/

namespace TailLoop.Utf8

/-- Why bytes are no text. -/
inductive Fault where
  /-- A byte that no code point starts with stands where one starts. -/
  | badStart
  /-- A code point is broken off by a byte that does not belong to it. -/
  | badContinuation
  /-- The bytes end inside a code point. -/
  | cutShort
deriving DecidableEq

/-- The words for a fault. -/
def Fault.message : Fault → Text
  | .badStart => "invalid start byte"
  | .badContinuation => "invalid continuation byte"
  | .cutShort => "unexpected end of data"

/-- An error in a sequence of bytes. -/
structure Error where
  /-- What is wrong. -/
  fault : Fault
  /-- Where the code point starts that is not well formed. -/
  position : Nat
  /-- The bytes of that code point up to the fault, the last one first. -/
  bytes : List UInt8

/-- The words for an error. -/
def Error.message (e : Error) : Text :=
  let place : Text :=
    match e.bytes with
    | [b] => "byte 0x" ++ Text.ofHex 2 b.toNat ++ " in position " ++ Text.ofNat e.position
    | bytes =>
      "bytes in position " ++ Text.ofNat e.position ++ "-" ++
        Text.ofNat (e.position + bytes.length - 1)
  "'utf-8' codec can't decode " ++ place ++ ": " ++ e.fault.message

/-- A code point of which some bytes have been read. -/
structure Partial where
  /-- The bits that are known. -/
  value : Nat
  /-- How many bytes are still to come. -/
  missing : Nat
  /-- The least byte that may come next. -/
  low : Nat := 0x80
  /-- The greatest byte that may come next. -/
  high : Nat := 0xbf

/-- What the first byte of a code point tells. -/
def Partial.start? (b : Nat) : Option Partial :=
  if b < 0x80 then some { value := b, missing := 0 }
  else if b < 0xc2 then none
  else if b < 0xe0 then some { value := b - 0xc0, missing := 1 }
  else if b < 0xf0 then
    some { value := b - 0xe0, missing := 2, low := if b = 0xe0 then 0xa0 else 0x80,
           high := if b = 0xed then 0x9f else 0xbf }
  else if b < 0xf5 then
    some { value := b - 0xf0, missing := 3, low := if b = 0xf0 then 0x90 else 0x80,
           high := if b = 0xf4 then 0x8f else 0xbf }
  else none

/-- A code point with one more byte read, if the byte may come next. -/
def Partial.next? (p : Partial) (b : Nat) : Option Partial :=
  if p.low ≤ b ∧ b ≤ p.high then
    some { value := p.value * 64 + (b - 0x80), missing := p.missing - 1 }
  else none

/-- The text of the bytes from a position on, where a code point starts that has `taken` read
already. -/
def decodeFrom (position : Nat) (p : Partial) (taken : List UInt8) :
    List UInt8 → Except Error Text
  | [] => if taken.isEmpty then .ok [] else .error ⟨.cutShort, position, taken⟩
  | b :: rest => do
    let (p, taken) ←
      if taken.isEmpty then
        match Partial.start? b.toNat with
        | some p => .ok (p, [b])
        | none => .error ⟨.badStart, position, [b]⟩
      else
        match p.next? b.toNat with
        | some p => .ok (p, b :: taken)
        | none => .error ⟨.badContinuation, position, taken⟩
    if p.missing = 0 then
      let t ← decodeFrom (position + taken.length) p [] rest
      return p.value :: t
    else decodeFrom position p taken rest

/-- The text of some bytes. -/
def decode (bytes : List UInt8) : Except Error Text := decodeFrom 0 ⟨0, 0, 0x80, 0xbf⟩ [] bytes

end TailLoop.Utf8
