import TailLoop.Grammar.Automaton
import TailLoop.Source.Error
import TailLoop.Source.Token

/-!
# Reading a program

The reader keeps a stack of states and parts. It takes the next token among the terminals that its
state can go on with, reduces finished productions, and takes the token in. What is wrong with a
part is remembered, and counts only when the whole text follows the grammar; the first such fault
in reading order is reported. The reader works with any table of states; a program is read with
those of the grammar.
-/

namespace TailLoop.Source

open Grammar

/-- A position in a text. -/
structure Position where
  /-- How many code points come before it. -/
  offset : Nat
  /-- Its line, counted from one. -/
  line : Nat
  /-- Its column, counted from one. -/
  column : Nat

/-- The start of a text. -/
def Position.origin : Position := ⟨0, 1, 1⟩

/-- The position after some code points. -/
def Position.advance (p : Position) : Text → Position
  | [] => p
  | c :: rest =>
    Position.advance
      (if c = Text.newline then ⟨p.offset + 1, p.line + 1, 1⟩
       else ⟨p.offset + 1, p.line, p.column + 1⟩)
      rest

/-- The stretch between two positions. -/
def stretch (file : Text) (start stop : Position) : Location :=
  ⟨file, start.line, start.column, start.offset, stop.offset, stop.line, stop.column⟩

/-- A position as the place of an error, whose end is not known. -/
def Position.place (file : Text) (p : Position) : Location :=
  { file, line := p.line, column := p.column }

/-- The stretch from the start of one to the end of another. -/
def joined (first last : Location) : Location :=
  { first with stop := last.stop, endLine := last.endLine, endColumn := last.endColumn }

/-- The stretch of a phrase: from its first part to its last. A phrase without parts is nowhere. -/
def extent (file : Text) (parts : Parts) : Location :=
  match parts.head?, parts.getLast? with
  | some first, some last => joined first.location last.location
  | _, _ => { file, line := 0, column := 0 }

/-- A symbol on the stack: its part and the state after it. -/
structure Frame where
  /-- The state after the symbol. -/
  state : Nat
  /-- What was read. -/
  part : Part

/-- The reader between two steps. -/
structure Machine where
  /-- The symbols read so far, the last one first. -/
  stack : List Frame
  /-- The first fault of a part. -/
  fault : Option Error

/-- The state that a stack ends in. -/
def topState : List Frame → Nat
  | [] => 0
  | frame :: _ => frame.state

/-- The error that a refusal is. -/
def ofRefusal : Refusal → Error
  | .invalidTarget role location => .invalidTarget role location
  | .numberTooLarge => .numberTooLarge

/-- The content of a phrase from its parts by a rule. -/
def content (file : Text) (rule : Rule) (parts : Parts) : Except Error Content :=
  match rule with
  | .keep index => .ok ((parts[index]?.map (·.content)).getD (.tree .null))
  | .plain build => (build parts).mapError ofRefusal
  | .placed name build =>
    match build (extent file parts) parts with
    | .error refusal => .error (ofRefusal refusal)
    | .ok content => if file = [] then .error (.noFile name) else .ok content

variable (states : Array State)

/-- Replaces the symbols of a production at the end of the stack by its phrase. -/
def reduce (file : Text) (p : Production) (m : Machine) : Machine :=
  let count := p.symbols.length
  let parts := ((m.stack.take count).map (·.part)).reverse
  let rest := m.stack.drop count
  let state := (goto? states (topState rest) p.phrase).getD 0
  match content file p.rule parts with
  | .ok content => ⟨⟨state, content, extent file parts⟩ :: rest, m.fault⟩
  | .error e => ⟨⟨state, .tree .null, extent file parts⟩ :: rest, m.fault.or (some e)⟩

/-- What the reader comes to when it reduces as far as a terminal allows. -/
inductive Settled where
  /-- The terminal is taken in, and leads to a state. -/
  | shift (state : Nat) (machine : Machine)
  /-- The text is a program. -/
  | accept (machine : Machine)
  /-- Nothing can be done before the terminal in this state. -/
  | stuck (state : Nat)

/-- Reduces before a terminal, at most `fuel` times. -/
def settle (file : Text) (t : Terminal) : (fuel : Nat) → Machine → Settled
  | 0, m => .stuck (topState m.stack)
  | fuel + 1, m =>
    match action? states (topState m.stack) t with
    | some (.shift state) => .shift state m
    | some .accept => .accept m
    | some (.reduce number) =>
      match productions[number]? with
      | some p => settle file t fuel (reduce states file p m)
      | none => .stuck (topState m.stack)
    | none => .stuck (topState m.stack)

/-- A bound for the number of reductions before one terminal: a reduction shortens the stack, or it
turns one phrase into a looser one. -/
def settleFuel (m : Machine) : Nat := (m.stack.length + 2) * (Phrase.all.length + 1)

/-- The result of a finished reading: the first fault, or the program. -/
def finish (m : Machine) : Except Error Tree :=
  match m.fault, m.stack with
  | some e, _ => .error e
  | none, ⟨_, .tree t, _⟩ :: _ => .ok t
  | none, _ => .ok .null

/-- Ends the reading. The place of an unexpected end is the start of the last token. -/
def close (file : Text) (last : Position) (m : Machine) : Except Error Tree :=
  match settle states file .endOfInput (settleFuel m) m with
  | .accept m => finish m
  | .shift state _ => .error (.unexpectedEnd (acceptable states state) (last.place file))
  | .stuck state => .error (.unexpectedEnd (acceptable states state) (last.place file))

/-- The error at a text that starts with none of the allowed terminals. -/
def misplaced (file : Text) (allowed : List Terminal) (position : Position) (c : Nat) (t : Text) :
    Error :=
  match match? Terminal.all t with
  | some (_, n) => .unexpectedToken (t.take n) (expectedOf allowed) (position.place file)
  | none => .unexpectedCharacter c (position.place file)

/-- Reads the rest of a text, at most `fuel` tokens and stretches between them. -/
def readFrom (file : Text) :
    (fuel : Nat) → (position last : Position) → Text → Machine → Except Error Tree
  | 0, _, last, _, m => close states file last m
  | _, _, last, [], m => close states file last m
  | fuel + 1, position, last, c :: rest, m =>
    let t := c :: rest
    match skipLength? t with
    | some n => readFrom file fuel (position.advance (t.take n)) last (t.drop n) m
    | none =>
      let allowed := acceptable states (topState m.stack)
      match match? allowed t with
      | none => .error (misplaced file allowed position c t)
      | some (terminal, n) =>
        let text := t.take n
        let stop := position.advance text
        match settle states file terminal (settleFuel m) m with
        | .shift state m =>
          let part : Part := ⟨.token text, stretch file position stop⟩
          readFrom file fuel stop position (t.drop n) ⟨⟨state, part⟩ :: m.stack, m.fault⟩
        | .accept _ => .error (.unexpectedToken text [.endOfInput] (position.place file))
        | .stuck state =>
          .error (.unexpectedToken text (acceptable states state) (position.place file))

/-- The program that a text is, or the first reason why it is none. -/
def parse (file source : Text) : Except Error Tree :=
  readFrom automaton file (source.length + 1) .origin .origin source ⟨[], none⟩

end TailLoop.Source
