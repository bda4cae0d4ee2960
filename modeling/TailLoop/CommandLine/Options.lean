import TailLoop.Text.Class

/-!
# Options of the command line

The command line names one file, and may have these options among its words:

```text
-h, --help             show what can be given
-o PATH, --output PATH write the output to a file
--dump-tree            show the final tree instead of the output
--no-validate          do not check the final tree
--run NAME ARG...      call a function of the program
-v, --verbose          log what is done
```

A long option can be shortened as long as only one option starts so, and its value can follow after
`=`. Short options can stand together in one word, and the value of the last one can follow at once.
A word that starts with a dash is an option unless it is a lone dash, a negative number or holds a
blank and starts no option; after the word `--` no word is an option.
-/

namespace TailLoop.CommandLine

/-- The options without a value. -/
inductive Switch where
  | help | dumpTree | noValidate | verbose
deriving DecidableEq

/-- The options with a value. -/
inductive Parameter where
  /-- Where the output goes. -/
  | output
  /-- The function to call, which its arguments follow. -/
  | run
deriving DecidableEq

/-- The options by their long names. -/
def longNames : List (Text × (Switch ⊕ Parameter)) :=
  [("help", .inl .help), ("output", .inr .output), ("dump-tree", .inl .dumpTree),
   ("no-validate", .inl .noValidate), ("run", .inr .run), ("verbose", .inl .verbose)]

/-- The options by their letters. -/
def letters : List (Nat × (Switch ⊕ Parameter)) :=
  [('h'.toNat, .inl .help), ('o'.toNat, .inr .output), ('v'.toNat, .inl .verbose)]

/-- One word of a command line. -/
inductive Word where
  /-- A word that is no option. -/
  | plain (t : Text)
  /-- The word after which there are no options. -/
  | separator
  /-- Options without a value. -/
  | switches (switches : List Switch)
  /-- An option with a value, after some without; the value may be part of the word. -/
  | parameter (switches : List Switch) (parameter : Parameter) (value : Option Text)
  /-- Options without a value, if any, and after them something that is not known. -/
  | unknown (switches : List Switch)
  /-- A shortened option that could be several. -/
  | ambiguous
  /-- A word that cannot be understood. -/
  | malformed

namespace Word

/-- The dash. -/
def dash : Nat := '-'.toNat

/-- The sign between an option and its value. -/
def equalsSign : Nat := '='.toNat

/-- A negative number in decimal digits, with or without a fraction. A line feed may follow. -/
def isNegativeNumber (t : Text) : Bool :=
  let digits := (if t.getLast? = some Text.newline then t.dropLast else t).drop 1
  let whole := digits.takeWhile Text.isDecimal
  let rest := digits.dropWhile Text.isDecimal
  if rest.isEmpty then !whole.isEmpty
  else rest.head? == some '.'.toNat && 1 < rest.length && (rest.drop 1).all Text.isDecimal

/-- A word that starts like an option but is none that is known. -/
def ofStranger (t : Text) : Word :=
  if isNegativeNumber t || t.contains 32 then .plain t else .unknown []

/-- The word of a long option, given without its dashes. -/
def ofLong (t : Text) : Word :=
  let name := t.takeWhile (· != equalsSign)
  let value := if t.contains equalsSign then some (t.drop (name.length + 1)) else none
  let candidates : List (Switch ⊕ Parameter) :=
    match longNames.lookup name with
    | some option => [option]
    | none => (longNames.filter fun (long, _) => Text.startsWith long name).map fun (_, o) => o
  match candidates, value with
  | [], _ => ofStranger (dash :: dash :: t)
  | [.inl s], none => .switches [s]
  | [.inr p], value => .parameter [] p value
  | [.inl _], some _ => .malformed
  | _ :: _ :: _, _ => .ambiguous

/-- The word of some letters, after the options without a value that have been read from it. A
letter that is not known is left over together with what follows it; a dash and a value cannot
follow an option without a value. -/
def ofLetters (before : List Switch) : Text → Word
  | [] => .switches before
  | c :: rest =>
    match letters.lookup c with
    | some (.inl s) => ofLetters (before ++ [s]) rest
    | some (.inr p) =>
      .parameter before p <|
        if rest.isEmpty then none
        else some (if rest.head? = some equalsSign then rest.drop 1 else rest)
    | none => if c = dash || c = equalsSign then .malformed else .unknown before

/-- The word that a text is, as long as there can be options. -/
def ofText : Text → Word
  | 45 :: 45 :: [] => .separator
  | 45 :: 45 :: t => ofLong t
  | 45 :: c :: t =>
    if (letters.lookup c).isSome then ofLetters [] (c :: t) else ofStranger (dash :: c :: t)
  | t => .plain t

/-- The words of a command line. -/
def ofTexts : List Text → List Word
  | [] => []
  | t :: rest =>
    match ofText t with
    | .separator => .separator :: rest.map .plain
    | word => word :: ofTexts rest

/-- Whether a word is a shortened option that could be several. -/
def isAmbiguous : Word → Bool
  | .ambiguous => true
  | _ => false

end Word

/-- What a command line asks to be done. -/
structure Options where
  /-- The file of the program. -/
  file : Text
  /-- Where the output goes. -/
  output : Option Text := none
  /-- Whether the final tree is shown. -/
  dumpsTree : Bool := false
  /-- Whether the final tree is checked. -/
  validates : Bool := true
  /-- The function to call and its arguments. -/
  call : Option (Text × List Text) := none
  /-- Whether it is logged what is done. -/
  verbose : Bool := false

/-- What a command line is. -/
inductive Request where
  /-- It asks what can be given. -/
  | help
  /-- It cannot be understood. -/
  | misuse
  /-- It asks for something to be done. -/
  | work (options : Options)

/-- What is known after some words of a command line. -/
structure Reading where
  /-- The options; the file may not be known yet. -/
  options : Options := { file := [] }
  /-- Whether the file is known. -/
  hasFile : Bool := false
  /-- Whether the last word was the file. -/
  afterFile : Bool := false
  /-- Whether plain words are arguments of the function to call. -/
  inCall : Bool := false
  /-- Whether there was a word that has no place. -/
  hasSurplus : Bool := false

namespace Reading

/-- Takes a word that is no option: an argument, the file, or a word without a place. -/
def plain (r : Reading) (t : Text) : Reading :=
  if r.inCall then
    { r with options.call := r.options.call.map fun (name, args) => (name, args ++ [t]) }
  else if r.hasFile then { r with afterFile := false, hasSurplus := true }
  else { r with options.file := t, hasFile := true, afterFile := true }

/-- Takes the word after which there are no options. It has its place next to the file. -/
def separator (r : Reading) : Reading :=
  { r with inCall := false, afterFile := false,
           hasSurplus := r.hasSurplus || (r.hasFile && !r.afterFile) }

/-- Takes a word that has no place. -/
def surplus (r : Reading) : Reading :=
  { r with inCall := false, afterFile := false, hasSurplus := true }

/-- Takes an option without a value. -/
def switch (r : Reading) : Switch → Reading
  | .help => r
  | .dumpTree => { r with options.dumpsTree := true }
  | .noValidate => { r with options.validates := false }
  | .verbose => { r with options.verbose := true }

/-- Takes the options without a value of one word. -/
def switches (r : Reading) (ss : List Switch) : Reading :=
  ss.foldl switch { r with inCall := false, afterFile := false }

/-- Takes the value of an option. -/
def value (r : Reading) (p : Parameter) (t : Text) : Reading :=
  match p with
  | .output => { r with options.output := some t }
  | .run => { r with options.call := some (t, []) }

/-- What the command line is after its last word. -/
def request (r : Reading) : Request :=
  if r.hasFile && !r.hasSurplus then .work r.options else .misuse

/-- What a command line is, from its words. The question what can be given is answered as soon as it
comes up, before anything that is wrong after it. -/
def read (r : Reading) : List Word → Request
  | [] => r.request
  | .plain t :: rest => read (r.plain t) rest
  | .separator :: rest => read r.separator rest
  | .unknown ss :: rest =>
    if ss.contains .help then .help else read (r.switches ss).surplus rest
  | .ambiguous :: _ => .misuse
  | .malformed :: _ => .misuse
  | .switches ss :: rest => if ss.contains .help then .help else read (r.switches ss) rest
  | .parameter ss p (some t) :: rest =>
    if ss.contains .help then .help else read ((r.switches ss).value p t) rest
  | .parameter ss p none :: .plain t :: rest =>
    if ss.contains .help then .help
    else read { (r.switches ss).value p t with inCall := p = .run } rest
  | .parameter _ _ none :: _ => .misuse

end Reading

/-- What a command line is. A shortened option that could be several is noticed before anything is
done. -/
def Request.ofTexts (ts : List Text) : Request :=
  let words := Word.ofTexts ts
  if words.any Word.isAmbiguous then .misuse else Reading.read {} words

end TailLoop.CommandLine
