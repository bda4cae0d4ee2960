import TailLoop.Proofs.Dump.Tokens
import TailLoop.Proofs.Sameness

/-!
# Dumps tell trees apart

Trees have the same dump without locations exactly when they are the same but for their locations
(`dump_eq_iff`), in the broken form as in the one-line form. This holds of trees whose parts a dump
has a notation for (`Dumped`): absent values, flags, texts, rows, and nodes of a kind with a form of
its own, of which identifiers carry a text and literals no negative number.

The first symbol of a dumped node is its kind in small letters, and no two kinds are written alike.
The keywords and the values of its fields follow in order.
-/

namespace TailLoop

/-! ## Kinds and fields in small letters -/

/-- Capitals of the Latin alphabet are made small one by one. -/
theorem small_point : ∀ c < 128, (Text.wideSmall.lookup c).getD
    [(Text.CaseRun.convert? Text.capitalRuns c).getD c] = [Text.lowerPoint c] := by
  decide +kernel

/-- Outside of other alphabets what comes before a letter does not matter. -/
theorem Text.smallAfter_of_ascii {past t : Text} (ascii : ∀ c ∈ t, c < 128) :
    Text.smallAfter past t = t.lower := by
  induction t generalizing past with
  | nil => rfl
  | cons c rest ih =>
    rw [List.forall_mem_cons] at ascii
    have other : c ≠ capitalSigma := fun same => absurd (same ▸ ascii.1) (by decide)
    rw [smallAfter, if_neg other, small_point c ascii.1, ih ascii.2]
    rfl

namespace Tree

/-- An ASCII name with a hyphen before each capital but the first character, in small letters. -/
def hyphenatedAscii : Text → Text
  | [] => []
  | c :: rest =>
    Text.lower (c :: rest.flatMap fun d => if 65 ≤ d ∧ d ≤ 90 then ['-'.toNat, d] else [d])

/-- The hyphenated name of a class, letter by letter. -/
theorem hyphenated_of_ascii {t : Text} (ascii : ∀ c ∈ t, c < 128) :
    hyphenated t = hyphenatedAscii t := by
  cases t with
  | nil => rfl
  | cons c rest =>
    rw [List.forall_mem_cons] at ascii
    refine Text.smallAfter_of_ascii (List.forall_mem_cons.mpr ⟨ascii.1, fun d hd => ?_⟩)
    obtain ⟨a, ha, hd⟩ := List.mem_flatMap.mp hd
    have small := ascii.2 a ha
    split_ifs at hd
    · rcases List.mem_cons.mp hd with rfl | hd
      · decide
      · rw [List.mem_singleton.mp hd]
        exact small
    · rw [List.mem_singleton.mp hd]
      exact small

/-- Small letters stay as they are. -/
theorem hyphenated_of_small {t : Text} (small : ∀ c ∈ t, 97 ≤ c ∧ c ≤ 122) : hyphenated t = t := by
  rw [hyphenated_of_ascii fun c hc => by have := small c hc; omega]
  cases t with
  | nil => rfl
  | cons c rest =>
    have plain : rest.flatMap (fun d => if 65 ≤ d ∧ d ≤ 90 then ['-'.toNat, d] else [d]) = rest := by
      have each : ∀ d ∈ rest, (if 65 ≤ d ∧ d ≤ 90 then ['-'.toNat, d] else [d]) = [d] := by
        intro d hd
        have := small d (List.mem_cons_of_mem _ hd)
        exact if_neg (by omega)
      rw [List.flatMap_congr each, List.flatMap_singleton']
    have lowered : ∀ d ∈ c :: rest, Text.lowerPoint d = d := by
      intro d hd
      have := small d hd
      exact if_neg (by omega)
    rw [hyphenatedAscii, plain, Text.lower]
    exact (List.map_congr_left lowered).trans (List.map_id _)

end Tree

namespace Kind

/-- Each kind stands in the table. -/
theorem mem_table (k : Kind) : (k, k.name) ∈ table := by
  have known : ∀ k : Kind, k ∈ table.map (·.1) := by
    intro k
    cases k <;> decide
  obtain ⟨e, he, same⟩ := List.mem_map.mp (known k)
  unfold name
  cases found : table.find? (·.1 == k) with
  | none => exact absurd same (by simpa using List.find?_eq_none.mp found e he)
  | some e' =>
    have matched := List.find?_some found
    obtain rfl : e'.1 = k := eq_of_beq matched
    exact List.mem_of_find?_eq_some found

/-- The symbols of plain values. -/
def plainNames : List Text := Text.ofStrings ["nil", "true", "false"]

/-- The names of kinds are ASCII. In small letters each is a symbol that no plain value has, and no
two are alike. -/
theorem symbols_table :
    (∀ e ∈ table, (∀ c ∈ e.2, c < 128) ∧ SExpr.isName (Tree.hyphenatedAscii e.2) = true ∧
      Tree.hyphenatedAscii e.2 ∉ plainNames) ∧
    (table.map fun e => Tree.hyphenatedAscii e.2).Nodup := by
  decide +kernel

/-- The symbol of a kind in dumps. -/
theorem hyphenated_className {k : Kind} (own : k ≠ .generic) :
    Tree.hyphenated k.className = Tree.hyphenatedAscii k.name := by
  rw [className, if_neg own, Tree.hyphenated_of_ascii (symbols_table.1 _ k.mem_table).1]

/-- The hyphenated name of a class is a name. -/
theorem isName_className {k : Kind} (own : k ≠ .generic) :
    SExpr.isName (Tree.hyphenated k.className) = true := by
  rw [hyphenated_className own]
  exact (symbols_table.1 _ k.mem_table).2.1

/-- No kind is written like a plain value. -/
theorem className_not_mem {k : Kind} (own : k ≠ .generic) :
    Tree.hyphenated k.className ∉ plainNames := by
  rw [hyphenated_className own]
  exact (symbols_table.1 _ k.mem_table).2.2

/-- No two kinds are written alike. -/
theorem eq_of_hyphenated {k k' : Kind} (own : k ≠ .generic) (own' : k' ≠ .generic)
    (same : Tree.hyphenated k.className = Tree.hyphenated k'.className) : k = k' := by
  rw [hyphenated_className own, hyphenated_className own'] at same
  exact congrArg Prod.fst (List.inj_on_of_nodup_map symbols_table.2 k.mem_table k'.mem_table same)

end Kind

/-! ## Forms of nodes -/

namespace Shape

variable {α : Type}

/-- Whether a dump shows a node of this form by its fields alone. -/
def isOrdinary : Shape α → Bool
  | .identifier _ | .literal _ | .generic .. => false
  | _ => true

/-- An ordinary node is none of the kinds that are dumped in their own way. -/
theorem kind_of_isOrdinary {shape : Shape α} (ordinary : shape.isOrdinary = true) :
    shape.kind ≠ .identifier ∧ shape.kind ≠ .literal ∧ shape.kind ≠ .generic := by
  cases shape with
  | identifier | literal | generic => cases ordinary
  | function form => cases form <;> exact ⟨nofun, nofun, nofun⟩
  | forEach domain => cases domain <;> exact ⟨nofun, nofun, nofun⟩
  | jump kind => cases kind <;> exact ⟨nofun, nofun, nofun⟩
  | _ => exact ⟨nofun, nofun, nofun⟩

/-- The names of fields are of small letters. -/
theorem small_children {shape : Shape α} (own : shape.kind ≠ .generic) :
    ∀ child ∈ shape.children, ∀ c ∈ child.1, 97 ≤ c ∧ c ≤ 122 := by
  cases shape with
  | generic => exact (own rfl).elim
  | _ =>
    simp only [children, List.forall_mem_cons, List.not_mem_nil, false_implies, implies_true,
      and_true] <;> and_intros <;> decide +kernel

end Shape

namespace Tree

/-! ## Dumped trees -/

/-- Plain values that are no numbers. -/
inductive IsAtom : Tree → Prop
  | null : IsAtom .null
  | bool (b : Bool) : IsAtom (.bool b)
  | text (t : Text) : IsAtom (.text t)

/-- The values of literals that a dump tells apart: there is only one zero among them. -/
inductive IsValue : Tree → Prop
  | atom {t : Tree} (atom : IsAtom t) : IsValue t
  | num {d : Double} (unsigned : d.isSigned = false) : IsValue (.num d)

/-- Trees for whose parts dumps have a notation. -/
inductive Dumped : Tree → Prop
  | atom {t : Tree} (atom : IsAtom t) : Dumped t
  | tuple {items : List Tree} (each : ∀ u ∈ items, Dumped u) : Dumped (.tuple items)
  | identifier (l : Option Location) (name : Text) : Dumped (.node l (.identifier (.text name)))
  | literal (l : Option Location) {value : Tree} (known : IsValue value) :
    Dumped (.node l (.literal value))
  | node (l : Option Location) {shape : Shape Tree} (ordinary : shape.isOrdinary = true)
    (each : ∀ u ∈ shape.parts, Dumped u) : Dumped (.node l shape)

/-- The value of a literal in a dump. -/
def dumpValue (value : Tree) : SExpr := (dumpLiteral value).getD (dumpPlain value)

section Dumps

variable {l : Option Location} {shape : Shape Tree}

/-- A row is dumped item by item. -/
theorem toSExpr_tuple (items : List Tree) :
    toSExpr false (.tuple items) = .list (items.map (toSExpr false)) := by
  rw [toSExpr, fold, foldItems_eq_map]
  rfl

/-- The symbol of an identifier. -/
theorem hyphenated_identifier : hyphenated Kind.identifier.className = "identifier" := by
  rw [Kind.hyphenated_className (k := .identifier) nofun]
  rfl

/-- The symbol of a literal. -/
theorem hyphenated_literal : hyphenated Kind.literal.className = "literal" := by
  rw [Kind.hyphenated_className (k := .literal) nofun]
  rfl

/-- An identifier is dumped with its name as it is. -/
theorem toSExpr_identifier (l : Option Location) (name : Tree) :
    toSExpr false (.node l (.identifier name)) =
      .list [.symbol (hyphenated Kind.identifier.className), .raw name] := by
  rw [toSExpr, fold_node, hyphenated_identifier]
  rfl

/-- Plain data is dumped as such. -/
theorem toSExpr_atom {t : Tree} (atom : IsAtom t) : toSExpr false t = dumpPlain t := by
  cases atom <;> rfl

/-- Plain data as a value is dumped as such. -/
theorem dumpValue_atom {t : Tree} (atom : IsAtom t) : dumpValue t = dumpPlain t := by
  cases atom <;> rfl

/-- A literal is dumped with its value. -/
theorem toSExpr_literal (l : Option Location) {value : Tree} (known : IsValue value) :
    toSExpr false (.node l (.literal value)) =
      .list [.symbol (hyphenated Kind.literal.className), dumpValue value] := by
  have plain : toSExpr false value = dumpPlain value := by
    cases known with
    | atom atom => exact toSExpr_atom atom
    | num => rfl
  rw [toSExpr, fold_node, hyphenated_literal, dumpValue, ← plain]
  rfl

/-- An ordinary node is dumped by its symbol and its fields. -/
theorem toSExpr_node (l : Option Location) {shape : Shape Tree} (ordinary : shape.isOrdinary = true) :
    toSExpr false (.node l shape) =
      .list (.symbol (hyphenated shape.kind.className) ::
        dumpFields (shape.children.map fun c => (c.1, toSExpr false c.2))) := by
  have shown : dumpNode (.node l shape) (shape.map (toSExpr false)) =
      .symbol (hyphenated (shape.map (toSExpr false)).kind.className) ::
        dumpFields (shape.map (toSExpr false)).children := by
    cases shape with
    | identifier | literal | generic => cases ordinary
    | _ => rfl
  rw [Shape.kind_map, Shape.children_map] at shown
  rw [toSExpr, fold_node]
  exact congrArg SExpr.list ((List.append_nil _).trans shown)

/-- The dump of a node begins with the symbol of its kind. -/
theorem exists_toSExpr {t : Tree} (dumped : Dumped t) {l : Option Location} {shape : Shape Tree}
    (same : t = .node l shape) : shape.kind ≠ .generic ∧ ∃ rest,
      toSExpr false t = .list (.symbol (hyphenated shape.kind.className) :: rest) := by
  cases dumped with
  | atom atom =>
    rw [same] at atom
    cases atom
  | tuple => cases same
  | identifier _ name =>
    cases same
    exact ⟨nofun, _, toSExpr_identifier l _⟩
  | literal _ known =>
    cases same
    exact ⟨nofun, _, toSExpr_literal l known⟩
  | node _ ordinary =>
    cases same
    exact ⟨(Shape.kind_of_isOrdinary ordinary).2.2, _, toSExpr_node l ordinary⟩

/-- No dump is the symbol of a kind. -/
theorem toSExpr_ne_symbol {t : Tree} (dumped : Dumped t) {k : Kind} (own : k ≠ .generic) :
    toSExpr false t ≠ .symbol (hyphenated k.className) := by
  intro same
  have absent := Kind.className_not_mem own
  -- By the form of the tree: an atom is shown by a symbol, but by none of a class.
  cases dumped with
  | atom atom =>
    cases atom with
    | null =>
      rw [← SExpr.symbol.inj same] at absent
      exact absent (by decide)
    | bool b =>
      rw [← SExpr.symbol.inj same] at absent
      cases b <;> exact absent (by decide)
    | text => cases same
  | tuple | identifier => cases same
  | literal l known =>
    rw [toSExpr_literal l known] at same
    cases same
  | node l ordinary =>
    rw [toSExpr_node l ordinary] at same
    cases same

end Dumps

/-! ## Dumps are S-expressions of names, texts and numbers -/

/-- A number is dumped as an integer where it is one. -/
theorem dumpValue_num (d : Double) :
    dumpValue (.num d) = (d.integer?.map fun n => .raw (.int n)).getD (.raw (.num d)) := rfl

/-- The dump of plain data is plain. -/
theorem plain_atom {t : Tree} (atom : IsAtom t) : (dumpPlain t).Plain := by
  cases atom with
  | null => exact .symbol (by decide)
  | bool b => cases b <;> exact .symbol (by decide)
  | text t => exact .text t

/-- The dump of a value is plain. -/
theorem plain_dumpValue {value : Tree} (known : IsValue value) : (dumpValue value).Plain := by
  cases known with
  | atom atom =>
    rw [dumpValue_atom atom]
    exact plain_atom atom
  | @num d =>
    rw [dumpValue_num]
    cases d.integer? with
    | none => exact .num d
    | some n => exact .int n

/-- A keyword is a name. -/
theorem isName_keyword {name : Text} (small : ∀ c ∈ name, 97 ≤ c ∧ c ≤ 122) :
    SExpr.isName (":" ++ hyphenated name) = true := by
  have colon : Text.ofString ":" = [58] := rfl
  have nan : (58 :: name) ≠ Text.ofString "nan" :=
    fun same => absurd (List.cons.inj same).1 (by decide)
  have inf : (58 :: name) ≠ Text.ofString "inf" :=
    fun same => absurd (List.cons.inj same).1 (by decide)
  rw [hyphenated_of_small small, colon, List.singleton_append]
  simp only [SExpr.isName, Bool.and_eq_true, List.all_eq_true, List.forall_mem_cons, bne_iff_ne,
    Bool.or_eq_true, decide_eq_true_iff]
  exact ⟨⟨⟨rfl, .inl (.inr rfl), fun c hc => .inr (small c hc)⟩, nan⟩, inf⟩

/-- The dump of a tree is plain. -/
theorem Dumped.plain {t : Tree} (dumped : Dumped t) : (toSExpr false t).Plain := by
  -- By induction on how the tree is dumped: all symbols in it are names or keywords.
  induction dumped with
  | atom atom =>
    rw [toSExpr_atom atom]
    exact plain_atom atom
  | tuple each ih =>
    rw [toSExpr_tuple]
    exact .list (List.forall_mem_map.mpr ih)
  | identifier l name =>
    rw [toSExpr_identifier]
    exact .list (List.forall_mem_cons.mpr ⟨.symbol (Kind.isName_className nofun),
      List.forall_mem_singleton.mpr (.text name)⟩)
  | literal l known =>
    rw [toSExpr_literal l known]
    exact .list (List.forall_mem_cons.mpr ⟨.symbol (Kind.isName_className nofun),
      List.forall_mem_singleton.mpr (plain_dumpValue known)⟩)
  | @node l shape ordinary each ih =>
    have own := (Shape.kind_of_isOrdinary ordinary).2.2
    rw [toSExpr_node l ordinary]
    refine .list (List.forall_mem_cons.mpr ⟨.symbol (Kind.isName_className own), fun s hs => ?_⟩)
    obtain ⟨c, hc, hs⟩ := List.mem_flatMap.mp hs
    obtain ⟨child, hchild, rfl⟩ := List.mem_map.mp hc
    rcases List.mem_cons.mp hs with rfl | hs
    · exact .symbol (isName_keyword (Shape.small_children own child hchild))
    · rw [List.mem_singleton.mp hs]
      exact ih child.2 (List.mem_map_of_mem hchild)

/-! ## Dumps are faithful -/

/-- Whether an S-expression is a number. -/
def isNumber : SExpr → Bool
  | .raw (.int _) | .raw (.num _) => true
  | _ => false

/-- The dump of a number is a number. -/
theorem isNumber_dumpValue (d : Double) : isNumber (dumpValue (.num d)) = true := by
  rw [dumpValue_num]
  cases d.integer? <;> rfl

/-- Numbers without a minus sign are determined by their dumps. -/
theorem eq_of_dumpValue_num {a b : Double} (ha : a.isSigned = false) (hb : b.isSigned = false)
    (same : dumpValue (.num a) = dumpValue (.num b)) : a = b := by
  rw [dumpValue_num, dumpValue_num] at same
  -- A number is dumped as an integer if it is one, and by itself if not.
  cases first : a.integer? with
  | none =>
    cases second : b.integer? with
    | none =>
      rw [first, second] at same
      cases same
      rfl
    | some n => rw [first, second] at same; cases same
  | some n =>
    cases second : b.integer? with
    | none => rw [first, second] at same; cases same
    | some k =>
      rw [first, second] at same
      cases same
      exact Double.eq_of_integer? ha hb first second

/-- Plain data is told by its dump. -/
theorem eq_of_dumpPlain {v w : Tree} (hv : IsAtom v) (hw : IsAtom w)
    (same : dumpPlain v = dumpPlain w) : v = w := by
  -- The symbols of the atoms are distinct.
  have flags : ∀ b : Bool, (if b then Text.ofString "true" else "false") ≠ "nil" := by decide
  have apart : ∀ b c : Bool, (if b then Text.ofString "true" else "false") =
      (if c then Text.ofString "true" else "false") → b = c := by decide
  cases hv with
  | null =>
    cases hw with
    | null => rfl
    | bool b => exact (flags b (SExpr.symbol.inj same).symm).elim
    | text => cases same
  | bool b =>
    cases hw with
    | null => exact (flags b (SExpr.symbol.inj same)).elim
    | bool c => rw [apart b c (SExpr.symbol.inj same)]
    | text => cases same
  | text t =>
    cases hw with
    | text => cases same; rfl
    | _ => cases same

/-- The value of a literal is determined by its dump. -/
theorem eq_of_dumpValue {v w : Tree} (hv : IsValue v) (hw : IsValue w)
    (same : dumpValue v = dumpValue w) : v = w := by
  have other {t : Tree} (atom : IsAtom t) : isNumber (dumpValue t) = false := by
    rw [dumpValue_atom atom]
    cases atom <;> rfl
  have numbers := congrArg isNumber same
  cases hv with
  | atom atom =>
    cases hw with
    | atom atom' =>
      rw [dumpValue_atom atom, dumpValue_atom atom'] at same
      exact eq_of_dumpPlain atom atom' same
    | num => rw [other atom, isNumber_dumpValue] at numbers; cases numbers
  | num unsigned =>
    cases hw with
    | atom atom' => rw [other atom', isNumber_dumpValue] at numbers; cases numbers
    | num unsigned' => rw [eq_of_dumpValue_num unsigned unsigned' same]

/-- The values of the fields are determined by their dump. -/
theorem values_of_dumpFields {cs ds : List (Text × SExpr)} (same : dumpFields cs = dumpFields ds) :
    cs.map (·.2) = ds.map (·.2) := by
  induction cs generalizing ds with
  | nil =>
    cases ds with
    | nil => rfl
    | cons d ds => cases same
  | cons c cs ih =>
    cases ds with
    | nil => cases same
    | cons d ds =>
      obtain ⟨-, values⟩ := List.cons.inj same
      obtain ⟨value, others⟩ := List.cons.inj values
      rw [List.map_cons, List.map_cons, value, ih others]

/-- Trees with the same dumps item by item. -/
theorem map_bare_eq {ts us : List Tree}
    (each : ∀ t ∈ ts, ∀ u, Dumped u → toSExpr false t = toSExpr false u → t.bare = u.bare)
    (dumped : ∀ u ∈ us, Dumped u) (same : ts.map (toSExpr false) = us.map (toSExpr false)) :
    ts.map bare = us.map bare := by
  induction ts generalizing us with
  | nil =>
    cases us with
    | nil => rfl
    | cons u us => cases same
  | cons t ts ih =>
    cases us with
    | nil => cases same
    | cons u us =>
      rw [List.forall_mem_cons] at each dumped
      obtain ⟨first, others⟩ := List.cons.inj same
      rw [List.map_cons, List.map_cons, each.1 u dumped.1 first, ih each.2 dumped.2 others]

/-- What is dumped like a node is a node of its kind. -/
theorem node_of_toSExpr {l : Option Location} {shape : Shape Tree} {u : Tree}
    (ht : Dumped (.node l shape)) (hu : Dumped u)
    (same : toSExpr false (.node l shape) = toSExpr false u) :
    ∃ l' shape', u = .node l' shape' ∧ shape.kind = shape'.kind := by
  -- The first item names the class, which the kind decides.
  obtain ⟨own, rest, shown⟩ := exists_toSExpr ht rfl
  rw [shown] at same
  have node {l' : Option Location} {shape' : Shape Tree} (is : u = .node l' shape') :
      shape.kind = shape'.kind := by
    obtain ⟨own', rest', shown'⟩ := exists_toSExpr hu is
    rw [shown'] at same
    exact Kind.eq_of_hyphenated own own' (SExpr.symbol.inj (List.cons.inj (SExpr.list.inj same)).1)
  cases hu with
  | atom atom =>
    rw [toSExpr_atom atom] at same
    cases atom <;> cases same
  -- The first item of a row is shown by itself, so that it is no symbol of a class.
  | @tuple items each =>
    rw [toSExpr_tuple] at same
    cases items with
    | nil => cases same
    | cons item items =>
      have first := (List.cons.inj (SExpr.list.inj same)).1
      exact (toSExpr_ne_symbol (each item List.mem_cons_self) own first.symm).elim
  | identifier | literal | node => exact ⟨_, _, rfl, node rfl⟩

/-- Dumped trees with the same S-expression are the same but for their locations. -/
theorem bare_eq_of_toSExpr {t u : Tree} (ht : Dumped t) (hu : Dumped u)
    (same : toSExpr false t = toSExpr false u) : t.bare = u.bare := by
  -- By induction on how the first tree is dumped; the second one has the same form.
  induction ht generalizing u with
  | atom atom =>
    have known := hu
    cases hu with
    | atom atom' =>
      rw [toSExpr_atom atom, toSExpr_atom atom'] at same
      rw [eq_of_dumpPlain atom atom' same]
    | tuple =>
      rw [toSExpr_atom atom, toSExpr_tuple] at same
      cases atom <;> cases same
    | identifier | literal | node =>
      obtain ⟨l, shape, is, -⟩ := node_of_toSExpr known (.atom atom) same.symm
      rw [is] at atom
      cases atom
  | @tuple items each ih =>
    have known := hu
    cases hu with
    | atom atom' =>
      rw [toSExpr_atom atom', toSExpr_tuple] at same
      cases atom' <;> cases same
    | @tuple items' each' =>
      rw [toSExpr_tuple, toSExpr_tuple] at same
      -- The items are shown one by one.
      rw [bare_tuple, bare_tuple,
        map_bare_eq (fun t ht u hu => ih t ht hu) each' (SExpr.list.inj same)]
    | identifier | literal | node =>
      obtain ⟨l, shape, is, -⟩ := node_of_toSExpr known (.tuple each) same.symm
      cases is
  | identifier l name =>
    obtain ⟨l', shape', rfl, kind⟩ := node_of_toSExpr (.identifier l name) hu same
    cases hu with
    | atom atom => cases atom
    | identifier l' name' =>
      rw [toSExpr_identifier, toSExpr_identifier] at same
      cases same
      rfl
    | literal => cases kind
    | node _ ordinary => exact ((Shape.kind_of_isOrdinary ordinary).1 kind.symm).elim
  | literal l known =>
    obtain ⟨l', shape', rfl, kind⟩ := node_of_toSExpr (.literal l known) hu same
    cases hu with
    | atom atom => cases atom
    | identifier => cases kind
    | literal l' known' =>
      rw [toSExpr_literal l known, toSExpr_literal l' known'] at same
      -- The value is the item behind the class.
      have values := (List.cons.inj (List.cons.inj (SExpr.list.inj same)).2).1
      rw [eq_of_dumpValue known known' values]
      rfl
    | node _ ordinary => exact ((Shape.kind_of_isOrdinary ordinary).2.1 kind.symm).elim
  | @node l shape ordinary each ih =>
    obtain ⟨l', shape', rfl, kind⟩ := node_of_toSExpr (.node l ordinary each) hu same
    obtain ⟨identifier, literal, own⟩ := Shape.kind_of_isOrdinary ordinary
    cases hu with
    | atom atom => cases atom
    | identifier => exact (identifier kind).elim
    | literal => exact (literal kind).elim
    | node l' ordinary' each' =>
      rw [toSExpr_node l ordinary, toSExpr_node l' ordinary'] at same
      -- Behind the class there are the values of the fields, each with its keyword.
      have fields := values_of_dumpFields (List.cons.inj (SExpr.list.inj same)).2
      rw [List.map_map, List.map_map] at fields
      have values : shape.parts.map (toSExpr false) = shape'.parts.map (toSExpr false) := by
        rw [Shape.parts, Shape.parts, List.map_map, List.map_map]
        exact fields
      have parts := map_bare_eq (fun t ht u hu => ih t ht hu) each' values
      have shapes : shape.map bare = shape'.map bare := by
        refine Shape.eq_of_parts ?_ ?_ ?_
        · rwa [Shape.kind_map]
        · rw [Shape.kind_map, Shape.kind_map, kind]
        · rw [Shape.parts_map, Shape.parts_map, parts]
      rw [bare_node, bare_node, shapes]

/-- Locations do not matter to a dump without them. -/
theorem toSExpr_bare {t : Tree} (dumped : Dumped t) : toSExpr false t.bare = toSExpr false t := by
  have whole {v : Tree} (atom : IsAtom v) : v.bare = v := by
    cases atom <;> rfl
  -- By induction on how the tree is dumped: locations are not shown.
  induction dumped with
  | atom atom => rw [whole atom]
  | tuple each ih =>
    rw [bare_tuple, toSExpr_tuple, toSExpr_tuple, List.map_map]
    exact congrArg SExpr.list (List.map_congr_left ih)
  | identifier l name =>
    rw [bare_node]
    exact (toSExpr_identifier none _).trans (toSExpr_identifier l _).symm
  | literal l known =>
    have value {v : Tree} (known : IsValue v) : v.bare = v := by
      cases known with
      | atom atom => exact whole atom
      | num => rfl
    rw [bare_node, Shape.map, value known, toSExpr_literal none known, toSExpr_literal l known]
  | @node l shape ordinary each ih =>
    -- The names of the fields stay the same, and so do their values.
    have fields : shape.children.map (fun c => (c.1, toSExpr false c.2.bare)) =
        shape.children.map fun c => (c.1, toSExpr false c.2) :=
      List.map_congr_left fun c hc => by rw [ih c.2 (List.mem_map_of_mem hc)]
    have ordinary' : (shape.map bare).isOrdinary = true := by
      cases shape <;> exact ordinary
    rw [bare_node, toSExpr_node none ordinary', toSExpr_node l ordinary, Shape.kind_map,
      Shape.children_map, List.map_map]
    exact congrArg (fun fields => SExpr.list (_ :: dumpFields fields)) fields

/-- Trees are dumped, without locations, and in either form two of them have the same dump exactly
when they are the same but for their locations. -/
theorem dump_eq_iff {t u : Tree} (ht : Dumped t) (hu : Dumped u) (pretty : Bool) :
    (∃ text, t.dump ⟨pretty, false⟩ = .ok text) ∧
      (t.dump ⟨pretty, false⟩ = u.dump ⟨pretty, false⟩ ↔ t.bare = u.bare) := by
  have alike (same : t.bare = u.bare) : toSExpr false t = toSExpr false u := by
    rw [← toSExpr_bare ht, same, toSExpr_bare hu]
  cases pretty with
  | false =>
    obtain ⟨text, written, -⟩ := SExpr.reads_compact ht.plain
    refine ⟨⟨text, written⟩, fun same => ?_, fun same => congrArg SExpr.compact (alike same)⟩
    exact bare_eq_of_toSExpr ht hu (SExpr.compact_injective ht.plain hu.plain same)
  | true =>
    refine ⟨⟨_, rfl⟩, fun same => ?_, fun same => ?_⟩
    · exact bare_eq_of_toSExpr ht hu
        (SExpr.pretty_injective ht.plain hu.plain (Except.ok.inj same))
    · exact congrArg (fun s => Except.ok (s.pretty 0)) (alike same)

end Tree

end TailLoop
