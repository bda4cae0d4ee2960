import TailLoop.Proofs.Reading.Faults
import TailLoop.Proofs.Reading.Places
import TailLoop.Proofs.Reading.Programs
import TailLoop.Proofs.RoundTrip.Programs

/-!
# Where nodes were read

In the tree of a text that holds at least one statement every node has a place in the text, whose
text is a row of tokens that starts and ends as nodes of its kind do. The nodes below a node lie in
its place, between the texts that it starts and ends with, one after the other in the order of the
fields (`spans_of_parse`).

The parts on the stack of the reader lie one after the other as well, with nothing but white space
and comments between them (`Laid`), up to the position of the reader. A phrase reaches from its
first part to its last, and the fields of a node are drawn from the parts in their order (`Drawn`).
Only the program of a text without tokens is nowhere, as it has no parts.
-/

namespace TailLoop

/-! ## Nodes in order -/

/-- The rules that list the outermost nodes of a tree. -/
def Tree.topRules : Tree.Rules (List Tree) where
  atom _ := []
  tuple := List.flatten
  list _ _ := []
  dict _ _ := []
  node t _ := [t]

/-- The outermost nodes of a tree: itself if it is one, or those of the items of a row. -/
def Tree.tops (t : Tree) : List Tree := Tree.fold Tree.topRules t

/-- The nodes directly below a node, fields in order. -/
def Shape.childNodes (shape : Shape Tree) : List Tree := shape.parts.flatMap Tree.tops

/-- Nodes lie between two offsets, one after the other. -/
def InOrder (file source : Text) (lo hi : Nat) : List Tree → Prop
  | [] => lo ≤ hi
  | t :: rest => ∃ start stop, t.location? = some (.between file source start stop) ∧ lo ≤ start ∧
    start < stop ∧ InOrder file source stop hi rest

namespace InOrder

variable {file source : Text} {lo mid hi lo' hi' : Nat} {ts us : List Tree} {t : Tree}

/-- Nodes in order leave the lower end below the upper one. -/
theorem le (h : InOrder file source lo hi ts) : lo ≤ hi := by
  induction ts generalizing lo with
  | nil => exact h
  | cons t ts ih =>
    obtain ⟨start, stop, -, after, proper, rest⟩ := h
    have := ih rest
    omega

/-- Nodes in order are so between ends further apart. -/
theorem widen (h : InOrder file source lo hi ts) (before : lo' ≤ lo) (after : hi ≤ hi') :
    InOrder file source lo' hi' ts := by
  induction ts generalizing lo lo' with
  | nil => exact Nat.le_trans (Nat.le_trans before h) after
  | cons t ts ih =>
    obtain ⟨start, stop, located, first, proper, rest⟩ := h
    exact ⟨start, stop, located, Nat.le_trans before first, proper, ih rest (Nat.le_refl _)⟩

/-- Nodes in order up to a middle, and nodes in order from there. -/
theorem append (h : InOrder file source lo mid ts) (h' : InOrder file source mid hi us) :
    InOrder file source lo hi (ts ++ us) := by
  induction ts generalizing lo with
  | nil => exact h'.widen h (Nat.le_refl _)
  | cons t ts ih =>
    obtain ⟨start, stop, located, first, proper, rest⟩ := h
    exact ⟨start, stop, located, first, proper, ih rest⟩

/-- Each of the nodes lies between the offsets. -/
theorem mem (h : InOrder file source lo hi ts) (ht : t ∈ ts) : ∃ start stop,
    t.location? = some (.between file source start stop) ∧ start < stop ∧ lo ≤ start ∧
      stop ≤ hi := by
  induction ts generalizing lo with
  | nil => cases ht
  | cons u us ih =>
    obtain ⟨start, stop, located, first, proper, rest⟩ := h
    rcases List.mem_cons.mp ht with rfl | ht
    · exact ⟨start, stop, located, proper, first, rest.le⟩
    · obtain ⟨start', stop', located', proper', first', last'⟩ := ih rest ht
      exact ⟨start', stop', located', proper', by omega, last'⟩

/-- An earlier one of the nodes ends before a later one starts. -/
theorem pairwise (h : InOrder file source lo hi ts) :
    ts.Pairwise fun t u => ∀ l l', t.location? = some l → u.location? = some l' →
      l.stop ≤ l'.start := by
  induction ts generalizing lo with
  | nil => exact .nil
  | cons t ts ih =>
    obtain ⟨start, stop, located, first, proper, rest⟩ := h
    refine .cons (fun u hu l l' same same' => ?_) (ih rest)
    obtain ⟨start', stop', located', -, first', -⟩ := rest.mem hu
    cases located.symm.trans same
    cases located'.symm.trans same'
    exact Int.ofNat_le.mpr first'

end InOrder

/-- A node has a place, which is a row of tokens that it was read from. The nodes below it lie in its
place, between the texts that it starts and ends with, one after the other. -/
def HasSpan (file source : Text) (u : Tree) : Prop :=
  ∃ start stop shape, u = .node (some (.between file source start stop)) shape ∧
    Source.Tokens source start stop ∧ shape.IsReadFrom (Source.slice source start stop) ∧
    ∃ inner, inner + shape.closing.length = stop ∧
      InOrder file source (start + shape.opening.length) inner shape.childNodes

/-- The outermost nodes of a tree lie between two offsets in order, and all its nodes have places. -/
structure Enclosed (file source : Text) (lo hi : Nat) (t : Tree) : Prop where
  tops : InOrder file source lo hi t.tops
  nodes : ∀ u ∈ t.nodes, HasSpan file source u

namespace Enclosed

variable {file source : Text} {lo mid hi lo' hi' : Nat} {t : Tree} {ts us : List Tree}

/-- What is enclosed is enclosed by ends further apart. -/
theorem widen (h : Enclosed file source lo hi t) (before : lo' ≤ lo) (after : hi ≤ hi') :
    Enclosed file source lo' hi' t :=
  ⟨h.tops.widen before after, h.nodes⟩

/-- The outermost nodes of a row are those of its items. -/
theorem tops_tuple (ts : List Tree) : (Tree.tuple ts).tops = ts.flatMap Tree.tops := by
  rw [Tree.tops, Tree.fold, Tree.foldItems_eq_map]
  rfl

/-- A tree without nodes lies anywhere. -/
theorem plain (tops : t.tops = []) (nodes : t.nodes = []) (le : lo ≤ hi) :
    Enclosed file source lo hi t := by
  refine ⟨?_, ?_⟩
  · rw [tops]
    exact le
  · rw [nodes]
    nofun

/-- Two rows, one enclosed after the other. -/
theorem append (h : Enclosed file source lo mid (.tuple ts))
    (h' : Enclosed file source mid hi (.tuple us)) :
    Enclosed file source lo hi (.tuple (ts ++ us)) := by
  refine ⟨?_, ?_⟩
  · rw [tops_tuple, List.flatMap_append, ← tops_tuple, ← tops_tuple]
    exact h.tops.append h'.tops
  · rw [Tree.nodes_row, List.flatMap_append, ← Tree.nodes_row, ← Tree.nodes_row]
    exact List.forall_mem_append.mpr ⟨h.nodes, h'.nodes⟩

/-- A row of one tree. -/
theorem single (h : Enclosed file source lo hi t) : Enclosed file source lo hi (.tuple [t]) := by
  refine ⟨?_, ?_⟩
  · rw [tops_tuple, List.flatMap_singleton]
    exact h.tops
  · rw [Tree.nodes_row, List.flatMap_singleton]
    exact h.nodes

/-- A tree and a row after it. -/
theorem cons (h : Enclosed file source lo mid t) (h' : Enclosed file source mid hi (.tuple ts)) :
    Enclosed file source lo hi (.tuple (t :: ts)) :=
  h.single.append h'

/-- A row in a row. -/
theorem inner (h : Enclosed file source lo hi (.tuple (us ++ ts))) :
    Enclosed file source lo hi (.tuple (.tuple us :: ts)) := by
  refine ⟨?_, ?_⟩
  · rw [tops_tuple, List.flatMap_cons, tops_tuple, ← List.flatMap_append, ← tops_tuple]
    exact h.tops
  · rw [Tree.nodes_row, List.flatMap_cons, Tree.nodes_row, ← List.flatMap_append, ← Tree.nodes_row]
    exact h.nodes

end Enclosed

/-! ## Parts in order -/

namespace Source

open Grammar Grammar.Automaton

variable {file source x : Text} {lo mid hi lo' hi' start stop : Nat} {ps qs : Parts} {p : Part}

/-- The tree that a content is, or the row that its trees make. A token has none. -/
def held : Content → Tree
  | .token _ => .null
  | .tree t => t
  | .trees ts => .tuple ts

/-- A part was read between two offsets, as a row of tokens in which its content lies. A token is
its text, and a program has the place of the part. -/
structure IsPlaced (file source : Text) (start stop : Nat) (p : Part) : Prop where
  location_eq : p.location = .between file source start stop
  tokens : Tokens source start stop
  text : ∀ x, p.content = .token x → x = slice source start stop
  program : ∀ t, p.content = .tree t → t.kind? = some .program → t.location? = some p.location
  within : Enclosed file source start stop (held p.content)

/-- A token is placed where its text stands. -/
theorem IsPlaced.of_token {l : Location} {x : Text} (location : l = .between file source start stop)
    (token : IsToken source start stop) (text : x = slice source start stop) :
    IsPlaced file source start stop ⟨.token x, l⟩ :=
  ⟨location, .token token, fun _ same => Content.token.inj same ▸ text, nofun,
    .plain rfl rfl token.bounds.1.le⟩

/-- A place holds at least one code point. -/
theorem IsPlaced.lt (h : IsPlaced file source start stop p) : start < stop := h.tokens.bounds.1

/-- Parts lie between two offsets, one after the other, with nothing but white space and comments
between them. -/
inductive Laid (file source : Text) : Nat → Nat → Parts → Prop
  | nil {lo hi : Nat} (gap : Skips source lo hi) : Laid file source lo hi []
  | cons {lo start stop hi : Nat} {p : Part} {ps : Parts} (gap : Skips source lo start)
    (placed : IsPlaced file source start stop p) (rest : Laid file source stop hi ps) :
    Laid file source lo hi (p :: ps)

namespace Laid

/-- Parts leave the lower end below the upper one. -/
theorem le (h : Laid file source lo hi ps) : lo ≤ hi := by
  induction h with
  | nil gap => exact gap.le
  | cons gap placed rest ih =>
    have first := gap.le
    have proper := placed.lt
    omega

/-- Parts are laid between ends further apart, if only blanks and comments are added. -/
theorem widen (h : Laid file source lo hi ps) (before : Skips source lo' lo)
    (after : Skips source hi hi') : Laid file source lo' hi' ps := by
  induction h generalizing lo' with
  | nil gap => exact .nil ((before.trans gap).trans after)
  | cons gap placed rest ih => exact .cons (before.trans gap) placed (ih (.refl _) after)

/-- Parts up to a middle, and parts from there. -/
theorem append (h : Laid file source lo mid ps) (h' : Laid file source mid hi qs) :
    Laid file source lo hi (ps ++ qs) := by
  induction h with
  | nil gap => exact h'.widen gap (.refl _)
  | cons gap placed rest ih => exact .cons gap placed (ih h')

/-- Parts in a row are parts up to a middle and parts from there. -/
theorem of_append (h : Laid file source lo hi (ps ++ qs)) :
    ∃ mid, Laid file source lo mid ps ∧ Laid file source mid hi qs := by
  induction ps generalizing lo with
  | nil => exact ⟨lo, .nil (.refl _), h⟩
  | cons p ps ih =>
    cases h with
    | cons gap placed rest =>
      obtain ⟨mid, first, second⟩ := ih rest
      exact ⟨mid, .cons gap placed first, second⟩

/-- The parts that are left when some are dropped. -/
theorem drop (h : Laid file source lo hi ps) (i : Nat) :
    ∃ lo', lo ≤ lo' ∧ Laid file source lo' hi (ps.drop i) := by
  rw [← List.take_append_drop i ps] at h
  obtain ⟨mid, first, second⟩ := h.of_append
  exact ⟨mid, first.le, second⟩

/-- The stretch from the first part to the last one is a row of tokens. -/
theorem reach (h : Laid file source lo hi (p :: ps)) : ∃ start stop,
    joined p.location ((p :: ps).getLast (List.cons_ne_nil _ _)).location =
      .between file source start stop ∧ Skips source lo start ∧ Tokens source start stop ∧
      Skips source stop hi ∧ Laid file source start stop (p :: ps) := by
  -- By induction on the parts: the location of all joins the first one with that of the rest.
  induction ps generalizing p lo with
  | nil =>
    cases h with
    | @cons _ start stop _ _ _ gap placed rest =>
      cases rest with
      | nil last =>
        refine ⟨start, stop, ?_, gap, placed.tokens, last, .cons (.refl _) placed (.nil (.refl _))⟩
        rw [List.getLast_singleton, placed.location_eq, joined_between]
  | cons q qs ih =>
    cases h with
    | @cons _ start mid _ _ _ gap placed rest =>
      obtain ⟨start', stop, whole, between, tokens, last, tight⟩ := ih rest
      refine ⟨start, stop, ?_, gap, placed.tokens.append between tokens, last,
        .cons (.refl _) placed (tight.widen between (.refl _))⟩
      rw [List.getLast_cons_cons, placed.location_eq]
      calc joined (.between file source start mid) (List.getLast (q :: qs) _).location
        _ = joined (.between file source start mid)
              (joined q.location (List.getLast (q :: qs) _).location) := rfl
        _ = .between file source start stop := by rw [whole, joined_between]

/-- A phrase reaches from its first part to its last. -/
theorem extent (h : Laid file source lo hi ps) (some : ps ≠ []) : ∃ start stop,
    Source.extent file ps = .between file source start stop ∧ Skips source lo start ∧
      Tokens source start stop ∧ Skips source stop hi ∧ Laid file source start stop ps := by
  obtain ⟨first, rest, rfl⟩ := List.exists_cons_of_ne_nil some
  obtain ⟨start, stop, whole, reached⟩ := h.reach
  refine ⟨start, stop, ?_, reached⟩
  rw [Source.extent, List.head?_cons, List.getLast?_eq_some_getLast (List.cons_ne_nil _ _)]
  exact whole

end Laid

/-! ## Fields from parts -/

/-- Trees are drawn from the parts from a position on and before another, each after the one before
it. -/
def Drawn (file source : Text) (ps : Parts) (i k : Nat) (ts : List Tree) : Prop :=
  ∀ lo hi, Laid file source lo hi ((ps.take k).drop i) → Enclosed file source lo hi (.tuple ts)

namespace Drawn

variable {i j k : Nat} {t : Tree} {ts us : List Tree}

/-- No trees are drawn from any parts. -/
theorem nil : Drawn file source ps i k [] := fun _ _ laid => .plain rfl rfl laid.le

/-- A field without nodes. -/
theorem plain (tops : t.tops = []) (nodes : t.nodes = []) (rest : Drawn file source ps i k ts) :
    Drawn file source ps i k (t :: ts) := fun lo hi laid =>
  Enclosed.cons (.plain tops nodes (Nat.le_refl lo)) (rest lo hi laid)

/-- A row in a row. -/
theorem inner (h : Drawn file source ps i k (us ++ ts)) :
    Drawn file source ps i k (.tuple us :: ts) :=
  fun lo hi laid => (h lo hi laid).inner

/-- Trees of a part, before those of later parts. -/
theorem part (before : i ≤ j) (inside : j < k) (own : ∀ p start stop, ps[j]? = some p →
      IsPlaced file source start stop p → Enclosed file source start stop (.tuple us))
    (there : j < ps.length) (rest : Drawn file source ps (j + 1) k ts) :
    Drawn file source ps i k (us ++ ts) := by
  intro lo hi laid
  obtain ⟨lo', start, laid⟩ := laid.drop (j - i)
  have bound : j < (ps.take k).length := by
    rw [List.length_take]
    omega
  rw [List.drop_drop, Nat.add_sub_cancel' before, List.drop_eq_getElem_cons bound] at laid
  cases laid with
  | cons gap placed later =>
    rw [List.getElem_take] at placed
    have first := own _ _ _ (List.getElem?_eq_getElem there) placed
    exact (first.widen (Nat.le_trans start gap.le) (Nat.le_refl _)).append (rest _ _ later)

/-- A tree is drawn from its part, and the rest from the parts after it. -/
theorem tree (before : i ≤ j) (inside : j < k) (there : j < ps.length)
    (rest : Drawn file source ps (j + 1) k ts) : Drawn file source ps i k (ps.tree j :: ts) := by
  change Drawn file source ps i k ([ps.tree j] ++ ts)
  refine part before inside (fun p start stop found placed => .single ?_) there rest
  have within := placed.within
  obtain ⟨c, l⟩ := p
  rw [Parts.tree, found]
  cases c with
  | tree t => exact within
  | _ => exact .plain rfl rfl placed.lt.le

/-- The trees of a row are drawn from its part, and the rest from the parts after it. -/
theorem trees (before : i ≤ j) (inside : j < k) (there : j < ps.length)
    (rest : Drawn file source ps (j + 1) k ts) : Drawn file source ps i k (ps.trees j ++ ts) := by
  refine part before inside (fun p start stop found placed => ?_) there rest
  have within := placed.within
  obtain ⟨c, l⟩ := p
  rw [Parts.trees, found]
  cases c with
  | trees ts => exact within
  | _ => exact .plain rfl rfl placed.lt.le

/-- Trees of a part, with none after them. -/
theorem rest (before : i ≤ j) (inside : j < k) (there : j < ps.length) :
    Drawn file source ps i k (ps.trees j) := by
  have alone : Drawn file source ps i k (ps.trees j ++ []) := trees before inside there nil
  rwa [List.append_nil] at alone

/-- A row is drawn from its part as one tree, and the rest from the parts after it. -/
theorem row (before : i ≤ j) (inside : j < k) (there : j < ps.length)
    (rest : Drawn file source ps (j + 1) k ts) : Drawn file source ps i k (ps.row j :: ts) :=
  inner (trees before inside there rest)

end Drawn

/-- A node in a place with its fields in order. -/
theorem within_node {shape : Shape Tree} (tokens : Tokens source start stop)
    (read : shape.IsReadFrom (slice source start stop)) {inner : Nat}
    (closes : inner + shape.closing.length = stop)
    (fields : Enclosed file source (start + shape.opening.length) inner (.tuple shape.parts)) :
    Enclosed file source start stop (.node (some (.between file source start stop)) shape) := by
  refine ⟨⟨start, stop, rfl, Nat.le_refl _, tokens.bounds.1, Nat.le_refl _⟩, ?_⟩
  rw [Tree.nodes_parts]
  refine List.forall_mem_cons.mpr ⟨⟨start, stop, shape, rfl, tokens, read, inner, closes, ?_⟩, ?_⟩
  · have := fields.tops
    rwa [Enclosed.tops_tuple] at this
  · have := fields.nodes
    rwa [Tree.nodes_row] at this

/-- A node without further nodes. -/
theorem within_leaf {shape : Shape Tree} (tokens : Tokens source start stop)
    (read : shape.IsReadFrom (slice source start stop))
    (bare : shape.opening = [] ∧ shape.closing = []) (tops : (Tree.tuple shape.parts).tops = [])
    (nodes : (Tree.tuple shape.parts).nodes = []) :
    Enclosed file source start stop (.node (some (.between file source start stop)) shape) := by
  have closes : stop + shape.closing.length = stop := by
    rw [bare.2]
    rfl
  refine within_node tokens read closes ?_
  rw [bare.1]
  exact .plain tops nodes tokens.bounds.1.le

namespace Drawn

variable {symbols : List Symbol} {i j k : Nat} {ts : List Tree}

/-- A node at the place of a name. -/
theorem atName {shape : Shape Tree} (before : i ≤ j) (inside : j < k) (fits : Fitting symbols ps)
    (here : symbols[j]? = some (.terminal .name))
    (own : ∀ l, ps[j]?.map (·.location) = some l → ∀ start stop, Tokens source start stop →
      ps.text j = slice source start stop → l = .between file source start stop →
      Enclosed file source start stop (.node (some l) shape))
    (rest : Drawn file source ps (j + 1) k ts) :
    Drawn file source ps i k (ps.nodeAt j shape :: ts) := by
  obtain ⟨⟨c, l⟩, found, token⟩ := fits.part j here
  -- The part is a token, so that its place is that of its text.
  cases c with
  | token x =>
    change Drawn file source ps i k ([ps.nodeAt j shape] ++ ts)
    refine part before inside (fun p start stop found' placed => .single ?_)
      (List.getElem?_eq_some_iff.mp found).1 rest
    cases found.symm.trans found'
    have text : ps.text j = x := by rw [Parts.text, found]
    have location : ps[j]?.map (·.location) = some l := by rw [found, Option.map_some]
    rw [Parts.nodeAt, location]
    exact own l location start stop placed.tokens (text.trans (placed.text x rfl))
      placed.location_eq
  | _ => cases token

/-- An identifier is read from its name. -/
theorem name (before : i ≤ j) (inside : j < k) (fits : Fitting symbols ps)
    (here : symbols[j]? = some (.terminal .name)) (rest : Drawn file source ps (j + 1) k ts) :
    Drawn file source ps i k (ps.name j :: ts) :=
  atName before inside fits here (fun l _ start stop tokens text location => by
    rw [location]
    exact within_leaf tokens (congrArg Tree.text text) ⟨rfl, rfl⟩ rfl rfl) rest

/-- A variable without a value, at the place of its name. -/
theorem declarator (before : i ≤ j) (inside : j < k) (fits : Fitting symbols ps)
    (here : symbols[j]? = some (.terminal .name)) (rest : Drawn file source ps (j + 1) k ts) :
    Drawn file source ps i k (ps.nodeAt j (.variableDeclarator (ps.name j) absent) :: ts) := by
  refine atName before inside fits here (fun l there start stop tokens text location => ?_) rest
  have own : Enclosed file source start stop (ps.name j) := by
    rw [Parts.name, Parts.nodeAt, there, location]
    exact within_leaf tokens (congrArg Tree.text text) ⟨rfl, rfl⟩ rfl rfl
  rw [location]
  exact within_node tokens ⟨List.nil_prefix, List.nil_suffix⟩ (Nat.add_zero stop)
    (own.cons (.plain rfl rfl (Nat.le_refl _)))

end Drawn

/-! ## What a phrase starts and ends with -/

/-- The text of the token that parts start with, with the number of this token; it may be left out. -/
inductive Opens (ps : Parts) : Nat → Text → Prop
  | bare : Opens ps 0 []
  | token {x : Text} {l : Location} (first : ps[0]? = some ⟨.token x, l⟩) : Opens ps 1 x

/-- The text of the token that parts end with, with the number of the parts before it; it may be left
out. -/
inductive Closes (ps : Parts) : Nat → Text → Prop
  | bare {k : Nat} (whole : ps.length = k) : Closes ps k []
  | token {k : Nat} {x : Text} {l : Location} (last : ps[k]? = some ⟨.token x, l⟩)
    (whole : ps.length = k + 1) : Closes ps k x

/-- Parts of symbols reach from one offset to another. -/
structure IsPhrase (file source : Text) (start stop : Nat) (symbols : List Symbol) (ps : Parts) :
    Prop where
  fitting : Fitting symbols ps
  cut : List.Forall₂ (fun X part => IsTokenOf source X part.content) symbols ps
  extent_eq : extent file ps = .between file source start stop
  tokens : Tokens source start stop
  laid : Laid file source start stop ps

namespace IsPhrase

variable {symbols : List Symbol} {i k : Nat} {y : Text}

/-- A phrase starts where its first part does. -/
theorem start_eq (h : IsPhrase file source start stop symbols ps) (first : ps[0]? = some p) :
    p.location.start = start := by
  have extent := h.extent_eq
  cases ps with
  | nil => cases first
  | cons q qs =>
    cases first
    rw [Source.extent, List.head?_cons, List.getLast?_cons] at extent
    exact congrArg Location.start extent

/-- A phrase stops where its last part does. -/
theorem stop_eq (h : IsPhrase file source start stop symbols (qs ++ [p])) :
    p.location.stop = stop := by
  have extent := h.extent_eq
  obtain ⟨first, head⟩ : ∃ first, (qs ++ [p]).head? = some first :=
    ⟨_, List.head?_eq_some_head (List.append_ne_nil_of_right_ne_nil _ (List.cons_ne_nil _ _))⟩
  rw [Source.extent, head, List.getLast?_concat] at extent
  exact congrArg Location.stop extent

/-- The parts after the token that parts start with. -/
theorem after_opening (laid : Laid file source start stop ps)
    (begins : ∀ p : Part, ps[0]? = some p → p.location.start = (start : Int)) (opens : Opens ps i x) :
    x <+: slice source start stop ∧ Laid file source (start + x.length) stop (ps.drop i) := by
  -- By whether the phrase opens with a token of its own.
  cases opens with
  | bare => exact ⟨List.nil_prefix, laid⟩
  | token first =>
    have here := begins _ first
    cases laid with
    | nil => cases first
    | @cons _ start' mid _ _ _ gap placed rest =>
      cases first
      rw [placed.location_eq] at here
      -- The token begins where the phrase does, so that its text is at the start.
      cases Int.ofNat.inj here
      have text := placed.text x rfl
      have length : start + x.length = mid := by
        rw [text, length_slice placed.tokens.bounds.2]
        exact Nat.add_sub_cancel' placed.lt.le
      rw [length]
      exact ⟨text ▸ slice_prefix rest.le, rest⟩

/-- The parts before the token that a phrase ends with. -/
theorem before_closing (h : IsPhrase file source start stop symbols ps) (closes : Closes ps k y) :
    y <:+ slice source start stop ∧ ∃ inner, inner + y.length = stop ∧
      Laid file source start inner (ps.take k) := by
  -- By whether the phrase closes with a token of its own.
  cases closes with
  | bare whole =>
    refine ⟨List.nil_suffix, stop, rfl, ?_⟩
    rw [← whole, List.take_length]
    exact h.laid
  | @token _ l last whole =>
    obtain ⟨qs, rfl⟩ : ∃ qs, ps = qs ++ [⟨.token y, l⟩] := by
      refine ⟨ps.take k, ?_⟩
      conv_lhs => rw [← List.take_append_drop k ps]
      rw [List.drop_eq_getElem?_toList_append, last, List.drop_eq_nil_of_le (Nat.le_of_eq whole)]
      rfl
    have ends := h.stop_eq
    -- The parts in front of the last one are those that are taken.
    have short : qs.length = k := by
      rw [List.length_append] at whole
      exact Nat.succ.inj whole
    obtain ⟨mid, before, own⟩ := h.laid.of_append
    cases own with
    | @cons _ start' stop' _ _ _ gap placed rest =>
      -- The last token ends where the phrase does.
      rw [placed.location_eq] at ends
      cases Int.ofNat.inj ends
      have text := placed.text y rfl
      have later : start ≤ start' := Nat.le_trans before.le gap.le
      refine ⟨text ▸ slice_suffix later, start', ?_, ?_⟩
      · rw [text, length_slice placed.tokens.bounds.2]
        exact Nat.add_sub_cancel' placed.lt.le
      · rw [← short, List.take_left]
        exact before.widen (.refl _) gap

/-- The parts between the tokens that a phrase starts and ends with, and the texts of these. -/
theorem between (h : IsPhrase file source start stop symbols ps) (opens : Opens ps i x)
    (closes : Closes ps k y) (le : i ≤ k) :
    x <+: slice source start stop ∧ y <:+ slice source start stop ∧
      ∃ inner, inner + y.length = stop ∧
        Laid file source (start + x.length) inner ((ps.take k).drop i) := by
  obtain ⟨ending, inner, ends, before⟩ := h.before_closing closes
  have begins (p : Part) (first : (ps.take k)[0]? = some p) : p.location.start = (start : Int) := by
    rw [List.getElem?_take] at first
    exact h.start_eq (Option.ite_none_right_eq_some.mp first).2
  have opens' : Opens (ps.take k) i x := by
    cases opens with
    | bare => exact .bare
    | token first => exact .token ((List.getElem?_take_of_lt le).trans first)
  exact ⟨(after_opening h.laid (fun _ => h.start_eq) opens).1, ending, inner, ends,
    (after_opening before begins opens').2⟩

end IsPhrase

/-! ## Productions -/

/-- A production whose rule makes from the parts of a phrase a content that lies where the phrase
does. -/
def Lays (p : Production) : Prop :=
  ∀ file source start stop parts result, IsPhrase file source start stop p.symbols parts →
    content file p.rule parts = .ok result → Enclosed file source start stop (held result)

/-- A node starts and ends with tokens of a phrase, and its fields are drawn from the parts between
them. -/
inductive Frames (file source : Text) (ps : Parts) (shape : Shape Tree) : Prop
  | mk {i k : Nat} (le : i ≤ k) (opens : Opens ps i shape.opening)
    (closes : Closes ps k shape.closing)
    (read : ∀ s, shape.opening <+: s → shape.closing <:+ s → shape.IsReadFrom s)
    (fields : Drawn file source ps i k shape.parts)

/-- A token of a fixed spelling that a phrase has. -/
theorem Fitting.sole {symbols : List Symbol} {i : Nat} {t : Terminal} (fits : Fitting symbols ps)
    (here : symbols[i]? = some (.terminal t)) (fixed : t ∉ [.name, .number, .string]) :
    ∃ l, ps[i]? = some ⟨.token t.spelling, l⟩ := by
  obtain ⟨⟨c, l⟩, found, token⟩ := fits.part i here
  cases c with
  | token x =>
    rw [spelling_of_spells fixed token] at found
    exact ⟨l, found⟩
  | _ => cases token

/-- A sign that a phrase has. -/
theorem Fitting.operator {symbols : List Symbol} {i : Nat} {q : Phrase} {table : List Text}
    (fits : Fitting symbols ps) (here : symbols[i]? = some (.phrase q))
    (sense : PhraseFits q = Sign table) : ∃ l, ps[i]? = some ⟨.token (ps.text i), l⟩ := by
  obtain ⟨⟨c, l⟩, found, fits⟩ := fits.part i here
  change PhraseFits q c at fits
  rw [sense] at fits
  cases c with
  | token x =>
    refine ⟨l, ?_⟩
    rw [Parts.text, found]
  | _ => cases fits

namespace Frames

variable {symbols : List Symbol} {shape : Shape Tree} {t u : Terminal} {q : Phrase}
  {table : List Text}

/-- A node that starts and ends as its fields do. -/
theorem bare (fits : Fitting symbols ps) (opening : shape.opening = []) (closing : shape.closing = [])
    (read : ∀ s, shape.opening <+: s → shape.closing <:+ s → shape.IsReadFrom s)
    (fields : Drawn file source ps 0 symbols.length shape.parts) : Frames file source ps shape :=
  .mk (Nat.zero_le _) (opening ▸ .bare) (closing ▸ .bare fits.length_eq.symm) read fields

/-- A node that starts with a token. -/
theorem opened (fits : Fitting symbols ps) (first : symbols[0]? = some (.terminal t))
    (fixed : t ∉ [.name, .number, .string]) (opening : shape.opening = t.spelling)
    (closing : shape.closing = [])
    (read : ∀ s, shape.opening <+: s → shape.closing <:+ s → shape.IsReadFrom s)
    (fields : Drawn file source ps 1 symbols.length shape.parts) : Frames file source ps shape := by
  obtain ⟨l, found⟩ := fits.sole first fixed
  have some := (List.getElem?_eq_some_iff.mp first).1
  exact .mk some (opening ▸ .token found) (closing ▸ .bare fits.length_eq.symm) read fields

/-- A node that ends with a token. -/
theorem closed (fits : Fitting symbols ps)
    (last : symbols[symbols.length - 1]? = some (.terminal u))
    (fixed : u ∉ [.name, .number, .string]) (opening : shape.opening = [])
    (closing : shape.closing = u.spelling)
    (read : ∀ s, shape.opening <+: s → shape.closing <:+ s → shape.IsReadFrom s)
    (fields : Drawn file source ps 0 (symbols.length - 1) shape.parts) :
    Frames file source ps shape := by
  obtain ⟨l, found⟩ := fits.sole last fixed
  have some := (List.getElem?_eq_some_iff.mp last).1
  have count := fits.length_eq
  exact .mk (Nat.zero_le _) (opening ▸ .bare) (closing ▸ .token found (by omega)) read fields

/-- A node that starts and ends with tokens. -/
theorem enclosed (fits : Fitting symbols ps) (first : symbols[0]? = some (.terminal t))
    (last : symbols[symbols.length - 1]? = some (.terminal u)) (several : 1 ≤ symbols.length - 1)
    (fixed : t ∉ [.name, .number, .string] ∧ u ∉ [.name, .number, .string])
    (opening : shape.opening = t.spelling) (closing : shape.closing = u.spelling)
    (read : ∀ s, shape.opening <+: s → shape.closing <:+ s → shape.IsReadFrom s)
    (fields : Drawn file source ps 1 (symbols.length - 1) shape.parts) :
    Frames file source ps shape := by
  obtain ⟨l, found⟩ := fits.sole first fixed.1
  obtain ⟨l', found'⟩ := fits.sole last fixed.2
  have count := fits.length_eq
  exact .mk several (opening ▸ .token found) (closing ▸ .token found' (by omega)) read fields

/-- A node that starts with an operator. -/
theorem prefixed (fits : Fitting symbols ps) (first : symbols[0]? = some (.phrase q))
    (sense : PhraseFits q = Sign table) (opening : shape.opening = ps.text 0)
    (closing : shape.closing = [])
    (read : ∀ s, shape.opening <+: s → shape.closing <:+ s → shape.IsReadFrom s)
    (fields : Drawn file source ps 1 symbols.length shape.parts) : Frames file source ps shape := by
  obtain ⟨l, found⟩ := fits.operator first sense
  have some := (List.getElem?_eq_some_iff.mp first).1
  exact .mk some (opening ▸ .token found) (closing ▸ .bare fits.length_eq.symm) read fields

/-- A node that ends with an operator. -/
theorem suffixed (fits : Fitting symbols ps)
    (last : symbols[symbols.length - 1]? = some (.phrase q)) (sense : PhraseFits q = Sign table)
    (opening : shape.opening = []) (closing : shape.closing = ps.text (symbols.length - 1))
    (read : ∀ s, shape.opening <+: s → shape.closing <:+ s → shape.IsReadFrom s)
    (fields : Drawn file source ps 0 (symbols.length - 1) shape.parts) :
    Frames file source ps shape := by
  obtain ⟨l, found⟩ := fits.operator last sense
  have some := (List.getElem?_eq_some_iff.mp last).1
  have count := fits.length_eq
  exact .mk (Nat.zero_le _) (opening ▸ .bare) (closing ▸ .token found (by omega)) read fields

end Frames

section Rules

variable {phrase : Phrase} {symbols : List Symbol}

/-- A node at the place of a phrase whose fields are drawn from its parts. -/
theorem IsPhrase.node {shape : Shape Tree} (h : IsPhrase file source start stop symbols ps)
    (frames : Frames file source ps shape) :
    Enclosed file source start stop (.node (some (extent file ps)) shape) := by
  obtain ⟨le, opens, closes, read, fields⟩ := frames
  obtain ⟨begins, ends, inner, closing, laid⟩ := h.between opens closes le
  rw [h.extent_eq]
  exact within_node h.tokens (read _ begins ends) closing (fields _ _ laid)

/-- A phrase that is one of its parts; brackets around it belong to its place. -/
theorem lays_keep {i : Nat} : Lays ⟨phrase, symbols, .keep i⟩ := by
  intro file source start stop parts result h made
  cases made
  cases found : parts[i]? with
  | none => exact .plain rfl rfl h.tokens.bounds.1.le
  | some p =>
    obtain ⟨lo', first, rest⟩ := h.laid.drop i
    rw [List.drop_eq_getElem?_toList_append, found] at rest
    cases rest with
    | cons gap placed later =>
      exact placed.within.widen (Nat.le_trans first gap.le) later.le

/-- A rule that gathers trees lays them in the order in which it draws them. -/
theorem lays_gather {trees : Parts → List Tree}
    (drawn : ∀ file source ps, Fitting symbols ps →
      Drawn file source ps 0 symbols.length (trees ps)) :
    Lays (derive phrase symbols (.gather trees)) := by
  intro file source start stop parts result h made
  cases made
  have whole : parts.take symbols.length = parts := List.take_of_length_le h.fitting.length_eq.ge
  refine drawn file source parts h.fitting _ _ ?_
  rw [whole]
  exact h.laid

/-- A rule that makes a node lays it around the fields that it draws. -/
theorem lays_make {name : Text} {shape : Parts → Shape Tree}
    (frames : ∀ file source ps, Fitting symbols ps → Frames file source ps (shape ps)) :
    Lays (derive phrase symbols (.make name shape)) := by
  intro file source start stop parts result h made
  change (if file = [] then _ else _) = _ at made
  split at made
  · cases made
  · cases made
    exact h.node (frames file source parts h.fitting)

/-- A rule that checks its target lays its node as one that does not. -/
theorem lays_checked {name : Text} {target : Nat} {role : Parts → Text} {shape : Parts → Shape Tree}
    (frames : ∀ file source ps, Fitting symbols ps → Frames file source ps (shape ps)) :
    Lays (derive phrase symbols (.makeChecked name target role shape)) := by
  intro file source start stop parts result h made
  rw [derive, Rule.makeChecked, content] at made
  split at made
  · cases made
  · rename_i result' built
    split at built
    · cases built
      split at made
      · cases made
      · cases made
        exact h.node (frames file source parts h.fitting)
    · cases built

/-- A rule for a loop over a collection lays its node as one that checks nothing. -/
theorem lays_forEach {name : Text} {domain : Domain}
    (frames : ∀ file source ps, Fitting symbols ps → Frames file source ps
      (.forEach domain (Parts.tree ps 2) (Parts.tree ps 4) (Parts.tree ps 6))) :
    Lays (derive phrase symbols (.makeForEach name domain)) := by
  intro file source start stop parts result h made
  rw [derive, Rule.makeForEach, content] at made
  split at made
  · cases made
  · rename_i result' built
    dsimp only at built
    split at built
    · cases built
      split at made
      · cases made
      · cases made
        exact h.node (frames file source parts h.fitting)
    · cases built

/-- The one part of a phrase is in its place. -/
theorem IsPhrase.single (h : IsPhrase file source start stop symbols [p]) :
    IsPlaced file source start stop p := by
  have whole : p.location = .between file source start stop := h.extent_eq
  cases h.laid with
  | @cons _ start' stop' _ _ _ gap placed rest =>
    have same := whole.symm.trans placed.location_eq
    cases Int.ofNat.inj (congrArg Location.start same)
    cases Int.ofNat.inj (congrArg Location.stop same)
    exact placed

/-- The token that a phrase is. -/
theorem IsPhrase.token {terminal : Terminal}
    (h : IsPhrase file source start stop [.terminal terminal] ps) :
    ps = [⟨.token (slice source start stop), .between file source start stop⟩] ∧
      spells terminal (slice source start stop) = true ∧
      IsTokenOf source (.terminal terminal) (.token (slice source start stop)) := by
  obtain ⟨⟨c, l⟩, rfl⟩ := List.length_eq_one_iff.mp h.fitting.length_eq.symm
  have placed := h.single
  cases h.fitting with
  | cons fits _ =>
    cases h.cut with
    | cons own _ =>
      cases c with
      | token x =>
        cases placed.text x rfl
        cases placed.location_eq
        exact ⟨rfl, fits, own⟩
      | _ => cases fits

/-- A token that is a node without further nodes. -/
theorem lays_leaf {terminal : Terminal} {build : Parts → Except Refusal Content}
    (leaf : ∀ source x l result, IsTokenOf source (.terminal terminal) (.token x) →
      build [⟨.token x, l⟩] = .ok result → ∃ shape : Shape Tree,
        result = .tree (.node (some l) shape) ∧ shape.IsReadFrom x ∧
        (shape.opening = [] ∧ shape.closing = []) ∧ (Tree.tuple shape.parts).tops = [] ∧
        (Tree.tuple shape.parts).nodes = []) :
    Lays (derive phrase [terminal] (.plain build)) := by
  intro file source start stop parts result h made
  -- The phrase is one token, and its place is that of the token.
  obtain ⟨rfl, -, cut⟩ := h.token
  change (build _).mapError ofRefusal = .ok result at made
  cases built : build [⟨.token (slice source start stop), .between file source start stop⟩] with
  | error refusal =>
    rw [built] at made
    cases made
  | ok c =>
    rw [built] at made
    cases made
    obtain ⟨shape, rfl, read, bare, tops, nodes⟩ := leaf source _ _ _ cut built
    exact within_leaf h.tokens read bare tops nodes

/-- The rule for a name used as an expression lays its identifier. -/
theorem lays_name :
    Lays (derive .primary [Terminal.name] (.plain fun ps => .ok (.tree (ps.name 0)))) := by
  refine lays_leaf fun source x l result _ built => ?_
  cases built
  exact ⟨_, rfl, rfl, ⟨rfl, rfl⟩, rfl, rfl⟩

/-- A number is what its token denotes. -/
theorem lays_number : Lays (derive .primary [Terminal.number] (.plain numberContent)) := by
  refine lays_leaf fun source x l result cut built => ?_
  obtain ⟨allowed, rest, n, -, matched, rfl⟩ := cut
  have length := numberLength_of_match matched
  have short : (rest.take n).length = n := by
    rw [List.length_take, Nat.min_eq_left (bounds_of_match matched).2]
  unfold numberContent at built
  split at built
  · rename_i d denotes
    cases built
    refine ⟨_, rfl, ⟨⟨rest.drop n, ?_⟩, denotes⟩, ⟨rfl, rfl⟩, rfl, rfl⟩
    rw [List.take_append_drop, short]
    exact length
  · cases built

/-- A string is what its token denotes. -/
theorem lays_string : Lays (derive .primary [Terminal.string]
    (.plain fun ps =>
      .ok (.tree (ps.nodeAt 0 (.literal (.text (Literal.unquote (ps.text 0)))))))) := by
  refine lays_leaf fun source x l result cut built => ?_
  obtain ⟨allowed, rest, n, -, matched, rfl⟩ := cut
  obtain ⟨y, more, string, same, rfl⟩ :=
    stringLength_eq_some_iff.mp (stringLength_of_match matched)
  have text : IsString (rest.take y.length) := by
    rw [same, List.take_left]
    exact string
  cases built
  exact ⟨_, rfl, ⟨text, rfl⟩, ⟨rfl, rfl⟩, rfl, rfl⟩

/-- A word or a semicolon that is a node by itself. -/
theorem lays_sign {terminal : Terminal} {name : Text} {shape : Shape Tree}
    (fixed : terminal ∉ [.name, .number, .string]) (read : shape.IsReadFrom terminal.spelling)
    (bare : shape.opening = [] ∧ shape.closing = []) (tops : (Tree.tuple shape.parts).tops = [])
    (nodes : (Tree.tuple shape.parts).nodes = []) :
    Lays (derive phrase [terminal] (.make name fun _ => shape)) := by
  intro file source start stop parts result h made
  have text := spelling_of_spells fixed h.token.2.1
  change (if file = [] then _ else _) = _ at made
  split at made
  · cases made
  · cases made
    rw [h.extent_eq]
    exact within_leaf h.tokens (text ▸ read) bare tops nodes

end Rules

/-- The fields of a node come from the parts in the order in which they were read, between the
tokens that nodes of its kind start and end with. -/
theorem lays_productions : ∀ p ∈ productions, Lays p := by
  simp only [productions, structureProductions, statementProductions, controlProductions,
    simpleProductions, binaryProductions, expressionProductions, primaryProductions,
    signProductions, operands, oneOf, List.forall_mem_append, List.forall_mem_cons,
    List.forall_mem_map, List.not_mem_nil, false_implies, implies_true, and_true]
  and_intros
  all_goals first
    | exact lays_keep
    | exact fun sign known => lays_keep
    | exact lays_name
    | exact lays_number
    | exact lays_string
    | exact lays_sign (by decide) rfl ⟨rfl, rfl⟩ rfl rfl
    | refine lays_gather fun file source ps fits => ?_
    | refine lays_make fun file source ps fits => ?_
    | refine lays_checked fun file source ps fits => ?_
    | refine lays_forEach fun file source ps fits => ?_
  -- The tokens that a node starts and ends with are the first and the last one of its phrase.
  all_goals try first
    | refine .enclosed fits rfl rfl (by decide) (by decide) rfl rfl (fun _ h h' => ⟨h, h'⟩) ?_
    | refine .opened fits rfl (by decide) rfl rfl (fun _ h h' => ⟨h, h'⟩) ?_
    | refine .closed fits rfl (by decide) rfl rfl (fun _ h h' => ⟨h, h'⟩) ?_
    | refine .prefixed fits rfl rfl rfl rfl (fun _ h h' => ⟨h, h'⟩) ?_
    | refine .suffixed fits rfl rfl rfl rfl (fun _ h h' => ⟨h, h'⟩) ?_
    | refine .bare fits rfl rfl (fun _ h h' => ⟨h, h'⟩) ?_
  -- What is left are the fields of each node and the trees of each row, one part after the other.
  all_goals try simp only [Shape.parts, Shape.children, declared, List.map_cons, List.map_nil]
  all_goals have count := fits.length_eq
  all_goals repeat first
    | exact Drawn.nil
    | exact Drawn.rest (by decide) (by decide) (by rw [← count]; decide)
    | refine Drawn.name (by decide) (by decide) fits rfl ?_
    | refine Drawn.tree (by decide) (by decide) (by rw [← count]; decide) ?_
    | refine Drawn.row (by decide) (by decide) (by rw [← count]; decide) ?_
    | refine Drawn.declarator (by decide) (by decide) fits rfl ?_
    | refine Drawn.trees (by decide) (by decide) (by rw [← count]; decide) ?_
    | refine Drawn.inner ?_
    | refine Drawn.plain rfl rfl ?_

/-! ## The program of a text without tokens -/

/-- The program without statements, which has no parts and is nowhere. -/
def isBlank : Content → Bool
  | .tree (.node _ (.program (.tuple []))) => true
  | _ => false

/-- A blank tree is a program. -/
theorem program_of_isBlank {t : Tree} (blank : isBlank (.tree t) = true) :
    t.kind? = some .program := by
  unfold isBlank at blank
  split at blank
  · rename_i same
    cases same
    rfl
  · cases blank

/-- Only programs and the root are program nodes. -/
theorem phrase_of_program {X : Symbol} {t : Tree} (fits : Fits X (.tree t))
    (kind : t.kind? = some .program) : X = .phrase .program ∨ X = .phrase .root := by
  -- No other kind of content can be a program.
  have statement (h : IsStatement t) : False := by
    have := h.kind
    rw [Tree.isStatement, kind] at this
    cases this
  have expression (h : t.isExpression = true) : False := by
    rw [Tree.isExpression, kind] at h
    cases h
  have other {k : Kind} (h : t.hasKind k = true) (apart : k ≠ .program) : False := by
    rw [Tree.hasKind, kind, beq_iff_eq] at h
    exact apart (Option.some.inj h).symm
  -- By the symbol: the content of a phrase has the kind that the phrase asks for.
  cases X with
  | terminal => cases fits
  | phrase p =>
    cases p
    case program => exact .inl rfl
    case root => exact .inr rfl
    case block =>
      cases (show IsBlock t from fits)
      cases kind
    case declarator => exact (other (show IsDeclarator t from fits).kind (by decide)).elim
    case forInit =>
      rcases (show IsForInit t from fits).kind with h | h
      · exact (other h (by decide)).elim
      · exact (expression h).elim
    case forBinding =>
      cases (show IsBinding t from fits) with
      | declared => cases kind
      | expression h => exact (expression h.kind).elim
    all_goals first
      | exact (statement fits).elim
      | exact (expression (show IsExpression t from fits).kind).elim
      | cases fits

/-- Only a program is blank. -/
theorem phrase_of_isBlank {X : Symbol} {c : Content} (fits : Fits X c) (blank : isBlank c = true) :
    X = .phrase .program ∨ X = .phrase .root := by
  cases c with
  | tree t => exact phrase_of_program fits (program_of_isBlank blank)
  | _ => cases blank

/-- The empty program is blank. -/
theorem isBlank_of_make {name : Text} {parts : Parts} {result : Content}
    (made : content file (.make name fun _ => .program emptyRow) parts = .ok result) :
    isBlank result = true := by
  change (if file = [] then _ else _) = _ at made
  split at made
  · cases made
  · cases made
    rfl

/-- Only the program without statements has no parts. -/
theorem isBlank_of_symbols : ∀ p ∈ productions, p.symbols = [] →
    ∀ file parts result, content file p.rule parts = .ok result → isBlank result = true := by
  simp only [productions, structureProductions, statementProductions, controlProductions,
    simpleProductions, binaryProductions, expressionProductions, primaryProductions,
    signProductions, operands, oneOf, List.forall_mem_append, List.forall_mem_cons,
    List.forall_mem_map, List.not_mem_nil, false_implies, implies_true, and_true]
  and_intros
  all_goals first
    | exact fun _ _ _ _ made => isBlank_of_make made
    | exact fun none => absurd none (List.cons_ne_nil _ _)

/-- Only the root has a program for a part. -/
theorem root_of_symbols : ∀ p ∈ productions,
    Symbol.phrase .program ∈ p.symbols ∨ Symbol.phrase .root ∈ p.symbols →
      p = derive .root [Phrase.program] (.keep 0) := by
  simp only [productions, structureProductions, statementProductions, controlProductions,
    simpleProductions, binaryProductions, expressionProductions, primaryProductions,
    signProductions, operands, oneOf, List.forall_mem_append, List.forall_mem_cons,
    List.forall_mem_map, List.not_mem_nil, false_implies, implies_true, and_true]
  and_intros
  all_goals first
    | exact fun _ => rfl
    | exact fun h => absurd h (by decide)
    | trivial

/-- A rule whose phrase is not blank has parts, and none of them is blank. -/
theorem not_isBlank_of_content {production : Production} {result : Content}
    (known : production ∈ productions) (fitting : Fitting production.symbols ps)
    (made : content file production.rule ps = .ok result) (visible : isBlank result = false) :
    ps ≠ [] ∧ ∀ p ∈ ps, isBlank p.content = false := by
  refine ⟨?_, fun p hp => Bool.eq_false_iff.mpr fun blank => ?_⟩
  · rintro rfl
    have none : production.symbols = [] := List.forall₂_nil_right_iff.mp fitting
    have blank := isBlank_of_symbols production known none file [] result made
    exact Bool.false_ne_true (visible.symm.trans blank)
  · -- A blank part makes the production that of the root, whose phrase is this part.
    obtain ⟨X, symbol, fits⟩ : ∃ X ∈ production.symbols, Fits X p.content := by
      obtain ⟨i, inside, rfl⟩ := List.mem_iff_getElem.mp hp
      have count := fitting.length_eq
      exact ⟨_, List.getElem_mem (count ▸ inside), fitting.get (count ▸ inside) inside⟩
    have outer : Symbol.phrase .program ∈ production.symbols ∨
        Symbol.phrase .root ∈ production.symbols := by
      rcases phrase_of_isBlank fits blank with rfl | rfl
      · exact .inl symbol
      · exact .inr symbol
    cases root_of_symbols production known outer
    cases fitting with
    | cons _ others =>
      cases others
      rw [List.mem_singleton] at hp
      subst hp
      cases made
      exact Bool.false_ne_true (visible.symm.trans blank)

/-- The productions of programs and of the root. -/
theorem outer_productions : ∀ p ∈ productions, p.phrase = .program ∨ p.phrase = .root →
    p = derive .root [Phrase.program] (.keep 0) ∨
      p = derive .program [Phrase.statements] (.make "program" fun ps => .program (ps.row 0)) ∨
      p.symbols = [] := by
  simp only [productions, structureProductions, statementProductions, controlProductions,
    simpleProductions, binaryProductions, expressionProductions, primaryProductions,
    signProductions, operands, oneOf, List.forall_mem_append, List.forall_mem_cons,
    List.forall_mem_map, List.not_mem_nil, false_implies, implies_true, and_true]
  and_intros
  all_goals first
    | exact fun _ => .inl trivial
    | exact fun _ => .inr (.inl trivial)
    | exact fun _ => .inr (.inr rfl)
    | exact fun h => absurd h (by decide)

/-- A phrase that is a program comes from one of these productions. -/
theorem outer_of_program {production : Production} {t : Tree} (known : production ∈ productions)
    (fitting : Fitting production.symbols ps)
    (made : content file production.rule ps = .ok (.tree t)) (kind : t.kind? = some .program) :
    production = derive .root [Phrase.program] (.keep 0) ∨
      production = derive .program [Phrase.statements]
        (.make "program" fun ps => .program (ps.row 0)) ∨
      production.symbols = [] := by
  have fits := sound_productions production known file ps _ fitting made
  refine outer_productions production known ?_
  rcases phrase_of_program (X := .phrase production.phrase) fits kind with h | h
  · exact .inl (Symbol.phrase.inj h)
  · exact .inr (Symbol.phrase.inj h)

/-- All parts of a phrase that is blank are. -/
theorem isBlank_of_content {production : Production} {result : Content}
    (known : production ∈ productions) (fitting : Fitting production.symbols ps)
    (made : content file production.rule ps = .ok result) (blank : isBlank result = true) :
    ∀ p ∈ ps, isBlank p.content = true := by
  -- Only a tree can be blank.
  obtain ⟨t, rfl⟩ : ∃ t, result = .tree t := by
    cases result with
    | tree t => exact ⟨t, rfl⟩
    | _ => cases blank
  rcases outer_of_program known fitting made (program_of_isBlank blank) with rfl | rfl | none
  · -- The root is its one part.
    obtain ⟨q, rfl⟩ := List.length_eq_one_iff.mp fitting.length_eq.symm
    have same : q.content = .tree t := Except.ok.inj made
    exact List.forall_mem_singleton.mpr (same ▸ blank)
  · -- A program of statements has at least one.
    have some := (fitting.trees (P := IsStatement) 0 rfl rfl).1
    change (if file = [] then _ else _) = _ at made
    split at made
    · cases made
    · cases made
      change isBlank (.tree (.node _ (.program (.tuple (ps.trees 0))))) = true at blank
      cases row : ps.trees 0 with
      | nil => exact (some row).elim
      | cons t ts =>
        rw [row] at blank
        cases blank
  · rw [none] at fitting
    cases fitting
    nofun

/-! ## Signs and programs -/

/-- Only the productions of signs give a token, which is the one part of the phrase. -/
theorem unit_of_token : ∀ p ∈ productions, ∀ x, PhraseFits p.phrase (.token x) →
    p.rule = .keep 0 ∧ p.symbols.length = 1 := by
  simp only [productions, structureProductions, statementProductions, controlProductions,
    simpleProductions, binaryProductions, expressionProductions, primaryProductions,
    signProductions, operands, oneOf, List.forall_mem_append, List.forall_mem_cons,
    List.forall_mem_map, List.not_mem_nil, false_implies, implies_true, and_true]
  and_intros
  all_goals first
    | exact fun x fits => fits.elim
    | exact fun x fits => ⟨trivial, rfl⟩

/-- A phrase that is a token has its text. -/
theorem IsPhrase.text {production : Production} (known : production ∈ productions)
    (h : IsPhrase file source start stop production.symbols ps)
    (made : content file production.rule ps = .ok (.token x)) : x = slice source start stop := by
  have fits := sound_productions production known file ps _ h.fitting made
  obtain ⟨keeps, alone⟩ := unit_of_token production known x fits
  obtain ⟨q, rfl⟩ := List.length_eq_one_iff.mp (h.fitting.length_eq.symm.trans alone)
  rw [keeps] at made
  have same : q.content = .token x := Except.ok.inj made
  exact h.single.text x same

/-- A phrase that is a program has its place. -/
theorem IsPhrase.program {production : Production} {t : Tree} (known : production ∈ productions)
    (h : IsPhrase file source start stop production.symbols ps)
    (made : content file production.rule ps = .ok (.tree t)) (kind : t.kind? = some .program) :
    t.location? = some (.between file source start stop) := by
  -- The root is its part, a program is made by its rule, and an empty phrase has no place.
  rcases outer_of_program known h.fitting made kind with rfl | rfl | none
  · obtain ⟨q, rfl⟩ := List.length_eq_one_iff.mp h.fitting.length_eq.symm
    have same : q.content = .tree t := Except.ok.inj made
    have placed := h.single
    rw [placed.program t same kind, placed.location_eq]
  · change (if file = [] then _ else _) = _ at made
    split at made
    · cases made
    · cases made
      exact congrArg some h.extent_eq
  · -- There are no tokens in a phrase without parts.
    obtain rfl : ps = [] := List.eq_nil_of_length_eq_zero (by rw [← h.fitting.length_eq, none]; rfl)
    have nowhere : (0 : Int) = stop := congrArg Location.stop h.extent_eq
    cases Int.ofNat.inj nowhere
    exact (Nat.not_lt_zero _ h.tokens.bounds.1).elim

/-! ## Reading -/

/-- What reading knows of the content of a symbol: it is one of the symbol, and a token was cut from
the text. -/
def IsReading (source : Text) (X : Symbol) (c : Content) : Prop :=
  Fits X c ∧ IsTokenOf source X c

/-- The reader keeps that contents are readings of the text. -/
theorem keptByReading_isReading (source : Text) : KeptByReading source (IsReading source) where
  token allowed t terminal n inside matched :=
    ⟨(keptByReading_fits source).token allowed t terminal n inside matched,
      (keptByReading_tokens source).token allowed t terminal n inside matched⟩
  phrase p known file parts result fitting made :=
    ⟨(keptByReading_fits source).phrase p known file parts result
      (fitting.imp fun _ _ h => h.1) made, trivial⟩

/-- The parts on a stack in the order of the text, the program without statements aside. -/
def placedParts (stack : List Frame) : Parts :=
  (stack.map (·.part)).reverse.filter fun p => !isBlank p.content

/-- The parts of a machine that has not met a fault lie one after the other, up to an offset. -/
def Machine.Spans (file source : Text) (offset : Nat) (m : Machine) : Prop :=
  m.fault = none → Laid file source 0 offset (placedParts m.stack)

/-- A symbol read after those of a stack. -/
theorem placedParts_cons (frame : Frame) (stack : List Frame) :
    placedParts (frame :: stack) =
      placedParts stack ++ [frame.part].filter fun p => !isBlank p.content := by
  rw [placedParts, List.map_cons, List.reverse_cons, List.filter_append, placedParts]

/-- The parts below some symbols of a stack, and theirs. -/
theorem placedParts_split (stack : List Frame) (n : Nat) :
    placedParts stack = placedParts (stack.drop n) ++ placedParts (stack.take n) := by
  conv_lhs => rw [← List.take_append_drop n stack]
  rw [placedParts, List.map_append, List.reverse_append, List.filter_append, placedParts, placedParts]

variable {states : Array State} {offset : Nat} {m : Machine}

/-- A reduction puts a phrase in the place of its parts. -/
theorem Machine.Spans.reduce (faithful : Faithful states) (sound : m.Sound (IsReading source))
    (h : m.Spans file source offset) {t : Terminal} {number : Nat} {p : Production}
    (act : action? states (topState m.stack) t = some (.reduce number))
    (of : productions[number]? = some p) : (reduce states file p m).Spans file source offset := by
  obtain ⟨inner, p', k, of', here, found⟩ := faithful.allows act
  cases of.symm.trans of'
  have known := List.mem_of_getElem? of
  intro clear
  unfold Source.reduce at clear ⊢
  dsimp only at clear ⊢
  split at clear
  · rename_i result made
    obtain ⟨reading, -, -⟩ := (sound clear).pop here found of
    rw [List.take_length] at reading
    have fitting : Fitting p.symbols _ := reading.imp fun _ _ h => h.1
    have laid := h clear
    rw [placedParts_split m.stack p.symbols.length] at laid
    obtain ⟨mid, below, own⟩ := laid.of_append
    rw [placedParts_cons]
    refine below.append ?_
    cases visible : isBlank result with
    | true =>
      -- The parts of the program without statements are left out like itself.
      have blank := isBlank_of_content known fitting made visible
      rw [placedParts, List.filter_eq_nil_iff.mpr fun p hp => by rw [blank p hp]; decide] at own
      rw [List.filter_cons_of_neg (by simp [visible])]
      exact own
    | false =>
      rw [List.filter_cons_of_pos (by simp [visible])]
      obtain ⟨more, parts⟩ := not_isBlank_of_content known fitting made visible
      -- None of the parts is left out, so they lie one after the other.
      rw [placedParts, List.filter_eq_self.mpr fun p hp => by rw [parts p hp]; rfl] at own
      obtain ⟨start, stop, whole, before, tokens, after, tight⟩ := own.extent more
      have phrase : IsPhrase file source start stop p.symbols _ :=
        ⟨fitting, reading.imp fun _ _ h => h.2, whole, tokens, tight⟩
      have within := lays_productions p known file source start stop _ result phrase made
      have text (x : Text) (token : result = .token x) : x = slice source start stop :=
        phrase.text known (token ▸ made)
      have program (t : Tree) (tree : result = .tree t) (kind : t.kind? = some .program) :
          t.location? = some (.between file source start stop) :=
        phrase.program known (tree ▸ made) kind
      exact .cons before ⟨whole, tokens, text, whole ▸ program, within⟩ (.nil after)
  · rw [Option.or_eq_none_iff] at clear
    cases clear.2

/-- What reducing before a terminal comes to has its parts in order. -/
def Settled.Spans (file source : Text) (offset : Nat) : Settled → Prop
  | .shift _ m => m.Spans file source offset
  | .accept m => m.Spans file source offset
  | .stuck _ => True

/-- Reducing before a terminal keeps the spans of the machine. -/
theorem Machine.Spans.settle (faithful : Faithful states) (t : Terminal) (fuel : Nat)
    (sound : m.Sound (IsReading source)) (h : m.Spans file source offset) :
    (settle states file t fuel m).Spans file source offset := by
  induction fuel generalizing m with
  | zero => trivial
  | succ fuel ih =>
    rw [Source.settle]
    split
    · exact h
    · exact h
    · rename_i number act
      split
      · rename_i p of
        exact ih (sound.reduce (keptByReading_isReading source) faithful act of)
          (h.reduce faithful sound act of)
      · trivial
    · trivial

/-- Where a text is accepted nothing is on the stack but its program: no symbol leads to a state in
which programs begin. -/
theorem Stacked.alone {M : Symbol → Content → Prop} (faithful : Faithful states) {t : Terminal}
    {frame : Frame} {rest : List Frame} (h : Stacked M (frame :: rest))
    (act : action? states frame.state t = some .accept) : rest = [] := by
  obtain ⟨p, k, of, here, found⟩ := faithful.allows act
  cases Option.some.inj (root_production.symm.trans of)
  cases h with
  | @cons _ _ X led fits below =>
    obtain ⟨i, it, rfl, -, found', before⟩ := before_of_here led here found (Nat.succ_ne_zero 0)
    obtain ⟨p', of', describes⟩ := describes_item found'
    have after := describes.after (by simp [before])
    rw [found] at after
    simp only [Option.some.injEq, Item.mk.injEq, derive, List.length_singleton] at after
    obtain ⟨number, read, -⟩ := after
    rw [← number, root_production] at of'
    cases of'
    -- The symbol on top of the stack is the program.
    have program : X = .phrase .program := by
      have next := describes.next.symm.trans before
      rw [← Nat.succ.inj read] at next
      exact (Option.some.inj next).symm
    subst program
    cases below with
    | nil => rfl
    | cons led' => exact (not_leads_program led' led).elim

/-- What is said about the tree of a text with statements: its program reaches from the first token
to the last one, and all nodes have places. -/
def IsSpread (file source : Text) (l : Option Location) (ss : List Tree) : Prop :=
  (∃ start stop, l = some (.between file source start stop) ∧ Skips source 0 start ∧
    Skips source stop source.length) ∧
  ∀ u ∈ (Tree.node l (.program (.tuple ss))).nodes, HasSpan file source u

variable {l : Option Location} {s : Tree} {ss : List Tree}

/-- A program with statements that reading ends with at the end of the text. -/
theorem Machine.Spans.finish (faithful : Faithful states) {t : Terminal}
    (sound : m.Sound (IsReading source))
    (act : action? states (topState m.stack) t = some .accept)
    (h : m.Spans file source source.length)
    (done : finish m = .ok (.node l (.program (.tuple (s :: ss))))) :
    IsSpread file source l (s :: ss) := by
  obtain ⟨stack, fault⟩ := m
  -- The machine is finished with one part on its stack, which is the program.
  unfold Source.finish at done
  split at done
  · cases done
  · rename_i state t place rest clear top
    cases done
    cases top
    cases (sound clear).alone faithful act
    have laid := h clear
    rw [placedParts_cons] at laid
    cases laid with
    | cons gap placed others =>
      cases others with
      | nil last =>
        exact ⟨⟨_, _, (placed.program _ rfl rfl).trans (congrArg some placed.location_eq), gap, last⟩,
          placed.within.nodes⟩
  · cases done

/-- A machine that ends with a program of some statements has enclosed it in the whole text. -/
theorem Machine.Spans.close (faithful : Faithful states) {last : Position}
    (sound : m.Sound (IsReading source)) (h : m.Spans file source source.length)
    (done : close states file last m = .ok (.node l (.program (.tuple (s :: ss))))) :
    IsSpread file source l (s :: ss) := by
  unfold Source.close at done
  have spans := h.settle faithful .endOfInput (settleFuel m) sound
  have sound' := sound.settle (keptByReading_isReading source) faithful file .endOfInput
    (settleFuel m)
  split at done
  · rename_i m' settled
    rw [settled] at spans sound'
    exact spans.finish faithful sound'.1 sound'.2 done
  · cases done
  · cases done

/-- The parts of what was read lie one after the other before the position of the reader, token by
token. The fuel is enough for the text that is left, as each step takes something of it. -/
theorem Machine.Spans.readFrom (faithful : Faithful states) (fuel : Nat) {before rest : Text}
    {last : Position} (enough : rest.length < fuel) (split : source = before ++ rest)
    (sound : m.Sound (IsReading source)) (h : m.Spans file source before.length)
    (done : readFrom states file fuel (.after before) last rest m =
      .ok (.node l (.program (.tuple (s :: ss))))) : IsSpread file source l (s :: ss) := by
  -- By induction on the fuel, which is more than the text that is left.
  induction fuel generalizing before last rest m with
  | zero => cases enough
  | succ fuel ih =>
    cases rest with
    | nil =>
      rw [List.append_nil] at split
      subst split
      exact h.close faithful sound done
    | cons c rest =>
      -- The text is split anew behind what was read.
      have resplit (n : Nat) : source = before ++ (c :: rest).take n ++ (c :: rest).drop n := by
        rw [List.append_assoc, List.take_append_drop, split]
      have here : source.drop before.length = c :: rest := by rw [split, List.drop_left]
      have reached {n : Nat} (most : n ≤ (c :: rest).length) :
          (before ++ (c :: rest).take n).length = before.length + n := by
        rw [List.length_append, List.length_take, Nat.min_eq_left most]
      have less {n : Nat} (bounds : 0 < n ∧ n ≤ (c :: rest).length) :
          ((c :: rest).drop n).length < fuel := by
        rw [List.length_drop]
        omega
      rw [Source.readFrom] at done
      dsimp only at done
      simp only [Position.advance_after] at done
      split at done
      -- White space is skipped, and the parts on the stack end where they did.
      · rename_i n skipped
        have bounds := bounds_of_skip skipped
        refine ih (less bounds) (resplit n) sound (fun clear => ?_) done
        rw [reached bounds.2]
        exact (h clear).widen (.refl 0) (.skip (here ▸ skipped) (.refl _))
      · rename_i solid
        split at done
        · cases done
        · rename_i terminal n matched
          have bounds := bounds_of_match matched
          have sound' := sound.settle (keptByReading_isReading source) faithful file terminal
            (settleFuel m)
          have spans := h.settle faithful terminal (settleFuel m) sound
          split at done
          · rename_i state m' settled
            rw [settled] at sound' spans
            -- The token is the one that stands at this place.
            have token : IsToken source before.length (before.length + n) :=
              ⟨here ▸ solid, _, terminal, n, here ▸ matched, rfl⟩
            have text : (c :: rest).take n =
                slice source before.length (before ++ (c :: rest).take n).length := by
              conv_rhs => rw [resplit n]
              rw [slice_append]
            have location := stretch_eq_between file before ((c :: rest).take n) ((c :: rest).drop n)
            rw [← resplit n] at location
            rw [reached bounds.2] at text location
            -- The machine goes on with the token on its stack, at its place.
            refine ih (less bounds) (resplit n) (fun clear => ?_) (fun clear => ?_) done
            · refine .cons sound'.2 ⟨spells_match matched, ?_⟩ (sound'.1 clear)
              exact ⟨_, c :: rest, n, ⟨before, split.symm⟩, matched, rfl⟩
            · rw [placedParts_cons, reached bounds.2]
              exact (spans clear).append (.cons (.refl _) (.of_token location token text)
                (.nil (.refl _)))
          · cases done
          · cases done

/-! ## A program on several lines -/

open Print

/-- The statement `a = b;`. -/
def assigning : Tree :=
  .new (.expressionStatement (.new (.assignment (.text "=") (.identifier "a") (.identifier "b"))))

/-- The statement `c;`. -/
def naming : Tree := .new (.expressionStatement (.identifier "c"))

/-- The first statement, and a block with the second one. -/
def onLines : Tree := .new (.program (.tuple [assigning, .new (.block (.tuple [naming]))]))

/-- The text of these statements on four lines. -/
def lines : Text := "a = b;\n\x7b\n    c;\n\x7d"

/-- What is the same as this program is the program with other places. -/
theorem onLines_of_same {u : Tree} (h : onLines.same u = true) :
    ∃ program first assignment a b block second c,
      u = .node program (.program (.tuple [
        .node first (.expressionStatement (.node assignment (.assignment (.text "=")
          (.node a (.identifier (.text "a"))) (.node b (.identifier (.text "b")))))),
        .node block (.block (.tuple [
          .node second (.expressionStatement (.node c (.identifier (.text "c"))))]))])) := by
  -- Each tree of the same form has nodes of the same kinds, so that only locations are free.
  obtain ⟨program, us, rfl, items⟩ := Tree.program_of_same h
  match us, items with
  | [_, _], .cons one (.cons two .nil) =>
    obtain ⟨first, e, rfl, inner⟩ := Tree.expressionStatement_of_same one
    obtain ⟨assignment, left, right, rfl, target, value⟩ := Tree.assignment_of_same inner
    obtain ⟨a, rfl⟩ := Tree.identifier_of_same target
    obtain ⟨b, rfl⟩ := Tree.identifier_of_same value
    obtain ⟨block, us, rfl, items⟩ := Tree.block_of_same two
    match us, items with
    | [_], .cons statement .nil =>
      obtain ⟨second, e, rfl, name⟩ := Tree.expressionStatement_of_same statement
      obtain ⟨c, rfl⟩ := Tree.identifier_of_same name
      exact ⟨_, _, _, _, _, _, _, _, rfl⟩

/-- The text is read as this program. -/
theorem same_of_parse_lines : ∃ u, parse "a.js" lines = .ok u ∧ onLines.same u = true := by
  have inner : SpelledStatement naming "c;" :=
    spelled_expressionStatement (spelled_identifier (x := "c") rfl)
  have first : IsLineOf "a = b;" assigning.braced :=
    ⟨_, spelled_expressionStatement
      (spelled_assignment (show Text.ofString "=" ∈ assignmentSpellings by decide) rfl
        (spelled_identifier (x := "a") rfl) (by decide) (spelled_identifier (x := "b") rfl)
        (by decide))⟩
  have second : IsLineOf (braces "    " 0 ["c;"]) (Tree.new (.block (.tuple [naming]))).braced :=
    ⟨_, spelled_block (by decide) (.cons ⟨_, inner⟩ .nil)⟩
  have named : Text.ofString "a.js" ≠ [] := by decide
  obtain ⟨u, parsed, reads⟩ := parse_lines (l := none) named (.cons first (.cons second .nil))
  exact ⟨u, parsed, reads.same⟩

/-- A place is that of its offsets. -/
theorem Location.between_inj {file : Text} {p q p' q' : Nat}
    (h : Location.between file source p q = .between file source p' q') : p = p' ∧ q = q' :=
  ⟨Int.ofNat.inj (congrArg Location.start h), Int.ofNat.inj (congrArg Location.stop h)⟩

/-- The bounds of a child whose place is known. -/
theorem bounds_of_located {file : Text} {shape : Shape Tree} {start stop opening closing p q : Nat}
    (h : ∃ first last,
      (Tree.node (some (.between file source p q)) shape).location? =
        some (.between file source first last) ∧
      first < last ∧ start + opening ≤ first ∧ last + closing ≤ stop) :
    start + opening ≤ p ∧ q + closing ≤ stop := by
  obtain ⟨first, last, located, -, after, before⟩ := h
  obtain ⟨rfl, rfl⟩ := Location.between_inj (Option.some.inj located)
  exact ⟨after, before⟩

/-- Each of the three names stands at one place. -/
theorem slice_lines_eq_name {x : Text} {n p q : Nat}
    (h : (x, n) ∈ ([("a", 0), ("b", 4), ("c", 13)] : List (Text × Nat))) (proper : p < q)
    (inside : q ≤ 17) (same : Tree.text x = .text (slice lines p q)) : p = n ∧ q = n + 1 := by
  have all : ∀ name ∈ ([("a", 0), ("b", 4), ("c", 13)] : List (Text × Nat)), ∀ p < 18, ∀ q < 18,
      slice lines p q = name.1 → p = name.2 ∧ q = name.2 + 1 := by
    decide +kernel
  exact all (x, n) h p (by omega) q (by omega) (Tree.text.inj same).symm

/-- Where the braces and the semicolons stand. -/
theorem slice_lines_mark : ∀ p < 18, ∀ q < 18,
    ("\x7b" <+: slice lines p q → p = 7) ∧ ("\x7d" <:+ slice lines p q → q = 17) ∧
      (";" <:+ slice lines p q → q = 6 ∨ q = 15) := by
  decide +kernel

/-- Between the opening brace and the name everything is skipped. -/
theorem skipLength_lines : ∀ p < 13, 8 ≤ p → skipLength? (lines.drop p) ≠ none := by
  decide +kernel

/-! ## Programs -/

/-- In the tree of a text with at least one statement every node has a place in the text. The
program reaches from the first token of the text to the last one; before and after it there are only
white space and comments. The text of a node is a row of tokens, which starts and ends as nodes of
its kind do; that of a name is the name, and that of a literal denotes it. The nodes directly below
a node lie in its place, after the text that it starts with and before the one that it ends with,
and those earlier in the order of the fields stop before later ones start. -/
theorem spans_of_parse
    (h : parse file source = .ok (.node l (.program (.tuple (s :: ss))))) :
    (∃ start stop, l = some (.between file source start stop) ∧ Skips source 0 start ∧
      Skips source stop source.length) ∧
    ∀ u ∈ (Tree.node l (.program (.tuple (s :: ss)))).nodes, ∃ start stop shape,
      u = .node (some (.between file source start stop)) shape ∧
      start < stop ∧ stop ≤ source.length ∧ Tokens source start stop ∧
      shape.IsReadFrom (slice source start stop) ∧
      (∀ child ∈ shape.childNodes, ∃ first last,
        child.location? = some (.between file source first last) ∧ first < last ∧
        start + shape.opening.length ≤ first ∧ last + shape.closing.length ≤ stop) ∧
      shape.childNodes.Pairwise fun child later => ∀ place place',
        child.location? = some place → later.location? = some place' →
          place.stop ≤ place'.start := by
  -- At the start there are no parts, and nothing was read.
  have start : Machine.Spans file source 0 ⟨[], none⟩ := fun _ => .nil (.refl 0)
  have split : source = [] ++ source := rfl
  obtain ⟨whole, spans⟩ := Machine.Spans.readFrom faithful_automaton (source.length + 1)
    (Nat.lt_succ_self _) split (fun _ => .nil) start h
  refine ⟨whole, fun u hu => ?_⟩
  obtain ⟨start, stop, shape, rfl, tokens, read, inner, closing, ordered⟩ := spans u hu
  refine ⟨start, stop, shape, rfl, tokens.bounds.1, tokens.bounds.2, tokens, read, fun child hc => ?_,
    ordered.pairwise⟩
  obtain ⟨first, last, located, proper, after, before⟩ := ordered.mem hc
  exact ⟨first, last, located, proper, after, by omega⟩

/-- The places of a program of four lines, in the order of its nodes. -/
theorem spans_of_parse_lines : ∃ t, parse "a.js" lines = .ok t ∧
    t.nodes.map (fun u => (u.kind?, u.location?)) = [
      (some .program, some ⟨"a.js", 1, 1, 0, 17, 4, 2⟩),
      (some .expressionStatement, some ⟨"a.js", 1, 1, 0, 6, 1, 7⟩),
      (some .assignmentExpression, some ⟨"a.js", 1, 1, 0, 5, 1, 6⟩),
      (some .identifier, some ⟨"a.js", 1, 1, 0, 1, 1, 2⟩),
      (some .identifier, some ⟨"a.js", 1, 5, 4, 5, 1, 6⟩),
      (some .blockStatement, some ⟨"a.js", 2, 1, 7, 17, 4, 2⟩),
      (some .expressionStatement, some ⟨"a.js", 3, 5, 13, 15, 3, 7⟩),
      (some .identifier, some ⟨"a.js", 3, 5, 13, 14, 3, 6⟩)] := by
  obtain ⟨u, parsed, same⟩ := same_of_parse_lines
  obtain ⟨program, first, assignment, a, b, block, second, c, rfl⟩ := onLines_of_same same
  refine ⟨_, parsed, ?_⟩
  obtain ⟨-, placed⟩ := spans_of_parse parsed
  have length : List.length lines = 17 := rfl
  change ∀ u ∈ [_, _, _, _, _, _, _, _], _ at placed
  simp only [List.forall_mem_cons, length] at placed
  obtain ⟨program, first, assignment, a, b, block, second, c, -⟩ := placed
  -- The names are where their texts are.
  obtain ⟨p, q, _, same, proper, most, -, read, -⟩ := a
  cases same
  obtain ⟨rfl, rfl⟩ := slice_lines_eq_name (x := "a") (n := 0) (by decide) proper most read
  obtain ⟨p, q, _, same, proper, most, -, read, -⟩ := b
  cases same
  obtain ⟨rfl, rfl⟩ := slice_lines_eq_name (x := "b") (n := 4) (by decide) proper most read
  obtain ⟨p, q, _, same, proper, most, -, read, -⟩ := c
  cases same
  obtain ⟨rfl, rfl⟩ := slice_lines_eq_name (x := "c") (n := 13) (by decide) proper most read
  -- The block is between its braces, and its statement starts with the name and stops with a
  -- semicolon.
  obtain ⟨p, q, _, same, proper, most, -, read, inBlock, -⟩ := block
  cases same
  obtain rfl := (slice_lines_mark p (by omega) q (by omega)).1 read.1
  obtain rfl := (slice_lines_mark 7 (by omega) q (by omega)).2.1 read.2
  obtain ⟨p, q, _, same, proper, most, tokens, read, inSecond, -⟩ := second
  cases same
  have after : 7 + 1 ≤ p := (bounds_of_located (inBlock _ (List.mem_singleton_self _))).1
  have around : p + 0 ≤ 13 ∧ 14 + 1 ≤ q :=
    bounds_of_located (inSecond _ (List.mem_singleton_self _))
  obtain rfl : p = 13 := by
    by_contra other
    exact skipLength_lines p (by omega) after tokens.solid
  obtain rfl : q = 15 := by
    have := (slice_lines_mark 13 (by omega) q (by omega)).2.2 read.2
    omega
  -- The first statement reaches from the first name to a semicolon before the block.
  obtain ⟨p, q, _, same, proper, most, -, -, inAssignment, -⟩ := assignment
  cases same
  obtain ⟨p', q', _, same, proper', most', -, read, inFirst, -⟩ := first
  cases same
  obtain ⟨s, t, _, same, -, most, -, -, inProgram, ordered⟩ := program
  cases same
  have start : p + 0 ≤ 0 := (bounds_of_located (inAssignment _ (List.mem_cons_self ..))).1
  have stop : 5 + 0 ≤ q :=
    (bounds_of_located (inAssignment _ (List.mem_cons_of_mem _ (List.mem_singleton_self _)))).2
  have around : p' + 0 ≤ p ∧ q + 1 ≤ q' :=
    bounds_of_located (inFirst _ (List.mem_singleton_self _))
  have beforeBlock := List.rel_of_pairwise_cons ordered (List.mem_singleton_self _) _ _ rfl rfl
  change (q' : Int) ≤ (7 : Nat) at beforeBlock
  obtain rfl : q' = 6 := by
    have := (slice_lines_mark p' (by omega) q' (by omega)).2.2 read.2
    omega
  obtain ⟨rfl, rfl, rfl⟩ : p = 0 ∧ q = 5 ∧ p' = 0 := by omega
  -- The program reaches from its first statement to the closing brace.
  have fromFirst : s + 0 ≤ 0 := (bounds_of_located (inProgram _ (List.mem_cons_self ..))).1
  have toBlock : 17 + 0 ≤ t :=
    (bounds_of_located (inProgram _ (List.mem_cons_of_mem _ (List.mem_singleton_self _)))).2
  obtain ⟨rfl, rfl⟩ : s = 0 ∧ t = 17 := by omega
  rfl

end Source

end TailLoop
