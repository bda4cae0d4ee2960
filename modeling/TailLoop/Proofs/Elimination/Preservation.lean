import TailLoop.Proofs.Elimination.Sound

/-!
# Elimination keeps trees well-formed

A walked piece of a program is well-formed wherever its original was, with other targets around it:
the labels of the program are still there, a loop may have come around the body, and the label of
that loop is there if the body turned out to be tail recursive. `Carries` says this of two sets of
targets. Whether a body becomes a loop is only known when all of it is walked, so that the induction
of `Walks.wellFormed` speaks about the state after each piece; that a scope never stops being tail
recursive (`Walks.leads`) takes the hypothesis from a piece to its parts.

The names that generated code declares and assigns to are those of the scope: parameters, variables
of the program, and temporaries. `Scope.Named` says that all of them are spelled like names, and is
carried through the same induction.

`eliminateTailCalls_validate` is the result for the check of `Validity.lean`.
-/

namespace TailLoop.Elimination

open Validity

variable {n : Naming} {checked : Bool}

/-! ## Names -/

/-- What can start a name can go on with it. -/
theorem isNamePart_of_isNameStart {c : Nat} (h : Text.isNameStart c = true) :
    Text.isNamePart c = true := by
  rw [Text.isNamePart, h, Bool.true_or]

/-- Two names written one after the other are a name. -/
theorem isName_append {a b : Text} (ha : Text.isName a = true) (hb : Text.isName b = true) :
    Text.isName (a ++ b) = true := by
  cases a with
  | nil => cases ha
  | cons c rest =>
    cases b with
    | nil => cases hb
    | cons d more =>
      simp only [Text.isName, Bool.and_eq_true] at ha hb
      simp only [List.cons_append, Text.isName, Bool.and_eq_true, List.all_append, List.all_cons]
      exact ⟨ha.1, ha.2, isNamePart_of_isNameStart hb.1, hb.2⟩

/-- A name is a line that passes the check of names. -/
theorem isNameLine_of_isName {a : Text} (h : Text.isName a = true) : isNameLine a = true := by
  rw [isNameLine, h, Bool.true_or]

/-- A name with another one in front of it is spelled like a name again. -/
theorem isNameLine_append {a b : Text} (ha : Text.isName a = true) (hb : isNameLine b = true) :
    isNameLine (a ++ b) = true := by
  rcases Bool.or_eq_true_iff.mp hb with hb | hb
  · exact isNameLine_of_isName (isName_append ha hb)
  · obtain ⟨hl, hb⟩ := Bool.and_eq_true_iff.mp hb
    have ne : b ≠ [] := by
      rintro rfl
      cases hl
    have hl' : (a ++ b).getLast? = b.getLast? := by
      rw [List.getLast?_append, beq_iff_eq.mp hl, Option.some_or]
    have hd : (a ++ b).dropLast = a ++ b.dropLast := List.dropLast_append_of_ne_nil ne
    rw [isNameLine, hl', hd, hl, isName_append ha hb, Bool.and_true, Bool.or_true]

/-- The names of a scope are spelled as a check asks for, and there is a temporary for each
parameter. -/
structure Scope.Spelled (ok : Text → Bool) (s : Scope) : Prop where
  paired : s.temporaries.length = s.params.length
  params : ∀ x ∈ s.params, ok x = true
  temporaries : ∀ x ∈ s.temporaries, ok x = true
  locals : ∀ x ∈ s.locals, ok x = true
  used : ∀ x ∈ s.used, ok x = true
  directive : ∀ t ∈ s.directive, t.isStrictDirective = true

/-- The names of a scope are spelled like names. -/
abbrev Scope.Named (s : Scope) : Prop := s.Spelled isNameLine

section Spelled

variable {ok : Text → Bool} {s : Scope} {x : Text}

/-- A scope without names. -/
theorem spelled_empty {startsStrict : Bool} : ({ startsStrict } : Scope).Spelled ok :=
  ⟨rfl, nofun, nofun, nofun, nofun, nofun⟩

/-- A local that is spelled as it should be keeps the scope as it was. -/
theorem Scope.Spelled.addLocal (h : s.Spelled ok) (hx : ok x = true) :
    (s.addLocal x).Spelled ok := by
  unfold Scope.addLocal
  split
  · exact h
  · refine { h with locals := ?_ }
    intro y hy
    rcases List.mem_append.mp hy with hy | hy
    · exact h.locals y hy
    · rw [List.mem_singleton.mp hy]
      exact hx

/-- Temporaries that are spelled as they should be keep the scope as it was. -/
theorem Scope.Spelled.useAll {names : List Text} (h : s.Spelled ok)
    (hx : ∀ x ∈ names, ok x = true) : (names.foldl Scope.use s).Spelled ok := by
  induction names generalizing s with
  | nil => exact h
  | cons x names ih =>
    rw [List.forall_mem_cons] at hx
    refine ih ?_ hx.2
    unfold Scope.use
    split
    · exact h
    · refine { h with used := ?_ }
      intro y hy
      rcases List.mem_append.mp hy with hy | hy
      · exact h.used y hy
      · rw [List.mem_singleton.mp hy]
        exact hx.1

/-- Marking a scope as a loop names nothing. -/
theorem Scope.Spelled.markTailRecursive (h : s.Spelled ok) : s.markTailRecursive.Spelled ok :=
  { h with }

/-- The directive that a scope takes names nothing. -/
theorem Scope.Spelled.withDirective (h : s.Spelled ok) {t : Tree}
    (strict : t.isStrictDirective = true) : { s with directive := some t }.Spelled ok := by
  refine { h with directive := ?_ }
  intro u hu
  cases hu
  exact strict

end Spelled

/-! ## Targets -/

/-- The targets around a walked piece carry those around its original: labels of the program are
found alike, a loop is still a loop, and the label of the loop around the body is there if the body
is tail recursive. -/
structure Carries (n : Naming) (tail : Bool) (c c' : Targets) : Prop where
  labels : ∀ x, x ≠ n.loop → c'.labels.lookup x = c.labels.lookup x
  unused : c.labels.lookup n.loop = none
  inLoop : c.inLoop = true → c'.inLoop = true
  loop : tail = true → c'.labels.lookup n.loop = some true

namespace Carries

variable {tail tail' : Bool} {c c' : Targets}

/-- Targets that carry a loop also carry what has none. -/
theorem mono (h : Carries n tail' c c') (ht : tail = true → tail' = true) : Carries n tail c c' :=
  { h with loop := fun h' => h.loop (ht h') }

/-- The body of a loop is one on both sides. -/
theorem inBody (h : Carries n tail c c') : Carries n tail c.inBody c'.inBody :=
  { h with inLoop := fun _ => rfl }

/-- A label that is not reserved is found on both sides. -/
theorem labeled (h : Carries n tail c c') {x : Text} (hx : n.reserves x = false) (onLoop : Bool) :
    Carries n tail (c.labeled x onLoop) (c'.labeled x onLoop) := by
  have ne : n.loop ≠ x := by
    rintro rfl
    simp [Naming.reserves] at hx
  have ne' : (n.loop == x) = false := by simpa using ne
  refine ⟨?_, ?_, h.inLoop, ?_⟩
  · intro y hy
    simp only [Targets.labeled, List.lookup_cons]
    rw [h.labels y hy]
  · simp only [Targets.labeled, List.lookup_cons, ne', h.unused]
  · intro ht
    simp only [Targets.labeled, List.lookup_cons, ne', h.loop ht]

/-- A jump of the program finds its target among the carried ones. -/
theorem reaches (h : Carries n tail c c') {kind : JumpKind} {x : Text} (hr : c.Reaches kind x) :
    c'.Reaches kind x := by
  obtain ⟨onLoop, found, suits⟩ := hr
  have ne : x ≠ n.loop := by
    rintro rfl
    rw [h.unused] at found
    cases found
  exact ⟨onLoop, by rw [h.labels x ne, found], suits⟩

/-- Nothing around a body, and nothing but its own loop around the walked one. -/
theorem start (tail : Bool) :
    Carries n tail {} (if tail then ⟨[(n.loop, true)], true⟩ else {}) := by
  cases tail with
  | false => exact ⟨fun _ _ => rfl, rfl, id, nofun⟩
  | true =>
    refine ⟨?_, rfl, nofun, ?_⟩
    · intro x hx
      have : (x == n.loop) = false := by simpa using hx
      simp [List.lookup_cons, this]
    · intro _
      simp

end Carries

/-! ## Generated code -/

/-- A statement that is well-formed with the given targets around it. -/
def IsStatement (checked : Bool) (c : Targets) (t : Tree) : Prop :=
  t.isStatement = true ∧ WellFormed checked c t

/-- An expression that is well-formed with the given targets around it. -/
def IsExpression (checked : Bool) (c : Targets) (t : Tree) : Prop :=
  t.isExpression = true ∧ WellFormed checked c t

section Generated

variable {c : Targets}

/-- A name is an expression. -/
theorem isExpression_identifier {x : Text} (h : isNameLine x = true) :
    IsExpression checked c (.identifier x) := ⟨rfl, .identifier h⟩

/-- `undefined` is a name, and an expression. -/
theorem isExpression_undefined : IsExpression checked c .undefined :=
  isExpression_identifier (by decide)

/-- An assignment to a name is a statement. -/
theorem isStatement_assign {x : Text} {v : Tree} (hx : isNameLine x = true)
    (hv : IsExpression checked c v) :
    IsStatement checked c (Tree.new (.expressionStatement (Tree.assign x v))) := by
  refine ⟨rfl, .expressionStatement rfl ?_⟩
  exact .assignment (by decide) rfl (.identifier hx) hv.1 hv.2

/-- The value at an index is one of the given values or `undefined`. -/
theorem isExpression_valueAt {values : List Tree} (h : ∀ v ∈ values, IsExpression checked c v)
    (i : Nat) : IsExpression checked c (Tree.valueAt values i) := by
  unfold Tree.valueAt
  split
  · exact isExpression_undefined
  · exact isExpression_undefined
  · rename_i v _ found
    exact h v (List.mem_of_getElem? found)

/-- Assignments to names in order are statements. -/
theorem isStatement_assignAll {names : List Text} {values : List Tree}
    (hn : ∀ x ∈ names, isNameLine x = true) (hv : ∀ v ∈ values, IsExpression checked c v) :
    ∀ t ∈ Tree.assignAll names values, IsStatement checked c t := by
  intro t ht
  obtain ⟨i, hi, rfl⟩ := List.mem_mapIdx.mp ht
  exact isStatement_assign (hn _ (List.getElem_mem hi)) (isExpression_valueAt hv i)

/-- A bare declarator of a name is well-formed. -/
theorem wellFormed_declarator {x : Text} (h : isNameLine x = true) :
    WellFormed checked c (Tree.declarator x .null) :=
  .variableDeclarator ⟨_, h⟩ nofun nofun

/-- One declaration of all names is a statement, and there is none for no names. -/
theorem isStatement_declareAll {names : List Text} (h : ∀ x ∈ names, isNameLine x = true) :
    ∀ t ∈ Tree.declareAll names, IsStatement checked c t := by
  intro t ht
  unfold Tree.declareAll at ht
  split at ht
  · cases ht
  · rename_i some
    rw [List.mem_singleton.mp ht]
    refine ⟨rfl, .variableDeclaration (by simpa using some) ?_ ?_⟩
    · intro d hd
      obtain ⟨x, hx, rfl⟩ := List.mem_map.mp hd
      rfl
    · intro d hd
      obtain ⟨x, hx, rfl⟩ := List.mem_map.mp hd
      exact wellFormed_declarator (h x hx)

/-- A declaration for each name is a statement. -/
theorem isStatement_declareEach {names : List Text} (h : ∀ x ∈ names, isNameLine x = true) :
    ∀ t ∈ Tree.declareEach names [], IsStatement checked c t := by
  intro t ht
  obtain ⟨i, hi, rfl⟩ := List.mem_mapIdx.mp ht
  have part : WellFormed checked c (Tree.declarator names[i] .null) :=
    wellFormed_declarator (h _ (List.getElem_mem hi))
  refine ⟨rfl, .variableDeclaration nofun ?_ ?_⟩
  · intro d hd
    rw [List.mem_singleton.mp hd]
    rfl
  · intro d hd
    rw [List.mem_singleton.mp hd]
    exact part

/-- A directive is a statement. -/
theorem isStatement_directive {t : Tree} (h : t.isStrictDirective = true) :
    IsStatement checked c t := by
  unfold Tree.isStrictDirective Tree.isDirective at h
  split at h
  · exact ⟨rfl, .expressionStatement rfl (.literal rfl)⟩
  · cases h

/-- What a change holds: a parameter, and an argument or the undefined value. -/
theorem mem_changes {params : List Text} {arguments : List Tree} {ch : Change}
    (h : ch ∈ changes params arguments) :
    params[ch.index]? = some ch.param ∧ ch.value = arguments[ch.index]?.getD .undefined := by
  obtain ⟨i, hi, rfl⟩ := List.mem_mapIdx.mp (List.mem_filter.mp h).1
  exact ⟨List.getElem?_eq_getElem hi, rfl⟩

/-- The value of a change is an expression if the arguments are. -/
theorem isExpression_change {params : List Text} {arguments : List Tree} {ch : Change}
    (h : ch ∈ changes params arguments) (ha : ∀ e ∈ arguments, IsExpression checked c e) :
    IsExpression checked c ch.value := by
  rw [(mem_changes h).2]
  cases found : arguments[ch.index]? with
  | none => exact isExpression_undefined
  | some e => exact ha e (List.mem_of_getElem? found)

/-- The temporaries that a call uses are spelled as those of the scope. -/
theorem spelled_callTemporaries {ok : Text → Bool} {s : Scope} (h : s.Spelled ok)
    (arguments : List Tree) : ∀ x ∈ callTemporaries s arguments, ok x = true := by
  intro x hx
  unfold callTemporaries at hx
  split at hx
  · obtain ⟨ch, hch, rfl⟩ := List.mem_map.mp hx
    obtain ⟨hi, -⟩ := List.getElem?_eq_some_iff.mp (mem_changes hch).1
    rw [← h.paired] at hi
    rw [List.getElem?_eq_getElem hi, Option.getD_some]
    exact h.temporaries _ (List.getElem_mem hi)
  · cases hx

/-- Putting the last change first adds no change. -/
theorem mem_lastFirst {cs : List Change} {ch : Change} (h : ch ∈ lastFirst cs) : ch ∈ cs := by
  rcases List.mem_append.mp h with h | h
  · exact List.mem_of_getLast? (Option.mem_toList.mp h)
  · exact List.dropLast_subset cs h

/-- The assignments for a tail call are statements. -/
theorem isStatement_callAssignments {s : Scope} {arguments : List Tree} (h : s.Named)
    (ha : ∀ e ∈ arguments, IsExpression checked c e) :
    ∀ t ∈ callAssignments s arguments, IsStatement checked c t := by
  -- Parameters, values and temporaries are well-formed by themselves.
  have params : ∀ ch ∈ changes s.params arguments, isNameLine ch.param = true := fun ch hch =>
    h.params _ (List.mem_of_getElem? (mem_changes hch).1)
  have values : ∀ ch ∈ changes s.params arguments, IsExpression checked c ch.value :=
    fun ch hch => isExpression_change hch ha
  have temporaries := spelled_callTemporaries h arguments
  unfold callAssignments
  split
  -- The values are put aside first, and the parameters take them from there.
  · intro t ht
    rcases List.mem_append.mp ht with ht | ht
    · exact isStatement_assignAll temporaries (by simpa using values) t ht
    · refine isStatement_assignAll (by simpa using params) ?_ t ht
      intro v hv
      obtain ⟨x, hx, rfl⟩ := List.mem_map.mp hv
      exact isExpression_identifier (temporaries x hx)
  -- Without temporaries each value goes to its parameter at once.
  · apply isStatement_assignAll
    · intro x hx
      obtain ⟨ch, hch, rfl⟩ := List.mem_map.mp hx
      exact params ch (mem_lastFirst hch)
    · intro v hv
      obtain ⟨ch, hch, rfl⟩ := List.mem_map.mp hv
      exact values ch (mem_lastFirst hch)

/-- A call that is converted becomes a block whose jump finds the loop around the body. -/
theorem isStatement_converted {s : Scope} {arguments : List Tree} {l : Option Location}
    (h : s.Named) (ha : ∀ e ∈ arguments, IsExpression checked c e)
    (hl : Text.isName n.loop = true) (hc : c.labels.lookup n.loop = some true) :
    IsStatement checked c
      (.node l (.block (.tuple (callAssignments s arguments ++ [jumpBack n])))) := by
  have jump : IsStatement checked c (jumpBack n) :=
    ⟨rfl, .jump (isNameLine_of_isName hl) fun _ => ⟨true, hc, .inr rfl⟩⟩
  have all : ∀ t ∈ callAssignments s arguments ++ [jumpBack n], IsStatement checked c t := by
    intro t ht
    rcases List.mem_append.mp ht with ht | ht
    · exact isStatement_callAssignments h ha t ht
    · rw [List.mem_singleton.mp ht]
      exact jump
  exact ⟨rfl, .block (fun t ht => (all t ht).1) fun t ht => (all t ht).2⟩

/-- Dropping resets adds no statement. -/
theorem mem_dropResets {locals : List Text} {ts ts' : List Tree}
    (h : dropResets locals ts = .ok ts') : ∀ t ∈ ts', t ∈ ts := by
  -- By induction on the list: only a head is dropped, and the rest is a part of the list.
  induction ts with
  | nil =>
    cases h
    exact nofun
  | cons t ts ih =>
    rw [dropResets] at h
    cases hr : t.isResetStatement locals with
    | error e => rw [hr] at h; cases h
    | ok b =>
      rw [hr] at h
      cases b with
      | true =>
        intro u hu
        exact List.mem_cons_of_mem t (ih h u hu)
      | false =>
        cases h
        exact fun u hu => hu

/-- A body that is made to end with a `return` has one statement more at most. -/
theorem isStatement_endWithReturn {ts : List Tree} (h : ∀ t ∈ ts, IsStatement checked c t) :
    ∀ t ∈ endWithReturn ts, IsStatement checked c t := by
  intro t ht
  unfold endWithReturn at ht
  split at ht
  · exact h t ht
  · rcases List.mem_append.mp ht with ht | ht
    · exact h t ht
    · rw [List.mem_singleton.mp ht]
      exact ⟨rfl, .returnStatement nofun nofun⟩

/-- The loop around a body is a statement where nothing stands around the body. -/
theorem isStatement_loopAround {locals : List Text} {ts : List Tree}
    (hl : Text.isName n.loop = true) (hn : ∀ x ∈ locals, isNameLine x = true)
    (h : ∀ t ∈ ts, IsStatement checked ⟨[(n.loop, true)], true⟩ t) :
    IsStatement checked {} (loopAround n locals ts) := by
  have all : ∀ t ∈ Tree.assignAll locals [] ++ ts,
      IsStatement checked ⟨[(n.loop, true)], true⟩ t := by
    intro t ht
    rcases List.mem_append.mp ht with ht | ht
    · exact isStatement_assignAll hn (by simp) t ht
    · exact h t ht
  have body := isStatement_endWithReturn all
  refine ⟨rfl, .labeled (isNameLine_of_isName hl) (fun _ => rfl) rfl ?_⟩
  refine .whileStatement rfl (.literal rfl) rfl ?_
  exact .block (fun t ht => (body t ht).1) fun t ht => (body t ht).2

/-- The statements of a finished body are well-formed where the walked ones are, with the loop
around them if there is one. -/
theorem isStatement_finishBody {s : Scope} {ts ts' : List Tree} (hl : Text.isName n.loop = true)
    (named : s.Named)
    (h : ∀ t ∈ ts, IsStatement checked (if s.isTailRecursive then ⟨[(n.loop, true)], true⟩ else {}) t)
    (hf : finishBody n s ts = .ok ts') : ∀ t ∈ ts', IsStatement checked {} t := by
  -- The directive and the declarations stand in front, whether there is a loop or not.
  have front : ∀ t ∈ s.directive.toList ++ Tree.declareAll s.locals, IsStatement checked {} t := by
    intro t ht
    rcases List.mem_append.mp ht with ht | ht
    · exact isStatement_directive (named.directive t (Option.mem_toList.mp ht))
    · exact isStatement_declareAll named.locals t ht
  intro t ht
  cases tail : s.isTailRecursive with
  | true =>
    rw [tail] at h
    rw [finishBody_loop tail] at hf
    -- Then come the temporaries and the loop.
    cases hf
    rcases List.mem_append.mp ht with ht | ht
    · exact front t ht
    · rcases List.mem_append.mp ht with ht | ht
      · exact isStatement_declareEach named.used t ht
      · rw [List.mem_singleton.mp ht]
        exact isStatement_loopAround hl named.locals h
  | false =>
    rw [tail] at h
    -- Without a loop the resets at the head are dropped, and nothing else.
    obtain ⟨rest, hr, rfl⟩ := (finishBody_plain tail).mp hf
    rcases List.mem_append.mp ht with ht | ht
    · exact front t ht
    · exact h t (mem_dropResets hr t ht)

end Generated

/-! ## Scopes of functions -/

/-- The names of the parameters are spelled as the parameters are. -/
theorem mapM_declaredName {ok : Text → Bool} {ps : List Tree} {names : List Text}
    (hp : ∀ p ∈ ps, IsName p)
    (spelled : ∀ l x, Tree.node l (.identifier (.text x)) ∈ ps → ok x = true)
    (h : ps.mapM (declaredName n) = .ok names) : ∀ x ∈ names, ok x = true := by
  induction ps generalizing names with
  | nil =>
    cases h
    exact nofun
  | cons p ps ih =>
    rw [List.forall_mem_cons] at hp
    obtain ⟨⟨l, _⟩, rest⟩ := hp
    rw [List.mapM_cons] at h
    obtain ⟨x, hx, h⟩ := bind_ok.mp h
    obtain ⟨xs, hxs, h⟩ := bind_ok.mp h
    cases h
    rw [(declaredName_ok.mp hx).2]
    exact List.forall_mem_cons.mpr ⟨spelled l _ List.mem_cons_self,
      ih rest (fun l x hx => spelled l x (List.mem_cons_of_mem _ hx)) hxs⟩

/-- The scope that a function starts with is spelled like its parameters. -/
theorem spelled_ofFunction {ok : Text → Bool} {id body : Tree} {ps : List Tree} {scope : Scope}
    (temporary : ∀ x, ok x = true → ok (n.temporary ++ x) = true) (hp : ∀ p ∈ ps, IsName p)
    (spelled : ∀ l x, Tree.node l (.identifier (.text x)) ∈ ps → ok x = true)
    (h : Scope.ofFunction n id (.tuple ps) body = .ok scope) : scope.Spelled ok := by
  obtain ⟨names, hnames, hrest⟩ := bind_ok.mp h
  obtain ⟨name, -, hrest⟩ := bind_ok.mp hrest
  obtain ⟨own, -, hrest⟩ := bind_ok.mp hrest
  obtain ⟨statements, -, hrest⟩ := bind_ok.mp hrest
  obtain ⟨startsStrict, -, hrest⟩ := bind_ok.mp hrest
  cases hrest
  obtain ⟨items, hi, hnames⟩ := bind_ok.mp hnames
  obtain ⟨-, -, hnames⟩ := bind_ok.mp hnames
  cases hi
  have named := mapM_declaredName hp spelled hnames
  refine ⟨List.length_map .., named, ?_, nofun, nofun, nofun⟩
  intro x hx
  obtain ⟨y, hy, rfl⟩ := List.mem_map.mp hx
  exact temporary y (named y hy)

/-- The scope that a function starts with is named like its parameters. -/
theorem named_ofFunction {id body : Tree} {ps : List Tree} {scope : Scope}
    (ht : Text.isName n.temporary = true) (hp : ∀ p ∈ ps, IsName p)
    (h : Scope.ofFunction n id (.tuple ps) body = .ok scope) : scope.Named := by
  refine spelled_ofFunction (fun _ => isNameLine_append ht) hp (fun l x hx => ?_) h
  cases hp _ hx with
  | mk _ spelled => exact spelled

/-! ## Walked pieces -/

/-- The original piece of an edit is well-formed. -/
def Edit.Source (checked : Bool) (c : Targets) : Edit → Prop
  | .expression e _ | .branch e _ => IsExpression checked c e
  | .optional e _ | .returned _ e _ | .initial e _ => e.isNull = false → IsExpression checked c e
  | .expressions es _ | .branchItems es _ => ∀ e ∈ es, IsExpression checked c e
  | .statement t _ => IsStatement checked c t
  | .optionalStatement t _ => t.isNull = false → IsStatement checked c t
  | .statements ts _ | .start ts _ => ∀ t ∈ ts, IsStatement checked c t
  | .loopStart t _ => t.isNull = false →
    (t.hasKind .variableDeclaration = true ∨ t.isExpression = true) ∧ WellFormed checked c t
  | .declarators ds _ => ∀ d ∈ ds, d.hasKind .variableDeclarator = true ∧ WellFormed checked c d
  | .body scope ts _ => scope.Named ∧ ∀ t ∈ ts, IsStatement checked {} t

/-- The walked piece of an edit is well-formed, and what its surroundings look at is as it was. -/
def Edit.Target (checked : Bool) (c : Targets) : Edit → Prop
  | .expression e e' =>
    IsExpression checked c e' ∧ (e.isAssignable = true → e'.isAssignable = true)
  | .optional _ e' => e'.isNull = false → IsExpression checked c e'
  | .expressions es es' => (∀ e ∈ es', IsExpression checked c e) ∧ (es ≠ [] → es' ≠ [])
  | .returned _ _ t' | .branch _ t' => IsStatement checked c t'
  | .branchItems _ ts' | .statements _ ts' | .start _ ts' => ∀ t ∈ ts', IsStatement checked c t
  | .statement t t' => IsStatement checked c t' ∧ isLoop t' = isLoop t
  | .optionalStatement _ t' => t'.isNull = false → IsStatement checked c t'
  | .loopStart _ t' => t'.isNull = false →
    (t'.hasKind .variableDeclaration = true ∨ t'.isExpression = true) ∧ WellFormed checked c t'
  | .initial _ e' => IsExpression checked c e'
  | .declarators ds es => (∀ e ∈ es, IsExpression checked c e) ∧ (ds ≠ [] → es ≠ [])
  | .body _ _ ts' => ∀ t ∈ ts', IsStatement checked {} t

/-- What takes the place of a statement in a row is statements. -/
theorem isStatement_spliced {c : Targets} {t : Tree} {ts : List Tree}
    (h : IsStatement checked c t) (hs : t.spliced = .ok ts) :
    ∀ u ∈ ts, IsStatement checked c u := by
  obtain ⟨kind, wf⟩ := h
  cases hk : t.hasKind .blockStatement with
  | false =>
    rw [spliced_of_hasKind hk] at hs
    cases hs
    exact List.forall_mem_singleton.mpr ⟨kind, wf⟩
  | true =>
    obtain ⟨l, body, rfl⟩ := eq_block hk
    cases wf with
    | block kinds parts =>
      cases hs
      exact fun u hu => ⟨kinds u hu, parts u hu⟩

/-- What can be walked as an expression is one, and so is what comes of it. -/
theorem isExpression_of_walks {s s' : State} {e e' : Tree} (h : Walks n s (.expression e e') s') :
    e.isExpression = true := by
  cases h <;> rfl

/-- What is walked as an expression or a statement is there. -/
theorem isNull_of_walks {s s' : State} {edit : Edit} (h : Walks n s edit s') :
    match edit with
    | .expression e _ => e.isNull = false
    | .statement t _ => t.isNull = false
    | _ => True := by
  cases h <;> first | rfl | trivial

/-- Using temporaries takes the mark of a loop from no scope. -/
theorem isTailRecursive_useAll (names : List Text) (s : Scope) :
    (names.foldl Scope.use s.markTailRecursive).isTailRecursive = true :=
  (Scope.Leads.useAll names s.markTailRecursive).tail rfl

/-- What comes of a `return` is no loop. -/
theorem isLoop_of_returned {s s' : State} {l : Option Location} {e t' : Tree}
    (h : Walks n s (.returned l e t') s') : isLoop t' = false := by
  cases h with
  | returnCall own parts converted =>
    obtain ⟨-, rfl, -⟩ := convertCall_ok.mp converted
    rfl
  | _ => rfl

/-! ## Rules of the walk -/

/-- A walk of a piece after which it is well-formed where it was before. Whether there is a loop to
continue is known at the end of the walk only. As a function that is tail recursive remains so, the
targets at the end do for each part of the walk. -/
structure KeepsForm (n : Naming) (checked : Bool) (s : State) (edit : Edit) (s' : State) : Prop where
  walks : Walks n s edit s'
  keeps {c c' : Targets} : s.scope.Named → Carries n s'.scope.isTailRecursive c c' →
    edit.Source checked c → s'.scope.Named ∧ edit.Target checked c'

-- There is one lemma for each rule of the walk.
namespace KeepsForm

variable {s s1 s2 s3 s' : State} {l lb lc ld le lf li ln : Option Location} {name op : Text}
  {kind : JumpKind} {domain : Domain} {isPrefix : Bool} {scope : Scope}
  {id value e e' t t' object object' property property' callee callee' argument argument' left left'
    right right' test test' consequent consequent' alternate alternate' init init' step step' body
    body' : Tree}
  {es es' ps ss ss1 ss' args args' ts ts' ts'' ds : List Tree}

theorem identifier :
    KeepsForm n checked s
      (.expression (.node l (.identifier (.text name))) (.node l (.identifier (.text name)))) s := by
  refine ⟨.identifier, fun named carries source => ?_⟩
  obtain ⟨kind, wf⟩ := source
  cases wf with
  | identifier spelled => exact ⟨named, ⟨rfl, .identifier spelled⟩, id⟩

theorem literal (plain : value.isPlain = true) :
    KeepsForm n checked s (.expression (.node l (.literal value)) (.node l (.literal value))) s := by
  refine ⟨.literal plain, fun named carries source => ?_⟩
  exact ⟨named, ⟨rfl, .literal plain⟩, id⟩

theorem array (h : KeepsForm n checked s (.expressions es es') s') :
    KeepsForm n checked s (.expression (.node l (.array (.tuple es))) (.node l (.array (.tuple es'))))
      s' := by
  refine ⟨.array h.walks, fun named carries source => ?_⟩
  obtain ⟨kind, wf⟩ := source
  cases wf with
  | array kinds parts =>
    obtain ⟨named', es', -⟩ := h.keeps named carries fun e he => ⟨kinds e he, parts e he⟩
    exact ⟨named', ⟨rfl, .array (fun e he => (es' e he).1) fun e he => (es' e he).2⟩, id⟩

/-- The body of a function is its own place: nothing of the scope around it matters there. -/
theorem function (ht : Text.isName n.temporary = true)
    (starts : Scope.ofFunction n id (.tuple ps) (.node lb (.block (.tuple ss))) = .ok scope)
    (h : KeepsForm n checked s (.body scope ss ss') s') :
    KeepsForm n checked s
      (.expression
        (.node l (.function .expression id (.tuple ps) (.node lb (.block (.tuple ss)))))
        (.node l (.function .expression id (.tuple ps) (.node lb (.block (.tuple ss')))))) s' := by
  refine ⟨.function starts h.walks, fun named carries source => ?_⟩
  obtain ⟨kind, wf⟩ := source
  cases wf with
  | function isDeclared name params kinds parts =>
    obtain ⟨named', ss'⟩ := h.keeps named carries
      ⟨named_ofFunction ht params starts, fun t ht => ⟨kinds t ht, parts t ht⟩⟩
    exact ⟨named', ⟨rfl, .function isDeclared name params (fun t ht => (ss' t ht).1)
      fun t ht => (ss' t ht).2⟩, fun h => h⟩

theorem call (h₁ : KeepsForm n checked s (.expression callee callee') s1)
    (h₂ : KeepsForm n checked s1 (.expressions args args') s') :
    KeepsForm n checked s
      (.expression (.node l (.call callee (.tuple args)))
        (.node l (.call callee' (.tuple args')))) s' := by
  refine ⟨.call h₁.walks h₂.walks, fun named carries source => ?_⟩
  obtain ⟨kind, wf⟩ := source
  cases wf with
  | call kind part kinds parts =>
    obtain ⟨named1, callee', -⟩ := h₁.keeps named (carries.mono h₂.walks.leads.tail) ⟨kind, part⟩
    obtain ⟨named', args', -⟩ := h₂.keeps named1 carries fun e he => ⟨kinds e he, parts e he⟩
    exact ⟨named', ⟨rfl, .call callee'.1 callee'.2 (fun e he => (args' e he).1)
      fun e he => (args' e he).2⟩, id⟩

theorem member (h : KeepsForm n checked s (.expression object object') s') (name : IsName property) :
    KeepsForm n checked s
      (.expression (.node l (.member object property (.bool false)))
        (.node l (.member object' property (.bool false)))) s' := by
  refine ⟨.member h.walks name, fun named carries source => ?_⟩
  obtain ⟨kind, wf⟩ := source
  cases wf with
  | member kind part =>
    obtain ⟨named', object', -⟩ := h.keeps named carries ⟨kind, part⟩
    exact ⟨named', ⟨rfl, .member object'.1 object'.2 name⟩, id⟩

theorem computedMember (h₁ : KeepsForm n checked s (.expression object object') s1)
    (h₂ : KeepsForm n checked s1 (.expression property property') s') :
    KeepsForm n checked s
      (.expression (.node l (.member object property (.bool true)))
        (.node l (.member object' property' (.bool true)))) s' := by
  refine ⟨.computedMember h₁.walks h₂.walks, fun named carries source => ?_⟩
  obtain ⟨kind, wf⟩ := source
  cases wf with
  | computedMember kind part keyKind keyPart =>
    obtain ⟨named1, object', -⟩ := h₁.keeps named (carries.mono h₂.walks.leads.tail) ⟨kind, part⟩
    obtain ⟨named', key', -⟩ := h₂.keeps named1 carries ⟨keyKind, keyPart⟩
    exact ⟨named', ⟨rfl, .computedMember object'.1 object'.2 key'.1 key'.2⟩, id⟩

theorem conditional (h₁ : KeepsForm n checked s (.expression test test') s1)
    (h₂ : KeepsForm n checked s1 (.expression consequent consequent') s2)
    (h₃ : KeepsForm n checked s2 (.expression alternate alternate') s') :
    KeepsForm n checked s
      (.expression (.node l (.conditional test consequent alternate))
        (.node l (.conditional test' consequent' alternate'))) s' := by
  refine ⟨.conditional h₁.walks h₂.walks h₃.walks, fun named carries source => ?_⟩
  obtain ⟨kind, wf⟩ := source
  cases wf with
  | conditional testKind testPart kind part elseKind elsePart =>
    have carries2 := carries.mono h₃.walks.leads.tail
    obtain ⟨named1, test', -⟩ :=
      h₁.keeps named (carries2.mono h₂.walks.leads.tail) ⟨testKind, testPart⟩
    obtain ⟨named2, a', -⟩ := h₂.keeps named1 carries2 ⟨kind, part⟩
    obtain ⟨named', b', -⟩ := h₃.keeps named2 carries ⟨elseKind, elsePart⟩
    exact ⟨named', ⟨rfl, .conditional test'.1 test'.2 a'.1 a'.2 b'.1 b'.2⟩, id⟩

theorem assignment (h₁ : KeepsForm n checked s (.expression left left') s1)
    (h₂ : KeepsForm n checked s1 (.expression right right') s') :
    KeepsForm n checked s
      (.expression (.node l (.assignment (.text op) left right))
        (.node l (.assignment (.text op) left' right'))) s' := by
  refine ⟨.assignment h₁.walks h₂.walks, fun named carries source => ?_⟩
  obtain ⟨kind, wf⟩ := source
  cases wf with
  | assignment known target leftPart kind part =>
    obtain ⟨named1, left', target'⟩ := h₁.keeps named (carries.mono h₂.walks.leads.tail)
      ⟨isExpression_of_isAssignable target, leftPart⟩
    obtain ⟨named', right', -⟩ := h₂.keeps named1 carries ⟨kind, part⟩
    exact ⟨named', ⟨rfl, .assignment known (target' target) left'.2 right'.1 right'.2⟩, id⟩

theorem sequence (h : KeepsForm n checked s (.expressions es es') s') :
    KeepsForm n checked s (.expression (.node l (.sequence (.tuple es))) (.node l (.sequence (.tuple
      es')))) s' := by
  refine ⟨.sequence h.walks, fun named carries source => ?_⟩
  obtain ⟨kind, wf⟩ := source
  cases wf with
  | sequence some kinds parts =>
    obtain ⟨named', es', some'⟩ := h.keeps named carries fun e he => ⟨kinds e he, parts e he⟩
    exact ⟨named', ⟨rfl, .sequence (some' some) (fun e he => (es' e he).1)
      fun e he => (es' e he).2⟩, id⟩

theorem binary (h₁ : KeepsForm n checked s (.expression left left') s1)
    (h₂ : KeepsForm n checked s1 (.expression right right') s') :
    KeepsForm n checked s
      (.expression (.node l (.binary (.text op) left right))
        (.node l (.binary (.text op) left' right'))) s' := by
  refine ⟨.binary h₁.walks h₂.walks, fun named carries source => ?_⟩
  obtain ⟨kind, wf⟩ := source
  cases wf with
  | binary known leftKind leftPart kind part =>
    obtain ⟨named1, left', -⟩ :=
      h₁.keeps named (carries.mono h₂.walks.leads.tail) ⟨leftKind, leftPart⟩
    obtain ⟨named', right', -⟩ := h₂.keeps named1 carries ⟨kind, part⟩
    exact ⟨named', ⟨rfl, .binary known left'.1 left'.2 right'.1 right'.2⟩, id⟩

theorem logical (h₁ : KeepsForm n checked s (.expression left left') s1)
    (h₂ : KeepsForm n checked s1 (.expression right right') s') :
    KeepsForm n checked s
      (.expression (.node l (.logical (.text op) left right))
        (.node l (.logical (.text op) left' right'))) s' := by
  refine ⟨.logical h₁.walks h₂.walks, fun named carries source => ?_⟩
  obtain ⟨kind, wf⟩ := source
  cases wf with
  | logical known leftKind leftPart kind part =>
    obtain ⟨named1, left', -⟩ :=
      h₁.keeps named (carries.mono h₂.walks.leads.tail) ⟨leftKind, leftPart⟩
    obtain ⟨named', right', -⟩ := h₂.keeps named1 carries ⟨kind, part⟩
    exact ⟨named', ⟨rfl, .logical known left'.1 left'.2 right'.1 right'.2⟩, id⟩

theorem unary (h : KeepsForm n checked s (.expression argument argument') s') :
    KeepsForm n checked s
      (.expression (.node l (.unary (.text op) argument (.bool isPrefix)))
        (.node l (.unary (.text op) argument' (.bool isPrefix)))) s' := by
  refine ⟨.unary h.walks, fun named carries source => ?_⟩
  obtain ⟨kind, wf⟩ := source
  cases wf with
  | unary known kind part =>
    obtain ⟨named', argument', -⟩ := h.keeps named carries ⟨kind, part⟩
    exact ⟨named', ⟨rfl, .unary known argument'.1 argument'.2⟩, id⟩

theorem update (h : KeepsForm n checked s (.expression argument argument') s') :
    KeepsForm n checked s
      (.expression (.node l (.update (.text op) argument (.bool isPrefix)))
        (.node l (.update (.text op) argument' (.bool isPrefix)))) s' := by
  refine ⟨.update h.walks, fun named carries source => ?_⟩
  obtain ⟨kind, wf⟩ := source
  cases wf with
  | update known target part =>
    obtain ⟨named', argument', target'⟩ :=
      h.keeps named carries ⟨isExpression_of_isAssignable target, part⟩
    exact ⟨named', ⟨rfl, .update known (target' target) argument'.2⟩, id⟩

theorem absent : KeepsForm n checked s (.optional .null .null) s := by
  refine ⟨.absent, fun named carries source => ?_⟩
  exact ⟨named, nofun⟩

theorem present (h : KeepsForm n checked s (.expression e e') s') :
    KeepsForm n checked s (.optional e e') s' := by
  refine ⟨.present h.walks, fun named carries source => ?_⟩
  obtain ⟨named', e', -⟩ := h.keeps named carries (source (isNull_of_walks h.walks))
  exact ⟨named', fun _ => e'⟩

theorem noExpressions : KeepsForm n checked s (.expressions [] []) s := by
  refine ⟨.noExpressions, fun named carries source => ?_⟩
  exact ⟨named, nofun, fun h => h⟩

theorem moreExpressions (h₁ : KeepsForm n checked s (.expression e e') s1)
    (h₂ : KeepsForm n checked s1 (.expressions es es') s') :
    KeepsForm n checked s (.expressions (e :: es) (e' :: es')) s' := by
  refine ⟨.moreExpressions h₁.walks h₂.walks, fun named carries source => ?_⟩
  obtain ⟨head, tail⟩ := List.forall_mem_cons.mp source
  obtain ⟨named1, e', -⟩ := h₁.keeps named (carries.mono h₂.walks.leads.tail) head
  obtain ⟨named', es', -⟩ := h₂.keeps named1 carries tail
  exact ⟨named', List.forall_mem_cons.mpr ⟨e', es'⟩, nofun⟩

theorem returnNothing :
    KeepsForm n checked s (.returned l .null (.node l (.returnStatement .null))) s := by
  refine ⟨.returnNothing, fun named carries source => ?_⟩
  exact ⟨named, rfl, .returnStatement nofun nofun⟩

/-- A converted call is put in a block that ends with the jump to the loop around the body. -/
theorem returnCall (hl : Text.isName n.loop = true) (own : s.scope.name = some name)
    (h : KeepsForm n checked s (.expressions args args') s1)
    (converted : convertCall n l lc args' s1 = .ok (t', s')) :
    KeepsForm n checked s
      (.returned l (.node lc (.call (.node lf (.identifier (.text name))) (.tuple args))) t') s' := by
  refine ⟨.returnCall own h.walks converted, fun named carries source => ?_⟩
  obtain ⟨-, rfl, rfl⟩ := convertCall_ok.mp converted
  obtain ⟨-, wf⟩ := source rfl
  cases wf with
  | call _ _ kinds parts =>
    obtain ⟨named1, args', -⟩ :=
      h.keeps named (carries.mono fun _ => isTailRecursive_useAll _ _) fun e he =>
        ⟨kinds e he, parts e
        he⟩
    -- The call is what makes the function tail recursive: the jump back has its loop.
    refine ⟨named1.markTailRecursive.useAll (spelled_callTemporaries named1 _), ?_⟩
    exact isStatement_converted named1 args' hl (carries.loop (isTailRecursive_useAll _ _))

/-- A returned choice becomes an `if` statement. -/
theorem returnConditional
    (h₁ : KeepsForm n checked (s.tally Stats.addTernary) (.expression test test') s1)
    (h₂ : KeepsForm n checked s1 (.branch consequent consequent') s2)
    (h₃ : KeepsForm n checked s2 (.branch alternate alternate') s') :
    KeepsForm n checked s
      (.returned l (.node lc (.conditional test consequent alternate))
        (.node l (.ifStatement test' consequent' alternate'))) s' := by
  refine ⟨.returnConditional h₁.walks h₂.walks h₃.walks, fun named carries source => ?_⟩
  obtain ⟨-, wf⟩ := source rfl
  cases wf with
  | conditional testKind testPart kind part elseKind elsePart =>
    have carries2 := carries.mono h₃.walks.leads.tail
    obtain ⟨named1, test', -⟩ :=
      h₁.keeps named (carries2.mono h₂.walks.leads.tail) ⟨testKind, testPart⟩
    obtain ⟨named2, a'⟩ := h₂.keeps named1 carries2 ⟨kind, part⟩
    obtain ⟨named', b'⟩ := h₃.keeps named2 carries ⟨elseKind, elsePart⟩
    exact ⟨named', rfl, .ifStatement test'.1 test'.2 a'.1 a'.2 (fun _ => b'.1) fun _ => b'.2⟩

theorem returnValue (kept : s.scope.converts e = false)
    (h : KeepsForm n checked s (.expression e e') s') :
    KeepsForm n checked s (.returned l e (.node l (.returnStatement e'))) s' := by
  refine ⟨.returnValue kept h.walks, fun named carries source => ?_⟩
  obtain ⟨named', e', -⟩ := h.keeps named carries (source (isNull_of_walks h.walks))
  exact ⟨named', rfl, .returnStatement (fun _ => e'.1) fun _ => e'.2⟩

/-- A branch that is one value becomes a `return` statement. -/
theorem branchValue (single : e.hasKind .sequenceExpression = false)
    (h : KeepsForm n checked s (.returned e.location? e t') s') :
    KeepsForm n checked s (.branch e t') s' := by
  refine ⟨.branchValue single h.walks, fun named carries source => ?_⟩
  exact h.keeps named carries fun _ => source

/-- A branch that is a sequence becomes a block. -/
theorem branchSequence (h : KeepsForm n checked s (.branchItems es ts) s') :
    KeepsForm n checked s (.branch (.node l (.sequence (.tuple es))) (Tree.new (.block (.tuple ts))))
      s' := by
  refine ⟨.branchSequence h.walks, fun named carries source => ?_⟩
  obtain ⟨-, wf⟩ := source
  cases wf with
  | sequence some kinds parts =>
    obtain ⟨named', ts'⟩ := h.keeps named carries fun e he => ⟨kinds e he, parts e he⟩
    exact ⟨named', rfl, .block (fun t ht => (ts' t ht).1) fun t ht => (ts' t ht).2⟩

/-- The last item of a branch is what it returns. -/
theorem branchLast (h : KeepsForm n checked s (.returned e.location? e t') s')
    (spliced : t'.spliced = .ok ts) :
    KeepsForm n checked s (.branchItems [e] ts) s' := by
  refine ⟨.branchLast h.walks spliced, fun named carries source => ?_⟩
  obtain ⟨named', t'⟩ := h.keeps named carries fun _ => source _ (List.mem_singleton_self _)
  exact ⟨named', isStatement_spliced t' spliced⟩

/-- The items before the last one become statements. -/
theorem branchMore (more : es ≠ []) (h₁ : KeepsForm n checked s (.expression e e') s1)
    (h₂ : KeepsForm n checked s1 (.branchItems es ts) s') :
    KeepsForm n checked s (.branchItems (e :: es) (.node e.location? (.expressionStatement e') :: ts))
      s' := by
  refine ⟨.branchMore more h₁.walks h₂.walks, fun named carries source => ?_⟩
  obtain ⟨head, tail⟩ := List.forall_mem_cons.mp source
  obtain ⟨named1, e', -⟩ := h₁.keeps named (carries.mono h₂.walks.leads.tail) head
  obtain ⟨named', ts'⟩ := h₂.keeps named1 carries tail
  exact ⟨named', List.forall_mem_cons.mpr ⟨⟨rfl, .expressionStatement e'.1 e'.2⟩, ts'⟩⟩

/-- A function declaration, as a function. -/
theorem functionDeclaration (ht : Text.isName n.temporary = true)
    (starts : Scope.ofFunction n id (.tuple ps) (.node lb (.block (.tuple ss))) = .ok scope)
    (h : KeepsForm n checked s (.body scope ss ss') s') :
    KeepsForm n checked s
      (.statement
        (.node l (.function .declaration id (.tuple ps) (.node lb (.block (.tuple ss)))))
        (.node l (.function .declaration id (.tuple ps) (.node lb (.block (.tuple ss')))))) s' := by
  refine ⟨.functionDeclaration starts h.walks, fun named carries source => ?_⟩
  obtain ⟨kind, wf⟩ := source
  cases wf with
  | function isDeclared name params kinds parts =>
    obtain ⟨named', ss'⟩ := h.keeps named carries
      ⟨named_ofFunction ht params starts, fun t ht => ⟨kinds t ht, parts t ht⟩⟩
    exact ⟨named', ⟨rfl, .function isDeclared name params (fun t ht => (ss' t ht).1)
      fun t ht => (ss' t ht).2⟩, rfl⟩

theorem block (h : KeepsForm n checked s (.statements ss ss') s') :
    KeepsForm n checked s (.statement (.node l (.block (.tuple ss))) (.node l (.block (.tuple ss'))))
      s' := by
  refine ⟨.block h.walks, fun named carries source => ?_⟩
  obtain ⟨kind, wf⟩ := source
  cases wf with
  | block kinds parts =>
    obtain ⟨named', ss'⟩ := h.keeps named carries fun t ht => ⟨kinds t ht, parts t ht⟩
    exact ⟨named', ⟨rfl, .block (fun t ht => (ss' t ht).1) fun t ht => (ss' t ht).2⟩, rfl⟩

theorem returnStatement (h : KeepsForm n checked s (.returned l argument t') s') :
    KeepsForm n checked s (.statement (.node l (.returnStatement argument)) t') s' := by
  refine ⟨.returnStatement h.walks, fun named carries source => ?_⟩
  obtain ⟨kind, wf⟩ := source
  cases wf with
  | returnStatement kind part' =>
    obtain ⟨named', t'⟩ := h.keeps named carries fun hn => ⟨kind hn, part' hn⟩
    exact ⟨named', t', isLoop_of_returned h.walks⟩

/-- A declaration becomes one assignment for each declarator. -/
theorem variableDeclaration (h : KeepsForm n checked s (.declarators ds es) s') :
    KeepsForm n checked s
      (.statement (.node l (.variableDeclaration (.tuple ds) (.text Tree.varKind)))
        (.node l (.expressionStatement (Tree.new (.sequence (.tuple es))))))
      (s'.tally (Stats.addVars es.length)) := by
  refine ⟨.variableDeclaration h.walks, fun named carries source => ?_⟩
  obtain ⟨kind, wf⟩ := source
  cases wf with
  | variableDeclaration some kinds parts =>
    obtain ⟨named', es', some'⟩ := h.keeps named carries fun d hd => ⟨kinds d hd, parts d hd⟩
    exact ⟨named', ⟨rfl, .expressionStatement rfl (.sequence (some' some)
      (fun e he => (es' e he).1) fun e he => (es' e he).2)⟩, rfl⟩

theorem ifStatement (h₁ : KeepsForm n checked s (.expression test test') s1)
    (h₂ : KeepsForm n checked s1 (.statement consequent consequent') s2)
    (h₃ : KeepsForm n checked s2 (.optionalStatement alternate alternate') s') :
    KeepsForm n checked s
      (.statement (.node l (.ifStatement test consequent alternate))
        (.node l (.ifStatement test' consequent' alternate'))) s' := by
  refine ⟨.ifStatement h₁.walks h₂.walks h₃.walks, fun named carries source => ?_⟩
  obtain ⟨kind, wf⟩ := source
  cases wf with
  | ifStatement testKind testPart kind part elseKind elsePart =>
    have carries2 := carries.mono h₃.walks.leads.tail
    obtain ⟨named1, test', -⟩ :=
      h₁.keeps named (carries2.mono h₂.walks.leads.tail) ⟨testKind, testPart⟩
    obtain ⟨named2, a', -⟩ := h₂.keeps named1 carries2 ⟨kind, part⟩
    obtain ⟨named', b'⟩ := h₃.keeps named2 carries fun hn => ⟨elseKind hn, elsePart hn⟩
    exact ⟨named', ⟨rfl, .ifStatement test'.1 test'.2 a'.1 a'.2 (fun hn => (b' hn).1)
      fun hn => (b' hn).2⟩, rfl⟩

/-- A `for` loop: its four parts are walked in order, and only the body is in the loop. -/
theorem forStatement (h₁ : KeepsForm n checked s (.loopStart init init') s1)
    (h₂ : KeepsForm n checked s1 (.optional test test') s2)
    (h₃ : KeepsForm n checked s2 (.optional step step') s3)
    (h₄ : KeepsForm n checked s3 (.statement body body') s') :
    KeepsForm n checked s
      (.statement (.node l (.forStatement init test step body))
        (.node l (.forStatement init' test' step' body'))) s' := by
  refine ⟨.forStatement h₁.walks h₂.walks h₃.walks h₄.walks, fun named carries source => ?_⟩
  obtain ⟨kind, wf⟩ := source
  cases wf with
  | forStatement initKind initPart testKind testPart stepKind stepPart kind part =>
    -- The mark is carried back from the end to each of the parts.
    have carries3 := carries.mono h₄.walks.leads.tail
    have carries2 := carries3.mono h₃.walks.leads.tail
    obtain ⟨named1, init'⟩ := h₁.keeps named (carries2.mono h₂.walks.leads.tail)
      fun hn => ⟨initKind hn, initPart hn⟩
    obtain ⟨named2, test'⟩ := h₂.keeps named1 carries2 fun hn => ⟨testKind hn, testPart hn⟩
    obtain ⟨named3, step'⟩ := h₃.keeps named2 carries3 fun hn => ⟨stepKind hn, stepPart hn⟩
    obtain ⟨named', body', -⟩ := h₄.keeps named3 carries.inBody ⟨kind, part⟩
    exact ⟨named', ⟨rfl, .forStatement (fun hn => (init' hn).1) (fun hn => (init' hn).2)
      (fun hn => (test' hn).1) (fun hn => (test' hn).2) (fun hn => (step' hn).1)
      (fun hn => (step' hn).2) body'.1 body'.2⟩, rfl⟩

/-- A loop that declares its variable assigns to it afterwards. -/
theorem forEachDeclared (free : n.reserves name = false)
    (h₁ : KeepsForm n checked ((s.rescope (·.addLocal name)).tally (Stats.addVars 1))
        (.expression right right') s1)
    (h₂ : KeepsForm n checked s1 (.statement body body') s') :
    KeepsForm n checked s
      (.statement
        (.node l (.forEach domain
          (.node ld (.variableDeclaration
            (.tuple [.node le (.variableDeclarator (.node li (.identifier (.text name))) .null)])
            (.text Tree.varKind))) right body))
        (.node l (.forEach domain (.node li (.identifier (.text name))) right' body'))) s' := by
  refine ⟨.forEachDeclared free h₁.walks h₂.walks, fun named carries source => ?_⟩
  obtain ⟨kind, wf⟩ := source
  cases wf with
  -- The declared name is spelled like an identifier, and it is what is left in place of the
  -- declaration.
  | forEachDeclared name rightKind rightPart kind part =>
    cases name with
    | mk _ spelled =>
      obtain ⟨named1, right', -⟩ := h₁.keeps (named.addLocal spelled)
        (carries.mono h₂.walks.leads.tail) ⟨rightKind, rightPart⟩
      obtain ⟨named', body', -⟩ := h₂.keeps named1 carries.inBody ⟨kind, part⟩
      refine ⟨named', ⟨by cases domain <;> rfl, ?_⟩, by cases domain <;> rfl⟩
      exact .forEach rfl (.identifier spelled) right'.1 right'.2 body'.1 body'.2
  | forEach target => cases target

theorem forEach (target : left.isAssignable = true)
    (h₁ : KeepsForm n checked s (.expression left left') s1)
    (h₂ : KeepsForm n checked s1 (.expression right right') s2)
    (h₃ : KeepsForm n checked s2 (.statement body body') s') :
    KeepsForm n checked s
      (.statement (.node l (.forEach domain left right body))
        (.node l (.forEach domain left' right' body'))) s' := by
  refine ⟨.forEach target h₁.walks h₂.walks h₃.walks, fun named carries source => ?_⟩
  obtain ⟨kind, wf⟩ := source
  cases wf with
  | forEachDeclared => cases h₁.walks
  | forEach target leftPart rightKind rightPart kind part =>
    -- The mark is carried back from the end to each of the parts.
    have carries2 := carries.mono h₃.walks.leads.tail
    obtain ⟨named1, left', target'⟩ := h₁.keeps named (carries2.mono h₂.walks.leads.tail)
      ⟨isExpression_of_isAssignable target, leftPart⟩
    obtain ⟨named2, right', -⟩ := h₂.keeps named1 carries2 ⟨rightKind, rightPart⟩
    obtain ⟨named', body', -⟩ := h₃.keeps named2 carries.inBody ⟨kind, part⟩
    refine ⟨named', ⟨by cases domain <;> rfl, ?_⟩, by cases domain <;> rfl⟩
    exact .forEach (target' target) left'.2 right'.1 right'.2 body'.1 body'.2

theorem whileStatement (h₁ : KeepsForm n checked s (.expression test test') s1)
    (h₂ : KeepsForm n checked s1 (.statement body body') s') :
    KeepsForm n checked s
      (.statement (.node l (.whileStatement test body)) (.node l (.whileStatement test' body'))) s' :=
        by
  refine ⟨.whileStatement h₁.walks h₂.walks, fun named carries source => ?_⟩
  obtain ⟨kind, wf⟩ := source
  cases wf with
  | whileStatement testKind testPart kind part =>
    obtain ⟨named1, test', -⟩ :=
      h₁.keeps named (carries.mono h₂.walks.leads.tail) ⟨testKind, testPart⟩
    obtain ⟨named', body', -⟩ := h₂.keeps named1 carries.inBody ⟨kind, part⟩
    exact ⟨named', ⟨rfl, .whileStatement test'.1 test'.2 body'.1 body'.2⟩, rfl⟩

theorem doWhileStatement (h₁ : KeepsForm n checked s (.statement body body') s1)
    (h₂ : KeepsForm n checked s1 (.expression test test') s') :
    KeepsForm n checked s
      (.statement (.node l (.doWhileStatement body test)) (.node l (.doWhileStatement body' test')))
      s' := by
  refine ⟨.doWhileStatement h₁.walks h₂.walks, fun named carries source => ?_⟩
  obtain ⟨kind, wf⟩ := source
  cases wf with
  | doWhileStatement testKind testPart kind part =>
    obtain ⟨named1, body', -⟩ := h₁.keeps named (carries.mono h₂.walks.leads.tail).inBody ⟨kind, part⟩
    obtain ⟨named', test', -⟩ := h₂.keeps named1 carries ⟨testKind, testPart⟩
    exact ⟨named', ⟨rfl, .doWhileStatement test'.1 test'.2 body'.1 body'.2⟩, rfl⟩

theorem expressionStatement (h : KeepsForm n checked s (.expression e e') s') :
    KeepsForm n checked s
      (.statement (.node l (.expressionStatement e)) (.node l (.expressionStatement e'))) s' := by
  refine ⟨.expressionStatement h.walks, fun named carries source => ?_⟩
  obtain ⟨kind, wf⟩ := source
  cases wf with
  | expressionStatement kind part =>
    obtain ⟨named', e', -⟩ := h.keeps named carries ⟨kind, part⟩
    exact ⟨named', ⟨rfl, .expressionStatement e'.1 e'.2⟩, rfl⟩

theorem emptyStatement :
    KeepsForm n checked s (.statement (.node l .emptyStatement) (.node l .emptyStatement)) s := by
  refine ⟨.emptyStatement, fun named carries source => ?_⟩
  exact ⟨named, ⟨rfl, .emptyStatement⟩, rfl⟩

theorem bareJump :
    KeepsForm n checked s
      (.statement (.node l (.jump kind .null)) (.node l (.jump kind .null))) s := by
  refine ⟨.bareJump, fun named carries source => ?_⟩
  obtain ⟨kind, wf⟩ := source
  cases wf with
  | bareJump inLoop => exact ⟨named, ⟨kind, .bareJump fun h => carries.inLoop (inLoop h)⟩, rfl⟩

theorem jump :
    KeepsForm n checked s
      (.statement (.node l (.jump kind (.node ln (.identifier (.text name)))))
        (.node l (.jump kind (.node ln (.identifier (.text name)))))) s := by
  refine ⟨.jump, fun named carries source => ?_⟩
  obtain ⟨kind, wf⟩ := source
  cases wf with
  | jump spelled reaches =>
    exact ⟨named, ⟨kind, .jump spelled fun h => carries.reaches (reaches h)⟩, rfl⟩

/-- A label that is not reserved stays in front of its statement, which is a loop if it was one. -/
theorem labeled (free : n.reserves name = false)
  (h : KeepsForm n checked s (.statement body body') s') :
    KeepsForm n checked s
      (.statement (.node l (.labeled (.node ln (.identifier (.text name))) body))
        (.node l (.labeled (.node ln (.identifier (.text name))) body'))) s' := by
  refine ⟨.labeled free h.walks, fun named carries source => ?_⟩
  obtain ⟨kind, wf⟩ := source
  cases wf with
  | labeled spelled fresh kind part =>
    obtain ⟨named', body', same⟩ := h.keeps named (carries.labeled free _) ⟨kind, part⟩
    -- The label of the loop is reserved, so that it is not hidden by this one.
    have ne : name ≠ n.loop := by
      rintro rfl
      simp [Naming.reserves] at free
    refine ⟨named', ⟨rfl, .labeled spelled (fun h => ?_) body'.1 (same ▸ body'.2)⟩, rfl⟩
    rw [carries.labels name ne]
    exact fresh h

theorem noAlternate : KeepsForm n checked s (.optionalStatement .null .null) s := by
  refine ⟨.noAlternate, fun named carries source => ?_⟩
  exact ⟨named, nofun⟩

theorem someAlternate (h : KeepsForm n checked s (.statement t t') s') :
    KeepsForm n checked s (.optionalStatement t t') s' := by
  refine ⟨.alternate h.walks, fun named carries source => ?_⟩
  obtain ⟨named', t', -⟩ := h.keeps named carries (source (isNull_of_walks h.walks))
  exact ⟨named', fun _ => t'⟩

theorem noStatements : KeepsForm n checked s (.statements [] []) s := by
  refine ⟨.noStatements, fun named carries source => ?_⟩
  exact ⟨named, nofun⟩

/-- Statements in a row, the first of them spliced in. -/
theorem moreStatements (h₁ : KeepsForm n checked s (.statement t t') s1)
    (spliced : t'.spliced = .ok ts') (h₂ : KeepsForm n checked s1 (.statements ts ts'') s') :
    KeepsForm n checked s (.statements (t :: ts) (ts' ++ ts'')) s' := by
  refine ⟨.moreStatements h₁.walks spliced h₂.walks, fun named carries source => ?_⟩
  obtain ⟨head, tail⟩ := List.forall_mem_cons.mp source
  obtain ⟨named1, t', -⟩ := h₁.keeps named (carries.mono h₂.walks.leads.tail) head
  obtain ⟨named', ts'⟩ := h₂.keeps named1 carries tail
  refine ⟨named', fun t ht => ?_⟩
  rcases List.mem_append.mp ht with ht | ht
  · exact isStatement_spliced t' spliced t ht
  · exact ts' t ht

/-- A directive is set aside, and the scope keeps it. -/
theorem startStrict (strict : t.isStrictDirective = true)
    (h : KeepsForm n checked (s.rescope fun c => { c with directive := some t })
      (.statements ts ts') s') :
    KeepsForm n checked s (.start (t :: ts) ts') s' := by
  refine ⟨.startStrict strict h.walks, fun named carries source => ?_⟩
  exact h.keeps (named.withDirective strict) carries (List.forall_mem_cons.mp source).2

theorem startPlain (plain : ∀ t ∈ ts.head?, t.isStrictDirective = false)
    (h : KeepsForm n checked s (.statements ts ts') s') :
    KeepsForm n checked s (.start ts ts') s' := by
  refine ⟨.startPlain plain h.walks, fun named carries source => ?_⟩
  exact h.keeps named carries source

theorem noStart : KeepsForm n checked s (.loopStart .null .null) s := by
  refine ⟨.noStart, fun named carries source => ?_⟩
  exact ⟨named, nofun⟩

theorem startExpression (h : KeepsForm n checked s (.expression e e') s') :
    KeepsForm n checked s (.loopStart e e') s' := by
  refine ⟨.startExpression h.walks, fun named carries source => ?_⟩
  obtain ⟨kind, wf⟩ := source (isNull_of_walks h.walks)
  obtain ⟨named', e', -⟩ := h.keeps named carries ⟨isExpression_of_walks h.walks, wf⟩
  exact ⟨named', fun _ => ⟨.inr e'.1, e'.2⟩⟩

/-- A loop that starts with a declaration starts with assignments afterwards. -/
theorem startDeclaration (h : KeepsForm n checked s (.declarators ds es) s') :
    KeepsForm n checked s
      (.loopStart (.node l (.variableDeclaration (.tuple ds) (.text Tree.varKind)))
        (Tree.new (.sequence (.tuple es))))
      (s'.tally (Stats.addVars es.length)) := by
  refine ⟨.startDeclaration h.walks, fun named carries source => ?_⟩
  obtain ⟨-, wf⟩ := source rfl
  cases wf with
  | variableDeclaration some kinds parts =>
    obtain ⟨named', es', some'⟩ := h.keeps named carries fun d hd => ⟨kinds d hd, parts d hd⟩
    exact ⟨named', fun _ => ⟨.inr rfl, .sequence (some' some) (fun e he => (es' e he).1)
      fun e he => (es' e he).2⟩⟩

theorem noInitial : KeepsForm n checked s (.initial .null .undefined) s := by
  refine ⟨.noInitial, fun named carries source => ?_⟩
  exact ⟨named, isExpression_undefined⟩

theorem initial (h : KeepsForm n checked s (.expression e e') s') :
    KeepsForm n checked s (.initial e e') s' := by
  refine ⟨.initial h.walks, fun named carries source => ?_⟩
  obtain ⟨named', e', -⟩ := h.keeps named carries (source (isNull_of_walks h.walks))
  exact ⟨named', e'⟩

theorem noDeclarators : KeepsForm n checked s (.declarators [] []) s := by
  refine ⟨.noDeclarators, fun named carries source => ?_⟩
  exact ⟨named, nofun, fun h => h⟩

/-- A declarator becomes an assignment to its name, which is declared in front. -/
theorem moreDeclarators (free : n.reserves name = false)
    (h₁ : KeepsForm n checked (s.rescope (·.addLocal name)) (.initial init init') s1)
    (h₂ : KeepsForm n checked s1 (.declarators ds es) s') :
    KeepsForm n checked s
      (.declarators (.node l (.variableDeclarator (.node li (.identifier (.text name))) init) :: ds)
        (.node l (.assignment (.text plainAssignment) (.node li (.identifier (.text name))) init')
          :: es)) s' := by
  refine ⟨.moreDeclarators free h₁.walks h₂.walks, fun named carries source => ?_⟩
  obtain ⟨⟨-, wf⟩, tail⟩ := List.forall_mem_cons.mp source
  cases wf with
  | variableDeclarator name kind part =>
    -- The declarator becomes an assignment to a name that is spelled like an identifier.
    cases name with
    | mk _ spelled =>
      obtain ⟨named1, init'⟩ := h₁.keeps (named.addLocal spelled) (carries.mono h₂.walks.leads.tail)
        fun hn => ⟨kind hn, part hn⟩
      obtain ⟨named', es', -⟩ := h₂.keeps named1 carries tail
      refine ⟨named', List.forall_mem_cons.mpr ⟨⟨rfl, ?_⟩, es'⟩, nofun⟩
      exact .assignment (by decide) rfl (.identifier spelled) init'.1 init'.2

/-- The body of a function: whether it became a loop is known once it was walked. -/
theorem wholeBody (hl : Text.isName n.loop = true)
    (h : KeepsForm n checked ⟨scope, s.stats⟩ (.start ss ss1) s1)
    (finished : finishBody n s1.scope ss1 = .ok ss') :
    KeepsForm n checked s (.body scope ss ss') ⟨s.scope, s1.stats.addFunction s1.scope⟩ := by
  refine ⟨.body h.walks finished, fun named carries source => ?_⟩
  obtain ⟨inner, statements⟩ := source
  obtain ⟨named', ts'⟩ := h.keeps inner (Carries.start _) statements
  exact ⟨named, isStatement_finishBody hl named' ts' finished⟩

end KeepsForm

/-- Every walk keeps pieces well-formed: each rule does, given that the walks of the parts do. -/
theorem Walks.keepsForm {s s' : State} {edit : Edit} (h : Walks n s edit s')
    (ht : Text.isName n.temporary = true) (hl : Text.isName n.loop = true) :
    KeepsForm n checked s edit s' := by
  -- By induction on the walk, one rule after the other.
  induction h with
  | identifier => exact .identifier
  | literal plain => exact .literal plain
  | array _ ih => exact .array ih
  | function starts _ ih => exact .function ht starts ih
  | call _ _ ih₁ ih₂ => exact .call ih₁ ih₂
  | member _ name ih => exact .member ih name
  | computedMember _ _ ih₁ ih₂ => exact .computedMember ih₁ ih₂
  | conditional _ _ _ ih₁ ih₂ ih₃ => exact .conditional ih₁ ih₂ ih₃
  | assignment _ _ ih₁ ih₂ => exact .assignment ih₁ ih₂
  | sequence _ ih => exact .sequence ih
  | binary _ _ ih₁ ih₂ => exact .binary ih₁ ih₂
  | logical _ _ ih₁ ih₂ => exact .logical ih₁ ih₂
  | unary _ ih => exact .unary ih
  | update _ ih => exact .update ih
  | absent => exact .absent
  | present _ ih => exact .present ih
  | noExpressions => exact .noExpressions
  | moreExpressions _ _ ih₁ ih₂ => exact .moreExpressions ih₁ ih₂
  | returnNothing => exact .returnNothing
  | returnCall own _ converted ih => exact .returnCall hl own ih converted
  | returnConditional _ _ _ ih₁ ih₂ ih₃ => exact .returnConditional ih₁ ih₂ ih₃
  | returnValue kept _ ih => exact .returnValue kept ih
  | branchValue single _ ih => exact .branchValue single ih
  | branchSequence _ ih => exact .branchSequence ih
  | branchLast _ spliced ih => exact .branchLast ih spliced
  | branchMore more _ _ ih₁ ih₂ => exact .branchMore more ih₁ ih₂
  | functionDeclaration starts _ ih => exact .functionDeclaration ht starts ih
  | block _ ih => exact .block ih
  | returnStatement _ ih => exact .returnStatement ih
  | variableDeclaration _ ih => exact .variableDeclaration ih
  | ifStatement _ _ _ ih₁ ih₂ ih₃ => exact .ifStatement ih₁ ih₂ ih₃
  | forStatement _ _ _ _ ih₁ ih₂ ih₃ ih₄ => exact .forStatement ih₁ ih₂ ih₃ ih₄
  | forEachDeclared free _ _ ih₁ ih₂ => exact .forEachDeclared free ih₁ ih₂
  | forEach target _ _ _ ih₁ ih₂ ih₃ => exact .forEach target ih₁ ih₂ ih₃
  | whileStatement _ _ ih₁ ih₂ => exact .whileStatement ih₁ ih₂
  | doWhileStatement _ _ ih₁ ih₂ => exact .doWhileStatement ih₁ ih₂
  | expressionStatement _ ih => exact .expressionStatement ih
  | emptyStatement => exact .emptyStatement
  | bareJump => exact .bareJump
  | jump => exact .jump
  | labeled free _ ih => exact .labeled free ih
  | noAlternate => exact .noAlternate
  | alternate _ ih => exact .someAlternate ih
  | noStatements => exact .noStatements
  | moreStatements _ spliced _ ih₁ ih₂ => exact .moreStatements ih₁ spliced ih₂
  | startStrict strict _ ih => exact .startStrict strict ih
  | startPlain plain _ ih => exact .startPlain plain ih
  | noStart => exact .noStart
  | startExpression _ ih => exact .startExpression ih
  | startDeclaration _ ih => exact .startDeclaration ih
  | noInitial => exact .noInitial
  | initial _ ih => exact .initial ih
  | noDeclarators => exact .noDeclarators
  | moreDeclarators free _ _ ih₁ ih₂ => exact .moreDeclarators free ih₁ ih₂
  | body _ finished ih => exact .wholeBody hl ih finished

/-- A walked piece is well-formed where its original was. -/
theorem Walks.wellFormed {s s' : State} {edit : Edit} (h : Walks n s edit s')
    (ht : Text.isName n.temporary = true) (hl : Text.isName n.loop = true) {c c' : Targets}
    (named : s.scope.Named) (carries : Carries n s'.scope.isTailRecursive c c')
    (source : edit.Source checked c) : s'.scope.Named ∧ edit.Target checked c' :=
  (h.keepsForm ht hl).keeps named carries source

/-! ## The whole tree -/

/-- Outside of all functions there is no function to call, so that nothing becomes a loop. -/
theorem Walks.carries_root {startsStrict : Bool} {s' : State} {edit : Edit}
    (h : Walks n { scope := { startsStrict } } edit s') :
    Carries n s'.scope.isTailRecursive {} {} := by
  cases tail : s'.scope.isTailRecursive with
  | false => exact Carries.start false
  | true =>
    rcases h.leads.own tail with h | h
    · cases h
    · exact (h rfl).elim

/-- Elimination keeps a whole tree well-formed. -/
theorem Eliminates.wellFormed {t t' : Tree} {stats : Stats} (h : Eliminates n t t' stats)
    (ht : Text.isName n.temporary = true) (hl : Text.isName n.loop = true)
    (wf : WellFormed checked {} t) : WellFormed checked {} t' := by
  -- By the form of the root, which starts in a scope without names.
  cases h with
  | expression kind part =>
    exact (part.wellFormed ht hl spelled_empty part.carries_root ⟨kind, wf⟩).2.1.2
  | statement kind part =>
    exact (part.wellFormed ht hl spelled_empty part.carries_root ⟨kind, wf⟩).2.1.2
  | declarator part =>
    cases wf with
    | variableDeclarator name kind init =>
      obtain ⟨-, init'⟩ := part.wellFormed ht hl spelled_empty part.carries_root
        fun hn => ⟨kind hn, init hn⟩
      exact .variableDeclarator name (fun hn => (init' hn).1) fun hn => (init' hn).2
  | program starts finished =>
    -- The statements are well-formed after the walk, and stay so when the body is finished.
    cases wf with
    | program kinds parts =>
      obtain ⟨named, ss1⟩ := starts.wellFormed ht hl spelled_empty
        (Carries.start _) fun t ht => ⟨kinds t ht, parts t ht⟩
      have ss' := isStatement_finishBody hl named ss1 finished
      exact .program (fun t ht => (ss' t ht).1) fun t ht => (ss' t ht).2

/-- Elimination keeps validity: a tree with Boolean flags that the check accepts is accepted after
elimination, whatever its root is and whatever names generated code uses. The result is well-formed
by the rules: every jump back has the labeled loop around its own body as its target, no label is
declared within itself, a `for` starts with an expression or a declaration, and no declaration or
sequence is empty. -/
theorem eliminateTailCalls_validate {t t' : Tree} {count : Nat} {stats : Stats}
    (valid : t.validate = .ok count) (flags : t.FlagsAreBoolean)
    (temporary : Text.isName n.temporary = true) (loop : Text.isName n.loop = true)
    (eliminated : t.eliminateTailCalls n = .ok (t', stats)) :
    (∃ count', t'.validate = .ok count') ∧ WellFormed true {} t' := by
  have wf := wellFormed_of_validate valid flags
  have wf' := (eliminates_of_ok wf eliminated).wellFormed temporary loop wf
  exact ⟨wf'.validate, wf'⟩

/-- The function `f` of `x` that does nothing but to return a call of itself with `x`. -/
def returnsItself : Tree :=
  Tree.new (.function .declaration (.identifier "f") (.tuple [.identifier "x"])
    (.block [Tree.new (.returnStatement
      (Tree.new (.call (.identifier "f") (.tuple [.identifier "x"]))))]))

/-- The function that returns a call of itself is valid and becomes a loop that is valid. -/
theorem eliminateTailCalls_validate_returnsItself :
    ∃ t' stats, returnsItself.eliminateTailCalls {} = .ok (t', stats) ∧ stats.calls = 1 ∧
      (∃ count', t'.validate = .ok count') ∧ WellFormed true {} t' := by
  refine ⟨_, _, rfl, rfl, ?_⟩
  have flags : returnsItself.FlagsAreBoolean := by decide
  exact eliminateTailCalls_validate (t := returnsItself) (n := {}) rfl flags (by decide)
    (by decide) rfl

end TailLoop.Elimination
