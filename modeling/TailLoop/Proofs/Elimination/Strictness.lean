import TailLoop.Proofs.Elimination.Functions

/-!
# Strictness before and after elimination

A program or function is strict when its first statement is the directive. Elimination keeps the
directive first, so that what was strict stays strict. It also replaces blocks in a row by their
statements, and an empty one by nothing; so a directive that comes first only once the blocks at the
start are opened (`Tree.hidesDirective`) can become the first statement, and then makes code strict
that was not. Nothing else changes strictness (`eliminateTailCalls_isStrict`).

What decides is the first statement of a walked row. It comes from the first statement of the row
with all blocks opened (`Walks.first`).
-/

namespace TailLoop

namespace Tree

/-- The statements of a program or of the body of a function. -/
def statements : Tree → List Tree
  | .node _ (.program (.tuple ss)) => ss
  | .node _ (.function _ _ _ (.node _ (.block (.tuple ss)))) => ss
  | _ => []

/-- Whether the first one of some statements is the directive that makes code strict. -/
def startStrict (ss : List Tree) : Bool := ss.head?.any isStrictDirective

/-- Whether a row of statements starts with the directive. -/
theorem startsStrict_tuple (ss : List Tree) :
    (Tree.tuple ss).startsStrict = .ok (startStrict ss) := by
  cases ss <;> rfl

/-- Whether a program or function starts with the directive that makes it strict. -/
def isStrict (t : Tree) : Bool := startStrict t.statements

/-- The rules that open blocks: a block gives what its statements give, anything else itself. -/
def openRules : Rules (List Tree) where
  atom t := [t]
  tuple := List.flatten
  list t _ := [t]
  dict t _ := [t]
  node t shape :=
    match shape with
    | .block body => body
    | _ => [t]

/-- The statements that a statement stands for when all blocks are opened. -/
def opened (t : Tree) : List Tree := fold openRules t

/-- Whether the directive comes first only when the blocks at the start are opened. -/
def hidesDirective (t : Tree) : Bool :=
  !t.isStrict && startStrict (t.statements.flatMap opened)

/-- A block is opened to what its statements are opened to. -/
theorem opened_block (l : Option Location) (ss : List Tree) :
    (Tree.node l (.block (.tuple ss))).opened = ss.flatMap opened := by
  have row : (Tree.tuple ss).opened = ss.flatMap opened := by
    rw [opened, fold, foldItems_eq_map, List.flatMap_def]
    rfl
  rw [← row, opened, fold_node]
  rfl

/-- What is no block is opened to itself. -/
theorem opened_node {l : Option Location} {shape : Shape Tree}
    (h : shape.kind ≠ .blockStatement) : (Tree.node l shape).opened = [.node l shape] := by
  rw [opened, fold_node]
  cases shape with
  | block => exact (h rfl).elim
  | _ => rfl

end Tree

namespace Elimination

open Tree Validity

/-! ## Statements that do nothing -/

/-- Where no locals are known nothing is a reset. -/
theorem isReset_nil (e : Tree) : e.isReset [] ≠ .ok true := by
  unfold Tree.isReset
  split
  · rename_i name value
    split
    · cases name.key with
      | error e => exact nofun
      | ok x => exact nofun
    · exact nofun
  · exact nofun

/-- Where no locals are known only the empty sequence is one of resets. -/
theorem areResets_nil {es : List Tree} (h : Tree.areResets [] es = .ok true) : es = [] := by
  cases es with
  | nil => rfl
  | cons e es =>
    rw [Tree.areResets] at h
    obtain ⟨reset, first, rest⟩ := bind_ok.mp h
    cases reset with
    | true => exact (isReset_nil e first).elim
    | false => cases rest

/-- A statement that is no valid one: an empty sequence, or an empty declaration. -/
def Void (t : Tree) : Prop := ∀ checked c, ¬ WellFormed checked c t

/-! ## The first statement of a row -/

/-- The statements that come of some statements whose blocks are opened: there are some just if there
were some, the first one is the directive only if it was, and it resets nothing only if it was
void. -/
structure First (xs us : List Tree) : Prop where
  some : us = [] ↔ xs = []
  strict : startStrict us = true → startStrict xs = true
  reset : ∀ u ∈ us.head?, u.isResetStatement [] = .ok true → ∃ x ∈ xs.head?, Void x

/-- What comes first in two rows. -/
theorem First.append {xs ys us vs : List Tree} (h : First xs us) (h' : First ys vs) :
    First (xs ++ ys) (us ++ vs) := by
  cases us with
  | nil =>
    rw [h.some.mp rfl]
    exact h'
  | cons u us =>
    cases xs with
    | nil => cases h.some.mpr rfl
    | cons x xs => exact ⟨⟨nofun, nofun⟩, h.strict, h.reset⟩

/-- One statement in the place of another. -/
theorem First.single {x u : Tree} (strict : u.isStrictDirective = true → x.isStrictDirective = true)
    (reset : u.isResetStatement [] = .ok true → Void x) : First [x] [u] := by
  refine ⟨⟨nofun, nofun⟩, strict, ?_⟩
  rintro u' ⟨⟩ h
  exact ⟨x, rfl, reset h⟩

/-- Statements that start with neither the directive nor a reset, in the place of one. -/
theorem First.other {x u : Tree} {us : List Tree} (strict : u.isStrictDirective = false)
    (reset : u.isResetStatement [] ≠ .ok true) : First [x] (u :: us) := by
  refine ⟨⟨nofun, nofun⟩, ?_, ?_⟩
  · intro h
    cases strict.symm.trans h
  · rintro u' ⟨⟩ h
    exact (reset h).elim

/-- A walked expression comes first as the expression did. -/
theorem First.expression {n : Naming} {s s' : State} {l : Option Location} {e e' : Tree}
    (h : Walks n s (.expression e e') s') :
    First [.node l (.expressionStatement e)] [.node l (.expressionStatement e')] := by
  refine .single ?_ ?_
  -- A strict directive is a literal, which the walk leaves as it is.
  · intro strict
    obtain ⟨l', le, same⟩ := eq_strictDirective strict
    cases same
    cases h
    exact strict
  -- A reset without names is an empty sequence, which is not well-formed.
  · intro reset
    unfold Tree.isResetStatement at reset
    split at reset
    · rename_i same
      cases same
      cases h with
      | sequence parts =>
        cases areResets_nil reset
        cases parts
        intro checked c wf
        cases wf with
        | expressionStatement kind part =>
          cases part with
          | sequence some => exact some rfl
    · exact (isReset_nil _ reset).elim
    · cases reset

/-- The assignments of a declaration come first as the declaration did, which is never void. -/
theorem First.declaration {n : Naming} {s s' : State} {l : Option Location} {ds es : List Tree}
    (h : Walks n s (.declarators ds es) s') :
    First [.node l (.variableDeclaration (.tuple ds) (.text varKind))]
      [.node l (.expressionStatement (Tree.new (.sequence (.tuple es))))] := by
  refine .single nofun ?_
  intro reset
  cases areResets_nil reset
  cases h
  intro checked c wf
  cases wf with
  | variableDeclaration some => exact some rfl

/-- What takes the place of a tail call starts with an assignment or the jump back. -/
theorem First.converted (x : Tree) (n : Naming) (s : Scope) (args : List Tree) :
    First [x] (callAssignments s args ++ [jumpBack n]) := by
  -- Assignments are no directives, and they set a name that is not among none.
  have assignments : ∀ t ∈ callAssignments s args,
      t.isStrictDirective = false ∧ t.isResetStatement [] ≠ .ok true := by
    have all (names : List Text) (values : List Tree) : ∀ t ∈ assignAll names values,
        t.isStrictDirective = false ∧ t.isResetStatement [] ≠ .ok true := by
      intro t ht
      obtain ⟨i, hi, rfl⟩ := List.mem_mapIdx.mp ht
      exact ⟨rfl, fun reset => isReset_nil (assign _ _) reset⟩
    unfold callAssignments
    split
    · exact List.forall_mem_append.mpr ⟨all _ _, all _ _⟩
    · exact all _ _
  revert assignments
  -- If nothing is assigned, the jump stands first.
  cases callAssignments s args with
  | nil => exact fun _ => .other rfl nofun
  | cons t ts =>
    intro assignments
    obtain ⟨strict, reset⟩ := assignments t List.mem_cons_self
    exact .other strict reset

/-- What an edit puts at the start of a row. -/
def Edit.First : Edit → Prop
  | .statement t t' => ∀ us, t'.spliced = .ok us → Elimination.First t.opened us
  | .returned _ _ t' => ∀ us, t'.spliced = .ok us → ∀ x, Elimination.First [x] us
  | .statements ts ts' => Elimination.First (ts.flatMap opened) ts'
  | _ => True

/-- Statements of other kinds than expressions start a row with themselves. -/
theorem first_spliced {t t' : Tree} {x : Tree} (block : t'.hasKind .blockStatement = false)
    (h : Elimination.First [x] [t']) (same : t.opened = [x]) :
    ∀ us, t'.spliced = .ok us → Elimination.First t.opened us := by
  intro us spliced
  rw [spliced_of_hasKind block] at spliced
  cases spliced
  rw [same]
  exact h

/-- A walk of statements keeps what comes first when all blocks are opened. -/
theorem Walks.first {n : Naming} {s s' : State} {edit : Edit} (h : Walks n s edit s') :
    edit.First := by
  -- By induction on the walk: what a statement begins with after it was spliced was its first
  -- statement, opened.
  induction h with
  | returnNothing | returnConditional | returnValue =>
    intro us spliced x
    cases spliced
    exact .other rfl nofun
  -- The first statement is an assignment or the jump.
  | returnCall own parts converted ih =>
    obtain ⟨-, rfl, -⟩ := convertCall_ok.mp converted
    intro us spliced x
    cases spliced
    exact .converted x n _ _
  | block parts ih =>
    intro us spliced
    cases spliced
    rw [opened_block]
    exact ih
  | returnStatement part ih =>
    intro us spliced
    rw [opened_node]
    · exact ih us spliced _
    · nofun
  | variableDeclaration parts ih =>
    exact first_spliced rfl (.declaration parts) (opened_node nofun)
  | expressionStatement part ih => exact first_spliced rfl (.expression part) (opened_node nofun)
  | functionDeclaration | ifStatement | forStatement | whileStatement | doWhileStatement
  | emptyStatement | labeled => exact first_spliced rfl (.other rfl nofun) (opened_node nofun)
  | @bareJump _ _ kind | @jump _ _ kind =>
    cases kind <;> exact first_spliced rfl (.other rfl nofun) (opened_node nofun)
  | @forEach _ _ _ _ _ domain =>
    cases domain <;> exact first_spliced rfl (.other rfl nofun) (opened_node nofun)
  | @forEachDeclared _ _ _ _ domain =>
    cases domain <;> exact first_spliced rfl (.other rfl nofun) (opened_node nofun)
  | noStatements => exact ⟨⟨fun _ => rfl, fun _ => rfl⟩, nofun, nofun⟩
  -- Only the first statement counts, unless nothing is left of it.
  | moreStatements part spliced parts ih ihs => exact (ih _ spliced).append ihs
  | _ => trivial

/-! ## Bodies -/

/-- Statements of a well-formed statement whose blocks are opened are well-formed. -/
theorem wellFormed_opened {checked : Bool} {c : Targets} {t : Tree} (h : WellFormed checked c t) :
    ∀ x ∈ t.opened, x = t ∨ ∃ c', WellFormed checked c' x := by
  -- Blocks are opened; any other statement is left closed.
  induction h with
  | @block c l ss kinds parts ih =>
    intro x hx
    rw [opened_block] at hx
    obtain ⟨u, hu, hx⟩ := List.mem_flatMap.mp hx
    rcases ih u hu x hx with rfl | wf
    · exact .inr ⟨c, parts x hu⟩
    · exact .inr wf
  | @function _ _ form =>
    cases form <;> exact fun x hx => .inl (List.mem_singleton.mp hx)
  | @forEach _ _ domain => cases domain <;> exact fun x hx => .inl (List.mem_singleton.mp hx)
  | @forEachDeclared _ _ domain =>
    cases domain <;> exact fun x hx => .inl (List.mem_singleton.mp hx)
  | @jump _ _ kind => cases kind <;> exact fun x hx => .inl (List.mem_singleton.mp hx)
  | @bareJump _ _ kind => cases kind <;> exact fun x hx => .inl (List.mem_singleton.mp hx)
  | _ => exact fun x hx => .inl (List.mem_singleton.mp hx)

/-- Without variables to declare, nothing is dropped from the start of a well-formed body. -/
theorem dropResets_nil {xs ts rest : List Tree} (first : First xs ts) (valid : ∀ x ∈ xs, ¬ Void x)
    (h : dropResets [] ts = .ok rest) : rest = ts := by
  cases ts with
  | nil =>
    cases h
    rfl
  | cons t ts =>
    rw [dropResets] at h
    obtain ⟨reset, found, more⟩ := bind_ok.mp h
    cases reset with
    | true =>
      obtain ⟨x, hx, void⟩ := first.reset t rfl found
      exact (valid x (List.mem_of_mem_head? hx) void).elim
    | false =>
      cases more
      rfl

/-- Variables that are declared come before everything else. -/
theorem not_startStrict_declareAll {names : List Text} (h : names ≠ []) (ts : List Tree) :
    startStrict (declareAll names ++ ts) = false := by
  cases names with
  | nil => exact (h rfl).elim
  | cons x xs => rfl

/-- A loop and the temporaries before it start with a declaration or a label. -/
theorem not_startStrict_loop (n : Naming) (used locals : List Text) (ts : List Tree) :
    startStrict (declareEach used [] ++ [loopAround n locals ts]) = false := by
  cases used with
  | nil => rfl
  | cons x xs =>
    rw [declareEach, List.mapIdx_cons]
    rfl

/-- A finished body without directive starts strict only if its statements do. -/
theorem startStrict_of_finishBody {n : Naming} {s : Scope} {xs ts ts' : List Tree}
    (first : First xs ts) (valid : ∀ x ∈ xs, ¬ Void x) (none : s.directive = none)
    (h : finishBody n s ts = .ok ts') (strict : startStrict ts' = true) :
    startStrict xs = true := by
  -- A declaration in front would hide the directive.
  have noLocals : s.locals = [] := by
    by_contra some
    -- In front of the loop there is no directive, as its label comes first.
    have starts (rest : List Tree) := not_startStrict_declareAll some rest
    cases tail : s.isTailRecursive with
    | true =>
      rw [finishBody_loop tail, none] at h
      cases h
      cases strict.symm.trans (starts _)
    | false =>
      obtain ⟨rest, -, rfl⟩ := (finishBody_plain tail).mp h
      rw [none] at strict
      cases strict.symm.trans (starts rest)
  cases tail : s.isTailRecursive with
  | true =>
    rw [finishBody_loop tail, none, noLocals] at h
    cases h
    cases strict.symm.trans (not_startStrict_loop n s.used [] ts)
  | false =>
    -- Nothing is dropped from the body, so that its own start is strict.
    obtain ⟨rest, dropped, rfl⟩ := (finishBody_plain tail).mp h
    rw [noLocals] at dropped
    cases dropResets_nil first valid dropped
    rw [none, noLocals] at strict
    exact first.strict strict

/-- A finished body with a directive starts with it. -/
theorem head?_of_finishBody {n : Naming} {s : Scope} {ts ts' : List Tree} {t : Tree}
    (noted : s.directive = some t) (h : finishBody n s ts = .ok ts') : ts'.head? = some t := by
  cases tail : s.isTailRecursive with
  | true =>
    rw [finishBody_loop tail, noted] at h
    cases h
    rfl
  | false =>
    obtain ⟨rest, -, rfl⟩ := (finishBody_plain tail).mp h
    rw [noted]
    rfl

/-- Strictness of the statements of a body and of what takes their place. -/
theorem Finishes.startStrict {n : Naming} {R : Tree → Tree → Prop} {a : Scope} {ss ss' : List Tree}
    (h : Finishes n R a ss ss') (fresh : a.directive = none)
    (valid : ∀ x ∈ ss.flatMap opened, ¬ Void x) :
    (Tree.startStrict ss = true → Tree.startStrict ss' = true) ∧
      (Tree.startStrict ss' = true →
        Tree.startStrict ss = true ∨ Tree.startStrict (ss.flatMap opened) = true) := by
  obtain @⟨stats, s1, ss1, starts, tracks, finished⟩ := h
  have directive := directive_of_start starts fresh
  cases starts with
  -- The directive was put aside, and it is put in front again.
  | @startStrict _ _ t ts _ strict parts =>
    have noted : s1.scope.directive = some t := by
      rw [directive]
      simp [Option.filter, strict]
    have kept : Tree.startStrict ss' = true := by
      rw [Tree.startStrict, head?_of_finishBody noted finished]
      exact strict
    exact ⟨fun _ => kept, fun _ => .inl strict⟩
  -- The body had no directive: if it has one now, blocks were opened in front of it.
  | startPlain plain parts =>
    have noted : s1.scope.directive = none := by
      rw [directive]
      cases ss with
      | nil => rfl
      | cons t ts => simp [Option.filter, plain t rfl]
    refine ⟨fun strict => ?_, fun strict => .inr ?_⟩
    · cases ss with
      | nil => cases strict
      | cons t ts => cases (plain t rfl).symm.trans strict
    · exact startStrict_of_finishBody parts.first valid noted finished strict

/-- What elimination does to the strictness of a program or function. -/
def KeepsStrictness (f f' : Tree) : Prop :=
  (∃ checked c, WellFormed checked c f) → f.hidesDirective = false → f'.isStrict = f.isStrict

/-- A body without a hidden directive is finished as strict as it was. -/
theorem keepsStrictness {n : Naming} {a : Scope} {f f' : Tree}
    (h : Finishes n KeepsStrictness a f.statements f'.statements) (fresh : a.directive = none)
    (statements : ∀ {checked c}, WellFormed checked c f →
      ∀ s ∈ f.statements, ∃ c', WellFormed checked c' s) : KeepsStrictness f f' := by
  rintro ⟨checked, c, wf⟩ open_
  -- No statement of the body, and none in its blocks, is void.
  have valid : ∀ x ∈ f.statements.flatMap opened, ¬ Void x := by
    intro x hx void
    obtain ⟨s, hs, hx⟩ := List.mem_flatMap.mp hx
    obtain ⟨c', ws⟩ := statements wf s hs
    rcases wellFormed_opened ws x hx with rfl | ⟨c'', wx⟩
    · exact void checked c' ws
    · exact void checked c'' wx
  obtain ⟨stays, comes⟩ := h.startStrict fresh valid
  rw [hidesDirective, Bool.and_eq_false_iff] at open_
  unfold isStrict at open_ ⊢
  -- Strictness can only be gained by opening blocks, which the hypothesis excludes.
  cases strict : Tree.startStrict f.statements with
  | true => exact stays strict
  | false =>
    rw [Bool.eq_false_iff]
    intro strict'
    rcases comes strict' with h | h
    · cases strict.symm.trans h
    · rcases open_ with open_ | open_
      · rw [strict] at open_
        cases open_
      · cases open_.symm.trans h

/-- Each function is as strict as it was. -/
theorem keepsStrictness_functions {n : Naming} : FollowsFromWalks n KeepsStrictness :=
  fun starts inner => keepsStrictness inner starts.directive fun wf => by
    cases wf with
    | function _ _ _ _ parts => exact fun s hs => ⟨_, parts s hs⟩

/-- Elimination keeps the strictness of a program and of every function in it, at any depth, unless
the directive comes first only once blocks at the start are opened. -/
theorem eliminateTailCalls_isStrict {n : Naming} {checked : Bool} {c : Targets}
    {l : Option Location} {ss : List Tree} {t' : Tree} {stats : Stats}
    (wf : WellFormed checked c (.node l (.program (.tuple ss))))
    (eliminated : (Tree.node l (.program (.tuple ss))).eliminateTailCalls n = .ok (t', stats)) :
    List.Forall₂ (fun f f' => f.hidesDirective = false → f'.isStrict = f.isStrict)
      (Tree.node l (.program (.tuple ss))).scopes t'.scopes := by
  have related := (eliminates_of_ok wf eliminated).scopes keepsStrictness_functions
    (fun starts inner => keepsStrictness inner starts.directive fun wf => by
      cases wf with
      | program _ parts => exact fun s hs => ⟨_, parts s hs⟩)
  have valid : ∀ f ∈ (Tree.node l (.program (.tuple ss))).scopes, ∃ c, WellFormed checked c f :=
    wf.scopes
  refine ((List.forall₂_and_left _ _).mpr ⟨valid, related⟩).imp ?_
  rintro f f' ⟨⟨c, wf⟩, keeps⟩
  exact keeps ⟨checked, c, wf⟩

/-- The directive as a statement. -/
def directive : Tree := Tree.new (.expressionStatement (Tree.new (.literal (.text strictDirective))))

/-- A program of one function `f` of `x` with the given statements. -/
def programOf (statements : List Tree) : Tree :=
  Tree.new (.program (.tuple [Tree.new (.function .declaration (.identifier "f")
    (.tuple [.identifier "x"]) (.block statements))]))

/-- A strict function that returns a call of itself becomes a strict loop, in a program that is not
strict before or after. -/
theorem eliminateTailCalls_isStrict_returnsItself :
    ∃ t' stats,
      (programOf [directive, Tree.new (.returnStatement
        (Tree.new (.call (.identifier "f") (.tuple [.identifier "x"]))))]).eliminateTailCalls {} =
          .ok (t', stats) ∧ stats.calls = 1 ∧ t'.scopes.map isStrict = [false, true] ∧
      List.Forall₂ (fun f f' => f.hidesDirective = false → f'.isStrict = f.isStrict)
        (programOf [directive, Tree.new (.returnStatement
          (Tree.new (.call (.identifier "f") (.tuple [.identifier "x"]))))]).scopes t'.scopes := by
  refine ⟨_, _, rfl, rfl, rfl, ?_⟩
  exact eliminateTailCalls_isStrict (n := {}) (wellFormed_of_validate rfl (by decide)) rfl

/-- A function whose directive comes after an empty block is not strict, but it becomes so. -/
theorem eliminateTailCalls_isStrict_afterBlock :
    ¬ ∀ (n : Naming) (t t' : Tree) (stats : Stats), WellFormed true {} t →
      t.hasKind .program = true → t.eliminateTailCalls n = .ok (t', stats) →
      List.Forall₂ (fun f f' => f'.isStrict = f.isStrict) t.scopes t'.scopes := by
  intro claim
  let t := programOf [.block [], directive, Tree.new (.returnStatement (.identifier "x"))]
  have kept := claim {} t _ _ (wellFormed_of_validate rfl (by decide)) rfl rfl
  cases kept with
  | cons _ rest =>
    cases rest with
    | cons same _ => cases same

end Elimination

end TailLoop
