import TailLoop.Proofs.Elimination.Declarations

/-!
# Conversions and their record

Elimination leaves nothing to convert: no `return` has a conditional for its value, and no function
returns a call of itself (`Converts`). A function becomes a loop just where it returned such a call.
The record of what was done tells how the trees before and after differ: each converted call adds a
jump to the label of generated loops, each recorded function such a label, and each recorded variable
was a declarator (`Tallies`).
-/

namespace TailLoop.Elimination

open Tree Validity

/-- Whether a node is a `return` of a conditional. -/
def returnsConditional : Tree → Bool
  | .node _ (.returnStatement e) => e.hasKind .conditionalExpression
  | _ => false

/-- A `return` of a conditional is not quiet. -/
theorem isQuiet_of_returnsConditional {u : Tree} (h : returnsConditional u = true) :
    u.isQuiet = false := by
  unfold returnsConditional at h
  split at h
  · rfl
  · cases h

/-- Whether a statement is an endless loop that carries the given label. -/
def isEndlessLoop (name : Text) : Tree → Bool
  | .node _ (.labeled label (.node _ (.whileStatement (.node _ (.literal (.bool true))) _))) =>
    isIdentifier name label
  | _ => false

/-! ## The record -/

/-- What a walk records agrees with the nodes before and after: the jumps to the label of generated
loops are more by the calls that were converted, each such label belongs to a recorded function, and
the recorded variables were declarators. No `return` of a conditional is left. -/
structure Tallies (n : Naming) (s s' : Stats) (xs ys : List Tree) : Prop where
  calls : ys.countP (continuesAt n.loop) + s.calls = xs.countP (continuesAt n.loop) + s'.calls
  functions : ys.countP (isLabeledBy n.loop) + s.functions.length = s'.functions.length
  vars : xs.countP isDeclarator + s.vars = s'.vars
  unconditional : ∀ y ∈ ys, returnsConditional y = false

namespace Tallies

variable {n : Naming} {s s1 s' : Stats} {x y : Tree} {xs ys xs' ys' : List Tree}

/-- Nothing is recorded for no statements. -/
theorem nil : Tallies n s s [] [] := ⟨rfl, Nat.zero_add _, Nat.zero_add _, nofun⟩

/-- What is recorded for two rows, one after the other. -/
theorem append (h1 : Tallies n s s1 xs ys) (h2 : Tallies n s1 s' xs' ys') :
    Tallies n s s' (xs ++ xs') (ys ++ ys') where
  calls := by
    have first := h1.calls
    have second := h2.calls
    rw [List.countP_append, List.countP_append]
    omega
  functions := by
    have first := h1.functions
    have second := h2.functions
    rw [List.countP_append]
    omega
  vars := by
    have first := h1.vars
    have second := h2.vars
    rw [List.countP_append]
    omega
  -- The sums over both parts are the sums of the parts.
  unconditional := List.forall_mem_append.mpr ⟨h1.unconditional, h2.unconditional⟩

/-- A node that goes. -/
theorem gone (jump : continuesAt n.loop x = false) (declarator : x.isDeclarator = false) :
    Tallies n s s [x] [] where
  calls := by rw [List.countP_singleton, jump]; rfl
  functions := Nat.zero_add _
  vars := by rw [List.countP_singleton, declarator]; exact Nat.zero_add _
  unconditional := nofun

/-- A `return` that comes. -/
theorem returned {l : Option Location} {e : Tree} (kind : e.hasKind .conditionalExpression = false) :
    Tallies n s s [] [.node l (.returnStatement e)] :=
  ⟨rfl, Nat.zero_add _, Nat.zero_add _, List.forall_mem_singleton.mpr kind⟩

/-- A node that takes the place of another. -/
theorem replaced (jump : continuesAt n.loop y = continuesAt n.loop x)
    (unlabeled : isLabeledBy n.loop y = false) (declarator : x.isDeclarator = false)
    (unconditional : returnsConditional y = false) : Tallies n s s [x] [y] where
  calls := by rw [List.countP_singleton, List.countP_singleton, jump]
  functions := by rw [List.countP_singleton, unlabeled]; exact Nat.zero_add _
  vars := by rw [List.countP_singleton, declarator]; exact Nat.zero_add _
  unconditional := List.forall_mem_singleton.mpr unconditional

end Tallies

/-- A function is recorded by its name if it became a loop. -/
theorem functions_addFunction (a : Scope) (t : Stats) : (t.addFunction a).functions =
    t.functions ++ if a.isTailRecursive then a.name.toList else [] := by
  unfold Stats.addFunction
  split
  · rfl
  · exact (List.append_nil _).symm

/-- Recording a function counts no variables. -/
theorem vars_addFunction (a : Scope) (t : Stats) : (t.addFunction a).vars = t.vars := by
  unfold Stats.addFunction
  split <;> rfl

/-- The record of a body, when it is finished: it has one function more if the body became a loop. -/
theorem Tallies.finished {n : Naming} {a : Scope} {ps : List Tree} {stats : Stats}
    {ss ts ts' : List Tree} {s : State} (starts : a.Starts n ps)
    (walked : Walks n ⟨a, stats⟩ (.start ss ts) s)
    (h : Tallies n stats s.stats (ss.flatMap marks) (ts.flatMap marks))
    (finished : finishBody n s.scope ts = .ok ts') :
    Tallies n stats (s.stats.addFunction s.scope) (ss.flatMap marks) (ts'.flatMap marks) := by
  -- Of what finishing adds, only the loop counts.
  let loop := if s.scope.isTailRecursive then [loopAround n s.scope.locals ts] else []
  have filtered {p : Tree → Bool} (declaration : ∀ ds, p (Tree.declaration ds) = false)
      (declarator : ∀ x, p (Tree.declarator x .null) = false)
      (returned : p (Tree.new (.returnStatement .null)) = false) :
      (ts'.flatMap marks).filter p = loop.filter p ++ (ts.flatMap marks).filter p :=
    lists_marks.filter_finishBody (strict_of_start walked starts.directive) walked.plain
      (ends_of_start starts walked).idle finished declaration declarator returned
  have counted {p : Tree → Bool} (declaration : ∀ ds, p (Tree.declaration ds) = false)
      (declarator : ∀ x, p (Tree.declarator x .null) = false)
      (returned : p (Tree.new (.returnStatement .null)) = false) :
      (ts'.flatMap marks).countP p = loop.countP p + (ts.flatMap marks).countP p := by
    rw [List.countP_eq_length_filter, List.countP_eq_length_filter, List.countP_eq_length_filter,
      ← List.length_append, filtered declaration declarator returned]
  refine ⟨?_, ?_, ?_, ?_⟩
  · have none : loop.countP (continuesAt n.loop) = 0 := by
      unfold loop
      split <;> rfl
    rw [counted (fun _ => rfl) (fun _ => rfl) rfl, none, calls_addFunction, Nat.zero_add]
    exact h.calls
  · -- A function that became a loop has a name, by which it was called.
    have recorded : loop.countP (isLabeledBy n.loop) =
        (if s.scope.isTailRecursive then s.scope.name.toList else []).length := by
      unfold loop
      split
      · rename_i tail
        have labeled : isLabeledBy n.loop (loopAround n s.scope.locals ts) = true :=
          beq_self_eq_true (some n.loop)
        have named : s.scope.name ≠ none := by
          rw [walked.leads.name]
          rcases walked.leads.own tail with before | named
          · cases starts.tail.symm.trans before
          · exact named
        rw [List.countP_singleton, labeled]
        cases known : s.scope.name with
        | none => exact (named known).elim
        | some x => rfl
      · rfl
    have before := h.functions
    rw [counted (fun _ => rfl) (fun _ => rfl) rfl, functions_addFunction, List.length_append,
      recorded]
    omega
  · rw [vars_addFunction]
    exact h.vars
  · have none : (ts'.flatMap marks).filter returnsConditional = [] := by
      have outside : loop.filter returnsConditional = [] := by
        unfold loop
        split <;> rfl
      have inside : (ts.flatMap marks).filter returnsConditional = [] :=
        filter_eq_nil h.unconditional
      rw [filtered (fun _ => rfl) (fun _ => rfl) rfl, outside, inside]
      rfl
    exact fun u hu => Bool.eq_false_iff.mpr (List.filter_eq_nil_iff.mp none u hu)

/-- Only conditionals are walked to conditionals. -/
theorem conditional_of_walks {n : Naming} {s s' : State} {e e' : Tree}
    (h : Walks n s (.expression e e') s') (kept : s.scope.converts e = false) :
    e'.hasKind .conditionalExpression = false := by
  cases h with
  | conditional => cases kept
  | _ => rfl

/-- A walk records what it does. -/
theorem transports_tallies {n : Naming} : Transports n markMeasure markMeasure
    fun s s' xs ys => Tallies n s.stats s'.stats xs ys where
  nil := .nil
  append h1 h2 := h1.append h2
  addVars k h :=
    { h with
      vars := by
        have vars := h.vars
        simp only [State.tally, Stats.addVars]
        omega }
  addTernary h := ⟨h.calls, h.functions, h.vars, h.unconditional⟩
  directive := .nil
  declaration h := by
    rw [lists_marks.declaration]
    exact (Tallies.gone rfl rfl).append h
  declarator {s s' l li x init ys} _ h := by
    rw [lists_marks.declarator]
    refine ⟨h.calls, h.functions, ?_, h.unconditional⟩
    have vars := h.vars
    -- A declarator counts by itself before its initial value does.
    have one : (Tree.node l (.variableDeclarator (.node li (.identifier (.text x)))
      init)).isDeclarator =
        true := rfl
    rw [List.countP_cons, one]
    simp only [State.tally, State.rescope, Stats.addVars, if_true] at vars ⊢
    omega
  returned h := by
    rw [lists_marks.returned]
    exact (Tallies.gone rfl rfl).append h
  returnNothing {s l} := by
    have absent : markMeasure.of .null = [] := rfl
    rw [lists_marks.returned, absent]
    exact .returned rfl
  returnValue kept part h := by
    rw [lists_marks.returned]
    exact (Tallies.returned (conditional_of_walks part kept)).append h
  converted {s args} _ _ := by
    -- The conversion makes one jump, and this is what is counted.
    have jump : markMeasure.of (jumpBack n) = [jumpBack n] := lists_marks.jump
    have continues : continuesAt n.loop (jumpBack n) = true := beq_self_eq_true (some n.loop)
    rw [jump]
    refine ⟨?_, Nat.zero_add _, Nat.zero_add _, List.forall_mem_singleton.mpr rfl⟩
    rw [List.countP_singleton, continues]
    exact (Nat.add_comm 1 _).trans (Nat.zero_add _).symm
  bareJump {s l kind} := by
    rw [lists_marks.bareJump]
    cases kind <;> exact .replaced rfl rfl rfl rfl
  jump {s l kind ln x} := by
    rw [lists_marks.jump]
    cases kind <;> exact .replaced rfl rfl rfl rfl
  labeled {s s' l ln x body body'} free h := by
    have label : Tallies n s.stats s.stats
        [.node l (.labeled (.node ln (.identifier (.text x))) body)]
        [.node l (.labeled (.node ln (.identifier (.text x))) body')] :=
      .replaced rfl (isLabeledBy_loop free) rfl rfl
    -- A label of the program is never that of the loop, as that is reserved.
    rw [lists_marks.labeled, lists_marks.labeled]
    exact label.append h
  function {s s1 l form id ps lb ss ss1 ss' scope} starts walked h finished := by
    have head : Tallies n s.stats s.stats [functionOf l form id ps lb ss]
        [functionOf l form id ps lb ss'] := .replaced rfl rfl rfl rfl
    rw [markMeasure_of, markMeasure_of, marks_function, marks_function]
    exact head.append (h.finished (starts_ofFunction starts) walked finished)

/-! ## Programs and functions -/

/-- What elimination has converted in a program or function. No `return` of a call of the own name is
left, unless the name means something else in the body. There is a loop at the end of the body if and
only if the function returned such a call, and just then there are more jumps to its label. -/
structure Converts (n : Naming) (f f' : Tree) : Prop where
  complete : ∀ l lc callee arguments x,
    .node l (.returnStatement (.node lc (.call callee arguments))) ∈ f'.scopeNodes →
      f'.selfName? = some x → isIdentifier x callee = false
  loop : f'.statements.getLast?.any (isEndlessLoop n.loop) = true ↔ f.selfCalls ≠ []
  jumps : ∃ count, f'.scopeNodes.countP (continuesAt n.loop) =
    f.scopeNodes.countP (continuesAt n.loop) + count ∧ (0 < count ↔ f.selfCalls ≠ [])

section Settled

variable {n : Naming} {checked : Bool} {c : Targets} {f f' : Tree} {a : Scope} {ts : List Tree}

/-- Afterwards a function can be called by its name only if it could before. -/
theorem Settled.selfName? (h : Settled n f f' a ts) {x : Text} (own : f'.selfName? = some x) :
    f.selfName? = some x := by
  have declared := h.declared x
  obtain ⟨head⟩ := h
  cases head with
  | program => cases own
  | @function l form id ps lb ss ss' =>
    obtain ⟨named, visible⟩ := Option.filter_eq_some_iff.mp own
    refine Option.filter_eq_some_iff.mpr ⟨named, ?_⟩
    simp only [ownNames_block, Bool.and_eq_true, Bool.not_eq_true', List.contains_eq_mem,
      decide_eq_false_iff_not] at visible ⊢
    exact not_or.mp fun before => not_or.mpr visible (declared.mpr (.inl before))

/-- A `return` in a rewritten body holds no call of the own function. -/
theorem Settled.complete (h : Settled n f f' a ts) {l lc : Option Location} {callee arguments : Tree}
    {x : Text} (mem : .node l (.returnStatement (.node lc (.call callee arguments))) ∈ f'.scopeNodes)
    (own : f'.selfName? = some x) : isIdentifier x callee = false := by
  rcases h.mem_marks ((mem_scopeMarks rfl).mpr mem) with walked | ⟨_, other⟩ | ⟨_, other⟩
    | other | other
  · have kept := h.settles.keeps _ walked _ _ rfl
    rw [Scope.converts, scopeOf, h.selfName? own] at kept
    exact kept
  all_goals cases other

/-- A statement that is left by a walk does not carry the label of generated loops. -/
theorem Settled.unlabeled (h : Settled n f f' a ts) :
    ∀ t ∈ ts, isLabeledBy n.loop t = false := by
  intro t ht
  cases quiet : t.isQuiet with
  | true =>
    rw [Bool.eq_false_iff]
    intro labeled
    cases (isQuiet_of_isLabeledBy labeled).symm.trans quiet
  | false => exact h.settles.unlabeled t (List.mem_flatMap.mpr ⟨t, ht, mem_ownMarks quiet⟩)

/-- The loop of a function is labelled by the reserved label. -/
theorem isLabeledBy_of_isEndlessLoop {name : Text} {t : Tree} (h : isEndlessLoop name t = true) :
    isLabeledBy name t = true := by
  unfold isEndlessLoop at h
  split at h
  · exact h
  · cases h

/-- A body that was finished ends with a loop if and only if it is tail recursive. -/
theorem Settled.loop (h : Settled n f f' a ts) :
    f'.statements.getLast?.any (isEndlessLoop n.loop) = true ↔ f.selfCalls ≠ [] := by
  have tail : a.isTailRecursive = true ↔ f.selfCalls ≠ [] := by simp [h.tail]
  have finished := h.finished
  rw [← tail]
  cases looped : a.isTailRecursive with
  | true =>
    rw [finishBody_loop looped] at finished
    -- The loop stands at the end by its construction.
    rw [← Except.ok.inj finished, ← List.append_assoc, List.getLast?_concat]
    exact iff_of_true (beq_self_eq_true (some n.loop)) rfl
  | false =>
    obtain ⟨rest, dropped, statements⟩ := (finishBody_plain looped).mp finished
    -- No statement of the program can be taken for the loop, as its label is reserved.
    have front : ∀ t ∈ a.directive.toList ++ Tree.declareAll a.locals,
        isLabeledBy n.loop t = false := by
      refine List.forall_mem_append.mpr ⟨fun t ht => ?_, fun t ht => ?_⟩
      · obtain ⟨l, le, rfl⟩ := eq_strictDirective (h.strict t (Option.mem_toList.mp ht))
        rfl
      · unfold Tree.declareAll at ht
        split at ht
        · cases ht
        · rw [List.mem_singleton.mp ht]
          rfl
    have none : ∀ t ∈ f'.statements, isLabeledBy n.loop t = false := by
      rw [statements]
      exact List.forall_mem_append.mpr
        ⟨front, fun t ht => h.unlabeled t (mem_dropResets dropped t ht)⟩
    refine iff_of_false (fun ends => ?_) Bool.false_ne_true
    obtain ⟨t, last, endless⟩ := (Option.any_eq_true _ _).mp ends
    have labeled := isLabeledBy_of_isEndlessLoop endless
    rw [none t (List.mem_of_getLast? last)] at labeled
    cases labeled

/-- Where calls are converted, jumps are added. -/
theorem Settled.jumps (h : Settled n f f' a ts) :
    ∃ count, f'.scopeNodes.countP (continuesAt n.loop) =
      f.scopeNodes.countP (continuesAt n.loop) + count ∧ (0 < count ↔ f.selfCalls ≠ []) := by
  obtain ⟨count, counted, tail⟩ := h.settles.jumps
  have all (g : Tree) : g.scopeNodes.countP (continuesAt n.loop) =
      (g.scopeMarks.filter (continuesAt n.loop)).length := by
    rw [filter_scopeMarks fun u => isQuiet_of_continuesAt, List.countP_eq_length_filter]
  have walked := h.filter_marks (p := continuesAt n.loop) (fun _ => rfl) (fun _ => rfl) rfl rfl
  refine ⟨count, ?_, ?_⟩
  · rw [all, all, walked, ← List.countP_eq_length_filter, ← List.countP_eq_length_filter]
    exact counted
  · have fresh : (scopeOf n f).isTailRecursive = false := rfl
    rw [h.tail, fresh, Bool.false_or] at tail
    have positive : decide (0 < count) = true ↔ f.selfCalls ≠ [] := by simp [← tail]
    rwa [decide_eq_true_iff] at positive

/-- What elimination makes of a function is converted throughout. -/
theorem Rewrites.converts (wf : WellFormed checked c f) (h : Rewrites n f f') : Converts n f f' := by
  obtain ⟨a, ts, settled⟩ := h.settled wf
  exact ⟨fun _ _ _ _ _ => settled.complete, settled.loop, settled.jumps⟩

end Settled

/-! ## Whole programs -/

/-- Functions with one head are alike in that it holds no mark. -/
theorem SameHead.hasQuietHead {f f' : Tree} (h : SameHead f f') (quiet : f.HasQuietHead) :
    f'.HasQuietHead := by
  cases h with
  | program => exact nofun
  | function =>
    rintro l form id params body ⟨⟩
    exact quiet _ _ _ _ _ rfl

/-- To count nodes that are not quiet, the marks are enough. -/
theorem countP_nodes {t : Tree} (same : t.nodes.filter (fun u => !u.isQuiet) = t.marks)
    {p : Tree → Bool} (loud : ∀ u, p u = true → u.isQuiet = false) :
    t.nodes.countP p = t.marks.countP p := by
  rw [← same, List.countP_filter]
  refine List.countP_congr fun u _ => ?_
  cases found : p u with
  | false => rfl
  | true => rw [loud u found]; rfl

section Programs

variable {n : Naming} {checked : Bool} {c : Targets} {l : Option Location} {ss : List Tree}
  {t' : Tree} {stats : Stats}

/-- The record of a whole program agrees with its nodes before and after. -/
theorem Eliminates.tallies (h : Eliminates n (.node l (.program (.tuple ss))) t' stats) :
    Tallies n {} stats (Tree.node l (.program (.tuple ss))).marks t'.marks := by
  cases h with
  | expression kind => cases kind
  | statement kind => cases kind
  | @program _ _ ss1 ss' startsStrict s starts finished =>
    -- A program has no name by which it could call itself.
    have unlooped : s.scope.isTailRecursive = false := by
      rw [Bool.eq_false_iff]
      intro tail
      rcases starts.leads.own tail with before | named
      · cases before
      · exact named rfl
    have same : s.stats.addFunction s.scope = s.stats := by
      rw [Stats.addFunction, unlooped]
      rfl
    have begins : Scope.Starts n [] { startsStrict } := ⟨rfl, rfl, rfl, rfl, rfl, rfl⟩
    have body := (starts.transported_start transports_tallies).finished begins starts finished
    have head : Tallies n {} {} [Tree.node l (.program (.tuple ss))]
        [Tree.node l (.program (.tuple ss'))] := .replaced rfl rfl rfl rfl
    rw [same] at body
    rw [← markMeasure_of, ← markMeasure_of, lists_marks.program, lists_marks.program]
    exact head.append body

/-- After elimination of a well-formed program, no `return` has a conditional for its value, and the
calls of themselves that functions returned are converted. The record of what was done counts the
jumps that were added for these calls, names one function for each generated loop, and counts the
declarators of the original. Jumps aside, whatever is read from a text is a well-formed program. -/
theorem eliminateTailCalls_converts (wf : WellFormed checked c (.node l (.program (.tuple ss))))
    (eliminated : (Tree.node l (.program (.tuple ss))).eliminateTailCalls n = .ok (t', stats)) :
    (∀ u ∈ t'.nodes, returnsConditional u = false) ∧
      List.Forall₂ (Converts n) (Tree.node l (.program (.tuple ss))).scopes t'.scopes ∧
      t'.nodes.countP (continuesAt n.loop) =
        (Tree.node l (.program (.tuple ss))).nodes.countP (continuesAt n.loop) + stats.calls ∧
      stats.functions.length = t'.nodes.countP (isLabeledBy n.loop) ∧
      stats.vars = (Tree.node l (.program (.tuple ss))).nodes.countP isDeclarator := by
  have tallies := (eliminates_of_ok wf eliminated).tallies
  have rewritten := becomes_of_ok wf eliminated
  have heads : ∀ f' ∈ t'.scopes, f'.HasQuietHead := by
    have same := rewritten.imp fun f f' h => h.2.2.head
    refine forall_of_forall₂ same.flip (fun f' f head quiet => head.hasQuietHead quiet) fun f hf => ?_
    obtain ⟨c', valid⟩ := wf.scopes f hf
    exact valid.hasQuietHead
  -- The record was compared with the marks; on both sides these are the nodes that are not quiet.
  have after := Tree.filter_nodes heads
  have before := wf.filter_nodes
  refine ⟨fun u hu => ?_, ?_, ?_, ?_, ?_⟩
  · rw [Bool.eq_false_iff]
    intro returns
    have mark : u ∈ t'.marks := mem_marks after hu (isQuiet_of_returnsConditional returns)
    cases (tallies.unconditional u mark).symm.trans returns
  · refine rewritten.imp ?_
    rintro f f' ⟨⟨c', valid⟩, -, h⟩
    exact h.converts valid
  · rw [countP_nodes after fun u => isQuiet_of_continuesAt,
      countP_nodes before fun u => isQuiet_of_continuesAt]
    exact tallies.calls
  · rw [countP_nodes after fun u => isQuiet_of_isLabeledBy]
    exact tallies.functions.symm
  · rw [countP_nodes before fun u => isQuiet_of_isDeclarator]
    exact tallies.vars.symm

end Programs

/-- A function that returns a conditional, one of whose branches has two expressions, the last a call
of the function itself. -/
def branching : Tree :=
  Tree.new (.function .declaration (.identifier "f") (.tuple [.identifier "a"])
    (.block [
      Tree.declaration [Tree.declarator "x" (.identifier "a")],
      Tree.new (.returnStatement (Tree.new (.conditional (.identifier "x")
        (Tree.new (.sequence (.tuple [.identifier "x",
          Tree.new (.call (.identifier "f") (.tuple [.identifier "x"]))])))
        (.identifier "a"))))]))

/-- It becomes a loop, with one jump for the call. -/
theorem eliminateTailCalls_converts_branching :
    ∃ t' stats, (Tree.node none (.program (.tuple [branching]))).eliminateTailCalls {} =
        .ok (t', stats) ∧ branching.selfCalls ≠ [] ∧ stats.calls = 1 ∧
      (∀ u ∈ t'.nodes, returnsConditional u = false) ∧
      List.Forall₂ (Converts {}) (Tree.node none (.program (.tuple [branching]))).scopes t'.scopes ∧
      t'.nodes.countP (continuesAt "_tailCall_") =
        (Tree.node none (.program (.tuple [branching]))).nodes.countP (continuesAt "_tailCall_") +
          stats.calls ∧
      stats.functions.length = t'.nodes.countP (isLabeledBy "_tailCall_") ∧
      stats.vars = (Tree.node none (.program (.tuple [branching]))).nodes.countP isDeclarator := by
  have wf : WellFormed true {} (.node none (.program (.tuple [branching]))) :=
    wellFormed_of_validate rfl (by decide)
  exact ⟨_, _, rfl, by decide, rfl, eliminateTailCalls_converts (n := {}) wf rfl⟩

end TailLoop.Elimination
