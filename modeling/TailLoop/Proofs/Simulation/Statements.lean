import TailLoop.Proofs.Elimination.Walks
import TailLoop.Proofs.Simulation.Expressions

/-!
# Statements that agree

A statement of the program and what elimination makes of it run alike (`agrees_of_walks`, by
induction on the rules of the walk). Declarations become assignments, blocks are opened, and a
`return` of a conditional becomes a statement, so that the statements differ in form; what they do is
the same as long as they go on. They may be left in different ways only where a tail call was
converted: the program is left by a `return` and the rewritten program by a jump. `TailsAgree` states
what has to hold there, and a later module proves it of the calls that are converted.

`Ends` relates the ways in which two statements are left. A statement with labels is known by what it
does both alone and after any labels (`StatementAgrees`), since a labeled loop has its labels handed
over and any other labeled statement has not.
-/

namespace TailLoop

namespace Elimination

/-- Expressions of an edit without functions stay as they are, and so does the state. -/
def Edit.Keeps (s s' : State) : Edit → Prop
  | .expression e e' => e.All (·.isFunction = false) → e' = e ∧ s' = s
  | .optional e e' => (e.isNull = false → e.All (·.isFunction = false)) → e' = e ∧ s' = s
  | .expressions es es' => (∀ e ∈ es, e.All (·.isFunction = false)) → es' = es ∧ s' = s
  | _ => True

/-- Code without functions stays as it is, and so does the scope. -/
theorem Walks.keeps {n : Naming} {s s' : State} {edit : Edit} (h : Walks n s edit s') :
    edit.Keeps s s' := by
  -- By induction on the walk: without functions, calls and declarations no rule touches the state,
  -- so that each part starts in the state of the whole.
  induction h with
  | identifier => exact fun _ => ⟨rfl, rfl⟩
  | literal => exact fun _ => ⟨rfl, rfl⟩
  | array _ ih =>
    intro simple
    obtain ⟨rfl, rfl⟩ := ih fun e he => (simple.child (Shape.mem_parts 0 rfl)).item he
    exact ⟨rfl, rfl⟩
  | function =>
    intro simple
    cases simple.self
  | call _ _ ih1 ih2 =>
    intro simple
    obtain ⟨rfl, rfl⟩ := ih1 (simple.child (Shape.mem_parts 0 rfl))
    obtain ⟨rfl, rfl⟩ := ih2 fun e he =>
      (simple.child (Shape.mem_parts 1 rfl)).item he
    exact ⟨rfl, rfl⟩
  | member _ _ ih =>
    intro simple
    obtain ⟨rfl, rfl⟩ := ih (simple.child (Shape.mem_parts 0 rfl))
    exact ⟨rfl, rfl⟩
  | computedMember _ _ ih1 ih2 =>
    intro simple
    obtain ⟨rfl, rfl⟩ := ih1 (simple.child (Shape.mem_parts 0 rfl))
    obtain ⟨rfl, rfl⟩ := ih2 (simple.child (Shape.mem_parts 1 rfl))
    exact ⟨rfl, rfl⟩
  | conditional _ _ _ ih1 ih2 ih3 =>
    intro simple
    obtain ⟨rfl, rfl⟩ := ih1 (simple.child (Shape.mem_parts 0 rfl))
    obtain ⟨rfl, rfl⟩ := ih2 (simple.child (Shape.mem_parts 1 rfl))
    obtain ⟨rfl, rfl⟩ := ih3 (simple.child (Shape.mem_parts 2 rfl))
    exact ⟨rfl, rfl⟩
  | assignment _ _ ih1 ih2 | binary _ _ ih1 ih2 | logical _ _ ih1 ih2 =>
    intro simple
    obtain ⟨rfl, rfl⟩ := ih1 (simple.child (Shape.mem_parts 1 rfl))
    obtain ⟨rfl, rfl⟩ := ih2 (simple.child (Shape.mem_parts 2 rfl))
    exact ⟨rfl, rfl⟩
  | sequence _ ih =>
    intro simple
    obtain ⟨rfl, rfl⟩ := ih fun e he =>
      (simple.child (Shape.mem_parts 0 rfl)).item he
    exact ⟨rfl, rfl⟩
  | unary _ ih | update _ ih =>
    intro simple
    obtain ⟨rfl, rfl⟩ := ih (simple.child (Shape.mem_parts 1 rfl))
    exact ⟨rfl, rfl⟩
  | absent => exact fun _ => ⟨rfl, rfl⟩
  | @present s s' e e' part ih =>
    intro simple
    refine ih (simple ?_)
    cases part <;> rfl
  | noExpressions => exact fun _ => ⟨rfl, rfl⟩
  | moreExpressions _ _ ih1 ih2 =>
    intro simple
    rw [List.forall_mem_cons] at simple
    obtain ⟨rfl, rfl⟩ := ih1 simple.1
    obtain ⟨rfl, rfl⟩ := ih2 simple.2
    exact ⟨rfl, rfl⟩
  | _ => trivial

end Elimination

namespace Simulation

open Eval Validity Elimination

/-! ## Ways to end -/

/-- An interrupt that leaves the whole activation, as a `return` or an error does. -/
def Leaves : Interrupt → Prop
  | .returned _ => True
  | .failed _ => True
  | _ => False

/-- A relation between an interrupt of the program with the machine it leaves and a machine of the
rewritten program. -/
abbrev Pending := Interrupt → Machine → Machine → Prop

/-- How statements with the given targets around them end: both runs are interrupted in the same
way, or the program has left the activation by a tail call, for which the rewritten program is about
to jump back. What the two machines have to do with each other then is left open here. -/
def Ends (w : World) (frames : List Frame) (c : Targets) (T : Pending) : Ending := fun e m e' m' =>
  Throws w frames c e m e' m' ∨
    Leaves e ∧ e' = .continued (.text w.naming.loop) ∧ T e m m'

/-- What ends code is known as well if less is known of the variables that nothing may set. -/
theorem Ends.forget {f : Frame} {xs ys : List Text} {e e' : Interrupt} {m m' : Machine}
    (h : Ends w (f.leaving xs :: frames) c T e m e' m') (fewer : ys ⊆ xs) :
    Ends w (f.leaving ys :: frames) c T e m e' m' := by
  refine h.imp_left ?_
  rintro ⟨same, allowed, machines⟩
  exact ⟨same, allowed, machines.forget fewer⟩

/-- The targets `c'` inside some labels, of which it is known whether they are on a loop, and the
targets `c` around them. -/
structure LabeledBy (labels : List Text) (onLoop : Bool) (c c' : Targets) : Prop where
  inLoop : c'.inLoop = c.inLoop
  others : ∀ x, x ∉ labels → c'.labels.lookup x = c.labels.lookup x
  own : onLoop = false → ∀ x ∈ labels, c'.labels.lookup x = some false

/-- Without labels the targets are the same. -/
theorem LabeledBy.none (onLoop : Bool) (c : Targets) : LabeledBy [] onLoop c c :=
  ⟨rfl, fun _ _ => rfl, fun _ _ => nofun⟩

/-- One more label, directly on what the statement after it is. -/
theorem LabeledBy.more {labels : List Text} {c c' : Targets} (h : LabeledBy labels false c c')
    (name : Text) (onLoop : Bool) :
    LabeledBy (labels ++ [name]) onLoop c (c'.labeled name onLoop) where
  inLoop := h.inLoop
  others x hx := by
    rw [List.mem_append, List.mem_singleton, not_or] at hx
    have : (x == name) = false := beq_eq_false_iff_ne.mpr hx.2
    rw [Targets.labeled, List.lookup_cons, this]
    exact h.others x hx.1
  own off x hx := by
    rw [Targets.labeled, List.lookup_cons]
    cases same : x == name with
    | true => rw [off]
    | false =>
      rw [List.mem_append, List.mem_singleton] at hx
      exact h.own rfl x (hx.resolve_right (by simpa using same))

section Endings

variable {w : World} {frames : List Frame} {T : Pending} {c c' : Targets} {labels : List Text}

/-- No jump finds a target where there is none. -/
theorem not_catches_none {kind : JumpKind} {label : Tree} : ¬Catches {} kind label := by
  rintro (⟨-, h⟩ | ⟨_, -, _, h, -⟩) <;> cases h

/-- What ends code without targets around it can also end code inside a statement. -/
theorem allowed_of_none {e : Interrupt} (h : Allowed w {} e) : Allowed w c e := by
  cases e with
  | broke label => exact fun loops => (not_catches_none (h loops)).elim
  | continued label => exact fun loops => (not_catches_none (h loops)).elim
  | _ => exact h

/-- What only errors end is ended as the targets allow. -/
theorem Sim.ends {α : Type} {P : α → Prop} {x : Eval α} {y : Nat → Eval α}
    (h : Sim w frames P (Throws w frames {}) x y) : Sim w frames P (Ends w frames c T) x y := by
  refine h.mono (fun _ => id) fun e m e' m' => ?_
  rintro ⟨rfl, allowed, machines⟩
  exact .inl ⟨rfl, allowed_of_none allowed, machines⟩

/-- What ends without targets ends so within any. -/
theorem Sim.outward {α : Type} {P : α → Prop} {x : Eval α} {y : Nat → Eval α}
    (h : Sim w frames P (Ends w frames {} T) x y) : Sim w frames P (Ends w frames c T) x y := by
  refine h.mono (fun _ => id) fun e m e' m' => ?_
  rintro (⟨rfl, allowed, machines⟩ | pending)
  · exact .inl ⟨rfl, allowed_of_none allowed, machines⟩
  · exact .inr pending

/-- A jump that is not for a loop with these labels is for something around it. -/
theorem Catches.outward {kind : JumpKind} {label : Tree} {onLoop : Bool}
    (h : Catches c'.inBody kind label) (around : LabeledBy labels onLoop c c')
    (other : concerns labels label = .ok false) : Catches c kind label := by
  rcases h with ⟨rfl, -⟩ | ⟨name, rfl, onLoop, found, onTarget⟩
  · cases other
  · have outside : name ∉ labels := by
      intro inside
      have hit : concerns labels (.text name) = .ok true := by
        simp [concerns, Tree.isNull, Tree.key, Except.map, inside]
      rw [hit] at other
      cases other
    exact .inr ⟨name, rfl, onLoop, (around.others name outside).symm.trans found, onTarget⟩

/-- The jump back to the start of an activation is for no loop of the program. -/
theorem concerns_loop (outside : w.naming.loop ∉ labels) :
    concerns labels (.text w.naming.loop) = .ok false := by
  simp [concerns, Tree.isNull, Tree.key, Except.map, outside]

/-- A jump that both runs come to ends the pass, or is for something around the loop. -/
theorem agree_concerns {label : Tree} {e : Interrupt} {goesOn : Bool} {m m' : Machine}
    (machines : Matches w frames m m') (allowed : concerns labels label = .ok false → Allowed w c e) :
    Agree w frames (fun _ => True) (Ends w frames c T)
      (match concerns labels label with
        | .ok true => .ok goesOn m
        | .ok false => .error e m
        | .error fault => .error (.failed (.malformed fault)) m)
      (match concerns labels label with
        | .ok true => .ok goesOn m'
        | .ok false => .error e m'
        | .error fault => .error (.failed (.malformed fault)) m') := by
  cases found : concerns labels label with
  | error fault => exact .error (.inl ⟨rfl, trivial, machines⟩)
  | ok mine =>
    cases mine with
    | true => exact .ok trivial machines
    | false => exact .error (.inl ⟨rfl, allowed found, machines⟩)

/-- One pass of a loop with labels. -/
theorem pass_sim {body : Eval Unit} {body' : Nat → Eval Unit}
    (around : LabeledBy labels true c c') (outside : w.naming.loop ∉ labels)
    (h : Sim w frames (fun _ => True) (Ends w frames c'.inBody T) body body') :
    Sim w frames (fun _ => True) (Ends w frames c T) (pass labels body)
      fun k => pass labels (body' k) := by
  intro m m' hm counts
  -- What the body may not do is what the loop may not do, as the loop only takes up jumps.
  have part : Counts w (body m) := by
    intro e m1 hx
    cases e with
    | broke label => trivial
    | continued label => trivial
    | _ => exact counts _ m1 (by rw [Eval.pass, hx])
  obtain ⟨n, r', settled, agree⟩ := h m m' hm part
  have there (k : Nat) (hk : n ≤ k) : pass labels (body' k) m' = pass labels (fun _ => r') m' := by
    simp only [Eval.pass, settled k hk]
  refine ⟨n, _, there, ?_⟩
  unfold Eval.pass
  generalize body m = r at agree
  cases agree with
  -- The two ends agree, and a jump that both make concerns the loop on both sides or on neither.
  | ok value machines => exact .ok trivial machines
  | @error e e' m1 m1' ends =>
    rcases ends with ⟨same, allowed, machines⟩ | ⟨leaves, same, pending⟩
    · subst same
      cases e' with
      | broke label =>
        exact agree_concerns machines fun other loops => (allowed loops).outward around other
      | continued label =>
        exact agree_concerns machines fun other loops => (allowed loops).outward around other
      | returned v => exact .error (.inl ⟨rfl, allowed, machines⟩)
      | failed error => exact .error (.inl ⟨rfl, trivial, machines⟩)
      | exhausted => exact allowed.elim
    · -- the program leaves the activation, and the rewritten program leaves the loop
      subst same
      simp only [concerns_loop outside]
      cases e with
      | returned v => exact .error (.inr ⟨trivial, rfl, pending⟩)
      | failed error => exact .error (.inr ⟨trivial, rfl, pending⟩)
      | _ => exact leaves.elim

/-- A labeled statement that is no loop. -/
theorem labeled_sim {body : Eval Unit} {body' : Nat → Eval Unit}
    (around : LabeledBy labels false c c')
    (h : Sim w frames (fun _ => True) (Ends w frames c' T) body body') :
    Sim w frames (fun _ => True) (Ends w frames c T) (labeled labels body)
      fun k => labeled labels (body' k) := by
  intro m m' hm counts
  -- What the body may not do is what the label may not do, as the label takes up `break` only.
  have part : Counts w (body m) := by
    intro e m1 hx
    cases e with
    | broke label => trivial
    | _ => exact counts _ m1 (by rw [labeled, hx])
  obtain ⟨n, r', settled, agree⟩ := h m m' hm part
  have there (k : Nat) (hk : n ≤ k) :
      labeled labels (body' k) m' = labeled labels (fun _ => r') m' := by
    simp only [labeled, settled k hk]
  refine ⟨n, _, there, ?_⟩
  unfold labeled
  generalize body m = r at agree
  cases agree with
  -- The two ends agree: a `break` of one of the labels ends here on both sides, and everything else
  -- goes on outwards.
  | ok value machines => exact .ok trivial machines
  | @error e e' m1 m1' ends =>
    rcases ends with ⟨same, allowed, machines⟩ | ⟨leaves, same, pending⟩
    · subst same
      cases e' with
      | broke label =>
        simp only
        cases found : label.key.map labels.contains with
        | error fault => exact .error (.inl ⟨rfl, trivial, machines⟩)
        | ok mine =>
          cases mine with
          | true => exact .ok trivial machines
          | false =>
            refine .error (.inl ⟨rfl, fun loops => ?_, machines⟩)
            rcases allowed loops with ⟨rfl, inLoop⟩ | ⟨name, rfl, onLoop, reached, onTarget⟩
            · exact .inl ⟨rfl, around.inLoop ▸ inLoop⟩
            · have outside : name ∉ labels := by
                intro inside
                simp [Tree.key, Except.map, inside] at found
              exact .inr ⟨name, rfl, onLoop, (around.others name outside).symm.trans
                reached, onTarget⟩
      | continued label =>
        refine .error (.inl ⟨rfl, fun loops => ?_, machines⟩)
        rcases allowed loops with ⟨rfl, inLoop⟩ | ⟨name, rfl, onLoop, reached, onTarget⟩
        · exact .inl ⟨rfl, around.inLoop ▸ inLoop⟩
        · -- a label on something that is no loop cannot be continued
          have outside : name ∉ labels := by
            intro inside
            rw [around.own rfl name inside] at reached
            cases reached
            exact onTarget.elim nofun nofun
          exact .inr ⟨name, rfl, onLoop, (around.others name outside).symm.trans reached, onTarget⟩
      | returned v => exact .error (.inl ⟨rfl, allowed, machines⟩)
      | failed error => exact .error (.inl ⟨rfl, trivial, machines⟩)
      | exhausted => exact allowed.elim
    · subst same
      cases e with
      | returned v => exact .error (.inr ⟨trivial, rfl, pending⟩)
      | failed error => exact .error (.inr ⟨trivial, rfl, pending⟩)
      | _ => exact leaves.elim

end Endings

/-! ## Loops -/

/-- The start of a `for`. -/
def startLoop (limit fuel env : Nat) (init : Tree) : Eval Unit :=
  if init.hasKind .variableDeclaration then execute limit fuel env init
  else if init.isNull then return ()
  else do
    let _ ← evaluate limit fuel env init

/-- Whether a `for` makes another pass. -/
def continues (limit fuel env : Nat) (test : Tree) : Eval Bool :=
  if test.isNull then return true else Value.truthy <$> evaluate limit fuel env test

/-- The step of a `for` between two passes. -/
def advance (limit fuel env : Nat) (step : Tree) : Eval Unit :=
  if step.isNull then return ()
  else do
    let _ ← evaluate limit fuel env step

/-- A `for` starts, and then repeats its passes. -/
theorem executeLoop_for (limit fuel env : Nat) (labels : List Text) (l : Option Location)
    (init test step body : Tree) :
    executeLoop limit (fuel + 1) env labels (.node l (.forStatement init test step body)) = (do
      startLoop limit fuel env init
      repeating
        (do
          if ← continues limit fuel env test then
            if ← pass labels (execute limit fuel env body) then
              advance limit fuel env step
              return true
            else return false
          else return false)
        fuel) := by
  simp only [executeLoop, startLoop, continues, advance]
  cases init.hasKind .variableDeclaration <;> cases init.isNull <;> cases test.isNull <;>
    cases step.isNull <;> simp

variable {w : World} {frames : List Frame} {f : Frame} {T : Pending} {c c' : Targets}
  {labels : List Text} {fuel : Nat} {l : Option Location}

/-- Passes of a `while` agree if its body does. -/
theorem while_sim {test body body' : Tree} (agree : ExpressionsAgree w f frames (fuel + 1))
    (around : LabeledBy labels true c c') (outside : w.naming.loop ∉ labels)
    (testPart : Operand w f test)
    (part : Sim w (f :: frames) (fun _ => True) (Ends w (f :: frames) c'.inBody T)
      (execute w.limit fuel f.source body) fun k => execute w.limit k f.target body') :
    Sim w (f :: frames) (fun _ => True) (Ends w (f :: frames) c T)
      (executeLoop w.limit (fuel + 1) f.source labels (.node l (.whileStatement test body)))
      fun k => executeLoop w.limit k f.target labels (.node l (.whileStatement test body')) := by
  refine .later ?_
  simp only [executeLoop]
  have tested := (agree fuel (by omega) test testPart).ends (c := c) (T := T)
  exact .repeating (.bind tested fun v _ =>
    .ite (fun _ => pass_sim around outside part) fun _ => .pure trivial) fuel

/-- Passes of a `do` agree if its body does. -/
theorem doWhile_sim {test body body' : Tree} (agree : ExpressionsAgree w f frames (fuel + 1))
    (around : LabeledBy labels true c c') (outside : w.naming.loop ∉ labels)
    (testPart : Operand w f test)
    (part : Sim w (f :: frames) (fun _ => True) (Ends w (f :: frames) c'.inBody T)
      (execute w.limit fuel f.source body) fun k => execute w.limit k f.target body') :
    Sim w (f :: frames) (fun _ => True) (Ends w (f :: frames) c T)
      (executeLoop w.limit (fuel + 1) f.source labels (.node l (.doWhileStatement body test)))
      fun k => executeLoop w.limit k f.target labels (.node l (.doWhileStatement body' test)) := by
  refine .later ?_
  simp only [executeLoop]
  have tested := (agree fuel (by omega) test testPart).ends (c := c) (T := T)
  exact .repeating (.bind (pass_sim around outside part) fun _ _ =>
    .ite (fun _ => .bind tested fun _ _ => .pure trivial) fun _ => .pure trivial) fuel

/-- An expression that may be absent. -/
theorem optional_sim {α : Type} {P : α → Prop} {e : Tree} {a : α}
    {E : Ending} {x : Eval α} {y : Nat → Eval α} (ha : P a)
    (h : e.isNull = false → Sim w frames P E x y) :
    Sim w frames P E (if e.isNull then return a else x)
      fun k => if e.isNull then return a else y k :=
  .ite (fun _ => .pure ha) fun absent => h (by simpa using absent)

/-- Passes of a `for` agree if its start and its body do. -/
theorem for_sim {init init' test step body body' : Tree}
    (agree : ExpressionsAgree w f frames (fuel + 1))
    (around : LabeledBy labels true c c') (outside : w.naming.loop ∉ labels)
    (initPart : Sim w (f :: frames) (fun _ => True) (Ends w (f :: frames) c T)
      (startLoop w.limit fuel f.source init) fun k => startLoop w.limit k f.target init')
    (testPart : test.isNull = false → Operand w f test)
    (stepPart : step.isNull = false → Operand w f step)
    (part : Sim w (f :: frames) (fun _ => True) (Ends w (f :: frames) c'.inBody T)
      (execute w.limit fuel f.source body) fun k => execute w.limit k f.target body') :
    Sim w (f :: frames) (fun _ => True) (Ends w (f :: frames) c T)
      (executeLoop w.limit (fuel + 1) f.source labels (.node l (.forStatement init test step body)))
      fun k =>
        executeLoop w.limit k f.target labels (.node l (.forStatement init' test step body')) := by
  refine .later ?_
  simp only [executeLoop_for]
  -- Each part of the loop is simulated by itself, for any fuel on the other side.
  have evaluated {e : Tree} (operand : Operand w f e) :=
    (agree fuel (by omega) e operand).ends (c := c) (T := T)
  have tested : Sim w (f :: frames) (fun _ => True) (Ends w (f :: frames) c T)
      (continues w.limit fuel f.source test) fun k => continues w.limit k f.target test :=
    optional_sim trivial fun present => (evaluated (testPart present)).map fun _ _ => trivial
  have advanced : Sim w (f :: frames) (fun _ => True) (Ends w (f :: frames) c T)
      (advance w.limit fuel f.source step) fun k => advance w.limit k f.target step :=
    optional_sim trivial fun present => .bind (evaluated (stepPart present)) fun _ _ => .pure trivial
  refine .bind initPart fun _ _ => .repeating ?_ fuel
  refine .bind tested fun _ _ => .ite (fun _ => ?_) fun _ => .pure trivial
  exact .bind (pass_sim around outside part) fun _ _ =>
    .ite (fun _ => .bind advanced fun _ _ => .pure trivial) fun _ => .pure trivial

/-- The passes of a loop over a collection, one for each item. -/
theorem forEach_passes_sim {target body body' : Tree} {vs : List Value}
    (agree : ExpressionsAgree w f frames (fuel + 1)) (around : LabeledBy labels true c c')
    (outside : w.naming.loop ∉ labels) (unheld : f.held = none) (targetPart : Expression w f target)
    (assignable : target.isAssignable = true) (loose : IsTarget w f target)
    (data : ∀ v ∈ vs, v.isData = true)
    (part : Sim w (f :: frames) (fun _ => True) (Ends w (f :: frames) c'.inBody T)
      (execute w.limit fuel f.source body) fun k => execute w.limit k f.target body') :
    Sim w (f :: frames) (fun _ => True) (Ends w (f :: frames) c T)
      (forEachItem
        (fun v => do
          assignTo w.limit fuel f.source target v
          pass labels (execute w.limit fuel f.source body)) vs)
      fun k => forEachItem
        (fun v => do
          assignTo w.limit k f.target target v
          pass labels (execute w.limit k f.target body')) vs := by
  have before : ExpressionsAgree w f frames fuel := fun j hj => agree j (by omega)
  -- Each item is a pass by itself: an assignment to the target, which cannot leave the loop, and
  -- the body.
  exact .forEachItem fun v hv =>
    .bind (assignTo_sim frames before targetPart assignable loose unheld (data v hv)).ends fun _ _ =>
      pass_sim around outside part

/-- A loop over a collection. Both runs set the same target, however its head is written. -/
theorem forEach_sim {domain : Domain} {left left' target right body body' : Tree}
    (agree : ExpressionsAgree w f frames (fuel + 1)) (around : LabeledBy labels true c c')
    (outside : w.naming.loop ∉ labels) (unheld : f.held = none)
    (here : loopTarget left = return target) (there : loopTarget left' = return target)
    (targetPart : Expression w f target) (assignable : target.isAssignable = true)
    (loose : IsTarget w f target) (rightPart : Operand w f right)
    (part : Sim w (f :: frames) (fun _ => True) (Ends w (f :: frames) c'.inBody T)
      (execute w.limit fuel f.source body) fun k => execute w.limit k f.target body') :
    Sim w (f :: frames) (fun _ => True) (Ends w (f :: frames) c T)
      (executeLoop w.limit (fuel + 1) f.source labels (.node l (.forEach domain left right body)))
      fun k =>
        executeLoop w.limit k f.target labels (.node l (.forEach domain left' right body')) := by
  refine .later ?_
  have source := (agree fuel (by omega) right rightPart).ends (c := c) (T := T)
  have passes {vs : List Value} (data : ∀ v ∈ vs, v.isData = true) :=
    forEach_passes_sim agree around outside unheld targetPart assignable loose data part
  -- The two kinds of loop differ only in what the collection is turned into, which is data in both.
  cases domain with
  | keys =>
    simp only [executeLoop, here, there, pure_bind]
    refine .bind source fun v _ => .ite (fun _ => .pure trivial) fun _ => ?_
    refine .bind (keysOf_sim v) fun keys _ => passes fun u hu => ?_
    obtain ⟨key, -, rfl⟩ := List.mem_map.mp hu
    rfl
  | values =>
    simp only [executeLoop, here, there, pure_bind]
    exact .bind source fun v hv => .bind (valuesOf_sim hv).throws.ends fun vs data => passes data

/-! ## Parts of statements -/

/-- A statement that runs in the activation of a frame, with the given targets around it. -/
structure Statement (w : World) (f : Frame) (c : Targets) (t : Tree) : Prop where
  wellFormed : WellFormed w.loops c t
  kind : t.isStatement = true
  fits : t.All (Fits w f)
  /-- What it declares without a value is undefined. -/
  valueless : t.valueless ⊆ f.unset

namespace Statement

variable {shape : Shape Tree} {u : Tree}

/-- A statement inside a statement. -/
theorem part {c' : Targets} (h : Statement w f c (.node l shape)) (hu : u ∈ shape.parts)
    (kind : u.isStatement = true) (wellFormed : WellFormed w.loops c' u)
    (plain : shape.isPlainPart = true) : Statement w f c' u :=
  ⟨wellFormed, kind, h.fits.child hu,
    List.Subset.trans (Tree.valueless_part hu plain) h.valueless⟩

/-- The body of a loop over a collection. -/
theorem forEachBody {c' : Targets} {domain : Domain} {left right body : Tree}
    (h : Statement w f c (.node l (.forEach domain left right body)))
    (kind : body.isStatement = true) (wellFormed : WellFormed w.loops c' body) :
    Statement w f c' body := by
  refine ⟨wellFormed, kind, h.fits.child (Shape.mem_parts 2 rfl), fun x hx => h.valueless ?_⟩
  rw [Tree.valueless_forEach]
  exact List.mem_append_right _ hx

/-- An expression of a statement whose value is used. -/
theorem operand (h : Statement w f c (.node l shape)) (unheld : f.held = none)
    (hu : u ∈ shape.parts) (used : u ∈ (Tree.node l shape).operands)
    (kind : u.isExpression = true) (wellFormed : WellFormed w.loops c u) : Operand w f u :=
  ⟨⟨⟨_, _, wellFormed⟩, kind, h.fits.child hu, .inl unheld⟩, h.fits.self.operands u used⟩

end Statement

/-- The statements of a block. -/
theorem Statement.items {ss : List Tree} (h : Statement w f c (.node l (.block (.tuple ss)))) :
    ∀ t ∈ ss, Statement w f c t := by
  obtain ⟨wellFormed, -, fits, valueless⟩ := h
  have row : (Tree.tuple ss).valueless ⊆ f.unset :=
    List.Subset.trans (Tree.valueless_part (Shape.mem_parts 0 rfl) rfl) valueless
  cases wellFormed with
  | block kinds parts =>
    intro t ht
    exact ⟨parts t ht, kinds t ht, (fits.child (Shape.mem_parts 0 rfl)).item ht,
      List.Subset.trans (Tree.valueless_item ht) row⟩

/-- Statements that follow each other. Some variables are undefined before the first of them, and
each statement is in a frame with those of them that it and the ones before it give no value. -/
inductive Sequence (w : World) (f : Frame) (c : Targets) : List Text → List Tree → Prop where
  | nil {xs : List Text} : Sequence w f c xs []
  | cons {xs ys : List Text} {t : Tree} {ts : List Tree} (fewer : ys ⊆ xs)
      (first : Statement w (f.leaving ys) c t) (rest : Sequence w f c ys ts) :
      Sequence w f c xs (t :: ts)

/-- No statement of a sequence contains a function. -/
theorem Sequence.simple {xs : List Text} {ts : List Tree} (h : Sequence w f c xs ts) :
    ∀ t ∈ ts, t.All (·.isFunction = false) := by
  induction h with
  | nil => exact List.forall_mem_nil _
  | cons _ first _ ih =>
    exact List.forall_mem_cons.mpr ⟨fun u hu => (first.fits u hu).simple, ih⟩

/-- Where nothing is known to be undefined, the statements are statements in the frame itself. -/
theorem Sequence.statements {ts : List Tree} (h : Sequence w f c [] ts) (none : f.unset = []) :
    ∀ t ∈ ts, Statement w f c t := by
  have same : f.leaving [] = f := by rw [Frame.leaving, ← none]
  induction ts with
  | nil => exact List.forall_mem_nil _
  | cons t ts ih =>
    cases h with
    | cons fewer first rest =>
      obtain rfl := List.eq_nil_of_subset_nil fewer
      exact List.forall_mem_cons.mpr ⟨same ▸ first, ih rest⟩

/-- What is known of the calls whose values are handed on: the arguments of those that became jumps
set nothing. -/
def Calm (f : Frame) (calls : List Tree) : Prop :=
  ∀ own ∈ f.own, ∀ u ∈ calls, ∀ a ∈ u.argumentsTo own, a.Quiet

/-- A statement and what takes its place agree, with and without labels before them. -/
structure StatementAgrees (w : World) (f : Frame) (frames : List Frame) (T : Pending) (fuel : Nat)
    (t t' : Tree) : Prop where
  plain : ∀ c, Statement w f c t → ∀ j ≤ fuel,
    Sim w (f :: frames) (fun _ => True) (Ends w (f :: frames) c T) (execute w.limit j f.source t)
      fun k => execute w.limit k f.target t'
  labeled : ∀ c c' labels, LabeledBy labels (isLoop t) c c' → w.naming.loop ∉ labels →
    Statement w f c' t → ∀ j ≤ fuel,
    Sim w (f :: frames) (fun _ => True) (Ends w (f :: frames) c T)
      (executeLabeled w.limit j f.source labels t)
      fun k => executeLabeled w.limit k f.target labels t'

/-- Whether a tree is neither a loop nor a labeled statement. -/
def isSimple (t : Tree) : Bool := !isLoop t && !t.hasKind .labeledStatement

/-- A statement that is neither labeled nor a loop is run with its labels around it. -/
theorem executeLabeled_simple {limit env : Nat} {t : Tree} (simple : isSimple t = true) (k : Nat) :
    executeLabeled limit (k + 1) env labels t = labeled labels (execute limit k env t) := by
  simp only [isSimple, isLoop, Bool.and_eq_true, Bool.not_eq_true'] at simple
  rw [executeLabeled]
  · rw [if_neg (by simp [simple.1])]
  · rintro l label body rfl
    cases simple.2

/-- Without fuel nothing is done, so that a statement is looked at with some. -/
theorem StatementAgrees.ofSimple {t t' : Tree} (simple : isSimple t = true)
    (simple' : isSimple t' = true)
    (runs : ∀ c, Statement w f c t → ∀ j < fuel,
      Sim w (f :: frames) (fun _ => True) (Ends w (f :: frames) c T)
        (execute w.limit (j + 1) f.source t) fun k => execute w.limit k f.target t') :
    StatementAgrees w f frames T fuel t t' := by
  -- With no fuel nothing is known of the source; with some, the given simulation applies.
  have plain (c : Targets) (statement : Statement w f c t) (j : Nat) (hj : j ≤ fuel) :
      Sim w (f :: frames) (fun _ => True) (Ends w (f :: frames) c T)
        (execute w.limit j f.source t) fun k => execute w.limit k f.target t' := by
    cases j with
    | zero =>
      rw [execute]
      exact .exhausted
    | succ j => exact runs c statement j hj
  refine ⟨plain, fun c c' labels around _ statement j hj => ?_⟩
  have noLoop : isLoop t = false := by
    simp only [isSimple, Bool.and_eq_true, Bool.not_eq_true'] at simple
    exact simple.1
  rw [noLoop] at around
  cases j with
  | zero =>
    rw [executeLabeled]
    exact .exhausted
  | succ j =>
    refine .later ?_
    simp only [executeLabeled_simple simple, executeLabeled_simple simple']
    exact labeled_sim around (plain c' statement j (by omega))

/-- A loop is run without labels. -/
theorem execute_loop {limit env : Nat} {t : Tree} (loop : isLoop t = true) (k : Nat) :
    execute limit (k + 1) env t = executeLoop limit k env [] t := by
  cases t with
  | node l shape =>
    cases shape with
    | function form => cases form <;> cases loop
    | jump kind => cases kind <;> cases loop
    | whileStatement | doWhileStatement | forStatement => rw [execute] <;> simp
    | forEach domain => rw [execute] <;> simp
    | _ => cases loop
  | _ => cases loop

/-- Behind labels, a loop is run with them. -/
theorem executeLabeled_loop {limit env : Nat} {t : Tree} (loop : isLoop t = true) (k : Nat) :
    executeLabeled limit (k + 1) env labels t = executeLoop limit k env labels t := by
  rw [executeLabeled]
  · exact if_pos loop
  · rintro l label body rfl
    cases loop

/-- Loops agree if they do behind all labels. -/
theorem StatementAgrees.ofLoop {t t' : Tree} (loop : isLoop t = true) (loop' : isLoop t' = true)
    (runs : ∀ c c' labels, LabeledBy labels true c c' → w.naming.loop ∉ labels →
      Statement w f c' t → ∀ j < fuel,
      Sim w (f :: frames) (fun _ => True) (Ends w (f :: frames) c T)
        (executeLoop w.limit (j + 1) f.source labels t)
        fun k => executeLoop w.limit k f.target labels t') :
    StatementAgrees w f frames T fuel t t' := by
  -- As above, with the labels that stand around the loop.
  have passes (c c' : Targets) (labels : List Text) (around : LabeledBy labels true c c')
      (outside : w.naming.loop ∉ labels) (statement : Statement w f c' t) (j : Nat)
      (hj : j ≤ fuel) :
      Sim w (f :: frames) (fun _ => True) (Ends w (f :: frames) c T)
        (executeLoop w.limit j f.source labels t)
        fun k => executeLoop w.limit k f.target labels t' := by
    cases j with
    | zero =>
      rw [executeLoop]
      exact .exhausted
    | succ j => exact runs c c' labels around outside statement j hj
  constructor
  · intro c statement j hj
    cases j with
    | zero =>
      rw [execute]
      exact .exhausted
    | succ j =>
      refine .later ?_
      simp only [execute_loop loop, execute_loop loop']
      exact passes c c [] (.none true c) List.not_mem_nil statement j (by omega)
  · intro c c' labels around outside statement j hj
    rw [loop] at around
    cases j with
    | zero =>
      rw [executeLabeled]
      exact .exhausted
    | succ j =>
      refine .later ?_
      simp only [executeLabeled_loop loop, executeLabeled_loop loop']
      exact passes c c' labels around outside statement j (by omega)

/-! ## Declarations -/

/-- A declarator in the activation of a frame. Without an initial value, its variable is undefined. -/
structure Declarator (w : World) (f : Frame) (d : Tree) : Prop where
  wellFormed : ∃ checked c, WellFormed checked c d
  kind : d.hasKind .variableDeclarator = true
  fits : d.All (Fits w f)
  valueless : d.valueless ⊆ f.unset

/-- The name of an identifier is the text in it. -/
theorem nameOf_identifier (li : Option Location) (name : Tree) :
    Eval.nameOf (.node li (.identifier name)) = pure name := rfl

/-- Giving a variable its initial value. -/
def initialise (limit fuel env : Nat) (li : Option Location) (x : Text) (init : Tree) :
    Eval Value := do
  let v ← evaluate limit fuel env init
  writeName env (.text x) li v
  return v

/-- Starting a variable without an initial value does nothing. -/
theorem startVariable_of_absent {limit env : Nat} {ld : Option Location} {id init : Tree}
    (absent : init.isNull = true) (k : Nat) :
    startVariable limit (k + 1) env (.node ld (.variableDeclarator id init)) = return () := by
  have field : (Tree.node ld (.variableDeclarator id init)).field "init" = .ok init := rfl
  rw [startVariable, field]
  simp [Eval.attempt, absent]

/-- Starting a variable with an initial value is assigning it. -/
theorem startVariable_of_init {limit env : Nat} {ld li : Option Location} {x : Text} {init : Tree}
    (present : init.isNull = false) (k : Nat) :
    startVariable limit (k + 1) env
        (.node ld (.variableDeclarator (.node li (.identifier (.text x))) init)) =
      initialise limit k env li x init >>= fun _ => return () := by
  have first : (Tree.node ld
      (.variableDeclarator (.node li (.identifier (.text x))) init)).field "init" = .ok init := rfl
  have second : (Tree.node ld (.variableDeclarator (.node li (.identifier (.text x))) init)).field
      "id" = .ok (.node li (.identifier (.text x))) := rfl
  rw [startVariable, first, second]
  simp [initialise, Eval.attempt, present, nameOf_identifier, Tree.location?]

/-- A declarator with an initial value and the assignment that takes its place. -/
theorem declarator_sim (agree : ExpressionsAgree w f frames (fuel + 1)) (unheld : f.held = none)
    {ld li : Option Location} {x : Text} {init : Tree} (present : init.isNull = false)
    (declarator : Declarator w f
      (.node ld (.variableDeclarator (.node li (.identifier (.text x))) init))) :
    Sim w (f :: frames) (fun _ => True) (Throws w (f :: frames) {})
      (initialise w.limit fuel f.source li x init)
      fun k => evaluate w.limit k f.target
        (.node l (.assignment (.text plainAssignment) (.node li (.identifier (.text x))) init)) := by
  obtain ⟨checked, c, wellFormed⟩ := declarator.wellFormed
  -- The rewritten program assigns what the declarator initialises with, to a name that is visible.
  cases wellFormed with
  | variableDeclarator name kind part =>
    have operand : Operand w f init :=
      ⟨⟨⟨_, _, part present⟩, kind present,
        declarator.fits.child (Shape.mem_parts 1 rfl), .inl unheld⟩,
        declarator.fits.self.operands init (by simp [Tree.operands])⟩
    have idFits : Fits w f (.node li (.identifier (.text x))) :=
      (declarator.fits.child (Shape.mem_parts 0 rfl)).self
    have loose : IsTarget w f (.node li (.identifier (.text x))) :=
      declarator.fits.self.settings _ (by simp [Tree.settings, present])
    refine .later ?_
    simp only [evaluate, Tree.inline, if_true]
    refine .bind (agree fuel (by omega) init operand) fun v hv => ?_
    refine .bind (P := fun _ => True) (.later ?_) fun _ _ => .pure trivial
    simp only [assignTo]
    obtain ⟨assignable, settled⟩ := loose x rfl
    exact (writeName_sim li unheld (idFits.named x rfl) assignable settled hv).throws

/-! ## Whole activations -/

/-- Handing on the value of an expression, as a `return` does. -/
def handOn (limit fuel env : Nat) (e : Tree) : Eval Unit := do
  let v ← if e.isNull then pure .undefined else evaluate limit fuel env e
  throw (.returned v)

/-- Handing on the value of the last of some expressions. -/
def handOnLast (limit fuel env : Nat) (es : List Tree) (v : Value) : Eval Unit := do
  let v ← es.foldlM (fun _ e => evaluate limit fuel env e) v
  throw (.returned v)

/-- The jumps that took the place of tail calls agree with them. Here `last` is the scope at the end
of the body that runs. -/
structure TailsAgree (w : World) (f : Frame) (frames : List Frame) (T : Pending) (fuel : Nat)
    (last : Scope) : Prop where
  own : last.isTailRecursive = true → f.own = last.name
  jumps : last.isTailRecursive = true → ∀ l lc lf name args, last.name = some name →
    args.length ≤ last.params.length → callTemporaries last args ⊆ last.used →
    (∀ e ∈ args, Operand w f e) → (∀ e ∈ args, e.Quiet) → ∀ j ≤ fuel,
    Sim w (f :: frames) (fun _ => True) (Ends w (f :: frames) {} T)
      (handOn w.limit j f.source
        (.node lc (.call (.node lf (.identifier (.text name))) (.tuple args))))
      fun k => execute w.limit k f.target
        (.node l (.block (.tuple (callAssignments last args ++ [jumpBack w.naming]))))

/-- A piece of a body and what takes its place agree, for the activation of a frame. -/
def Edit.Agrees (w : World) (f : Frame) (frames : List Frame) (T : Pending) (fuel : Nat) :
    Edit → Prop
  | .returned _ e t' =>
    (e.isNull = false → Operand w f e) → Calm f (e.tailCalls false) → ∀ j ≤ fuel,
      Sim w (f :: frames) (fun _ => True) (Ends w (f :: frames) {} T)
        (handOn w.limit j f.source e) fun k => execute w.limit k f.target t'
  | .branch e t' =>
    Operand w f e → Calm f (e.tailCalls true) → ∀ j ≤ fuel,
      Sim w (f :: frames) (fun _ => True) (Ends w (f :: frames) {} T)
        (handOn w.limit j f.source e) fun k => execute w.limit k f.target t'
  | .branchItems es ts =>
    es ≠ [] → (∀ e ∈ es, Operand w f e) → Calm f (Tree.lastTailCalls es) → ∀ j ≤ fuel, ∀ v,
      Sim w (f :: frames) (fun _ => True) (Ends w (f :: frames) {} T)
        (handOnLast w.limit j f.source es v) fun k => ts.forM (execute w.limit k f.target)
  | .statement t t' => StatementAgrees w f frames T fuel t t'
  | .optionalStatement t t' =>
    t'.isNull = t.isNull ∧ (t.isNull = false → StatementAgrees w f frames T fuel t t')
  | .statements ts ts' | .start ts ts' =>
    ∀ c, (∀ t ∈ ts, Statement w f c t) → ∀ j ≤ fuel,
      Sim w (f :: frames) (fun _ => True) (Ends w (f :: frames) c T)
        (ts.forM (execute w.limit j f.source)) fun k => ts'.forM (execute w.limit k f.target)
  | .loopStart t t' =>
    (t.isNull = false → t.hasKind .variableDeclaration = false → Operand w f t) →
    (t.hasKind .variableDeclaration = true →
      (∃ checked c, WellFormed checked c t) ∧ t.All (Fits w f) ∧ t.valueless ⊆ f.unset) →
    ∀ j ≤ fuel,
      Sim w (f :: frames) (fun _ => True) (Throws w (f :: frames) {})
        (startLoop w.limit j f.source t) fun k => startLoop w.limit k f.target t'
  | .initial e e' =>
    (e.isNull = true → e' = .undefined) ∧
      (e.isNull = false → e.All (·.isFunction = false) → e' = e)
  | .declarators ds es =>
    (∀ d ∈ ds, Declarator w f d) → ∀ j ≤ fuel, ∀ v,
      Sim w (f :: frames) (fun _ => True) (Throws w (f :: frames) {})
        (ds.forM (startVariable w.limit j f.source))
        fun k => es.foldlM (fun _ e => evaluate w.limit k f.target e) v >>= fun _ => return ()
  | _ => True

/-- What takes the place of a statement in a row agrees with it as well. -/
theorem spliced_sim {E : Ending} {x : Eval Unit} {t' : Tree} {ts' : List Tree}
    (spliced : t'.spliced = .ok ts')
    (h : Sim w (f :: frames) (fun _ => True) E x fun k => execute w.limit k f.target t') :
    Sim w (f :: frames) (fun _ => True) E x fun k => ts'.forM (execute w.limit k f.target) := by
  by_cases block : t'.hasKind .blockStatement = true
  · obtain ⟨l, body, rfl⟩ := eq_block block
    have inner (k : Nat) : execute w.limit (k + 1) f.target (.node l (.block body)) =
        ts'.forM (execute w.limit k f.target) := by
      rw [execute]
      rw [Tree.spliced] at spliced
      rw [spliced]
      rfl
    have sooner := h.sooner
    simp only [inner] at sooner
    exact sooner
  · rw [spliced_of_hasKind (by simpa using block)] at spliced
    cases spliced
    simpa [List.forM] using h

/-- An expression of the rewritten program is the expression of the program. -/
theorem eq_of_walks {s s' : State} {e e' : Tree} (h : Walks w.naming s (.expression e e') s')
    (operand : Operand w f e) : e' = e ∧ s' = s :=
  h.keeps fun u hu => (operand.1.fits u hu).simple

/-- Handing on a value that is there is evaluating it and returning. -/
theorem handOn_present {limit env : Nat} {e : Tree} (present : e.isNull = false) (j : Nat) :
    handOn limit j env e = evaluate limit j env e >>= fun v => throw (.returned v) := by
  simp [handOn, present]

/-- An operand is not absent. -/
theorem isNull_of_operand {e : Tree} (operand : Operand w f e) : e.isNull = false := by
  obtain ⟨checked, c, wellFormed⟩ := operand.1.wellFormed
  cases wellFormed <;> rfl

/-- A value that is returned as it is. -/
theorem handOn_sim {e : Tree} (agree : ExpressionsAgree w f frames (fuel + 1))
    (operand : Operand w f e) :
    Sim w (f :: frames) (fun _ => True) (Ends w (f :: frames) {} T) (handOn w.limit fuel f.source e)
      fun k => execute w.limit k f.target (.node l (.returnStatement e)) := by
  have present := isNull_of_operand operand
  refine .later ?_
  simp only [handOn_present present, execute, present, Bool.false_eq_true, if_false]
  refine .bind (agree fuel (by omega) e operand).ends fun v hv => .throw fun m m' hm => ?_
  exact .inl ⟨rfl, hv, hm⟩

/-- A `return` without a value agrees with itself. -/
theorem returnNothing_sim :
    Sim w (f :: frames) (fun _ => True) (Ends w (f :: frames) {} T)
      (handOn w.limit fuel f.source .null)
      fun k => execute w.limit k f.target (.node l (.returnStatement .null)) := by
  refine .later ?_
  simp only [handOn, execute, Tree.isNull, if_true, pure_bind]
  exact .throw fun m m' hm => .inl ⟨rfl, rfl, hm⟩

/-- A conditional whose value is returned, and the `if` that takes its place. -/
theorem returnConditional_sim {lc : Option Location} {test consequent alternate t1 t2 : Tree}
    (agree : ExpressionsAgree w f frames (fuel + 1)) (testPart : Operand w f test)
    (consequentPart : Operand w f consequent) (alternatePart : Operand w f alternate)
    (thenPart : Sim w (f :: frames) (fun _ => True) (Ends w (f :: frames) {} T)
      (handOn w.limit fuel f.source consequent) fun k => execute w.limit k f.target t1)
    (elsePart : Sim w (f :: frames) (fun _ => True) (Ends w (f :: frames) {} T)
      (handOn w.limit fuel f.source alternate) fun k => execute w.limit k f.target t2)
    (present : t2.isNull = false) :
    Sim w (f :: frames) (fun _ => True) (Ends w (f :: frames) {} T)
      (handOn w.limit (fuel + 1) f.source (.node lc (.conditional test consequent alternate)))
      fun k => execute w.limit k f.target (.node l (.ifStatement test t1 t2)) := by
  -- A value that is handed on and the statement that returns it both leave by a `return`.
  rw [handOn_present (isNull_of_operand consequentPart)] at thenPart
  rw [handOn_present (isNull_of_operand alternatePart)] at elsePart
  rw [handOn_present rfl]
  refine .later ?_
  simp only [evaluate, execute, present, Bool.false_eq_true, if_false, bind_assoc]
  refine .bind (agree fuel (by omega) test testPart).ends fun v _ => ?_
  cases v.truthy with
  | true => exact thenPart
  | false => exact elsePart

/-- A walked branch is a node. -/
theorem isNull_of_branch {n : Naming} {s s' : State} {e t' : Tree}
    (h : Walks n s (.branch e t') s') : t'.isNull = false := by
  have returned {l : Option Location} (h : Walks n s (.returned l e t') s') : t'.isNull = false := by
    cases h with
    | returnNothing | returnConditional | returnValue => rfl
    | returnCall own parts converted =>
      obtain ⟨-, rfl, -⟩ := convertCall_ok.mp converted
      rfl
  cases h with
  | branchValue single part => exact returned part
  | branchSequence parts => rfl

/-- The temporaries that are used up are recorded in the scope. -/
theorem mem_used_useAll {names : List Text} {x : Text} (hx : x ∈ names) (a : Scope) :
    x ∈ (names.foldl Scope.use a).used := by
  induction names generalizing a with
  | nil => cases hx
  | cons name names ih =>
    rcases List.mem_cons.mp hx with rfl | hx
    · have here : x ∈ (a.use x).used := by
        unfold Scope.use
        split
        · rename_i h
          exact List.contains_iff_mem.mp h
        · exact List.mem_append_right _ List.mem_cons_self
      exact (Scope.Leads.useAll names (a.use x)).used.subset here
    · exact ih hx _

/-- A tail call in a scope, seen from the end of the body. -/
theorem TailsAgree.call {last : Scope} {s s' : State} {lc lf : Option Location} {name : Text}
    {args : List Tree} {t' : Tree} (tails : TailsAgree w f frames T fuel last)
    (own : s.scope.name = some name) (converted : convertCall w.naming l lc args s = .ok (t', s'))
    (leads : s'.scope.Leads last)
    (operand : Operand w f (.node lc (.call (.node lf (.identifier (.text name))) (.tuple args))))
    (calm : ∀ own ∈ f.own, ∀ a ∈ (Tree.node lc
      (.call (.node lf (.identifier (.text name))) (.tuple args))).argumentsTo own, a.Quiet) :
    ∀ j ≤ fuel,
      Sim w (f :: frames) (fun _ => True) (Ends w (f :: frames) {} T)
        (handOn w.limit j f.source
          (.node lc (.call (.node lf (.identifier (.text name))) (.tuple args))))
        fun k => execute w.limit k f.target t' := by
  obtain ⟨few, rfl, rfl⟩ := convertCall_ok.mp converted
  -- The scope at the end of the walk uses every temporary that this call does, so that its
  -- assignments are known there.
  have through : s.scope.Leads last :=
    (Scope.Leads.markTailRecursive (by simp [own])).trans ((Scope.Leads.useAll _ _).trans leads)
  have tail : last.isTailRecursive = true :=
    leads.tail ((Scope.Leads.useAll _ s.scope.markTailRecursive).tail rfl)
  have sameTemporaries : callTemporaries s.scope args = callTemporaries last args := by
    simp only [callTemporaries, temporariesOf, through.params, through.temporaries]
  have sameAssignments : callAssignments s.scope args = callAssignments last args := by
    simp only [callAssignments, sameTemporaries, through.params]
  have named : last.name = some name := through.name.trans own
  rw [sameAssignments]
  refine tails.jumps tail l lc lf name args named (through.params ▸ few) ?_ ?_ ?_
  · intro x hx
    rw [← sameTemporaries] at hx
    exact leads.used.subset (mem_used_useAll hx _)
  · obtain ⟨checked, c, wellFormed⟩ := operand.1.wellFormed
    cases wellFormed with
    | call kind part kinds parts =>
      exact fun e he => operand.1.item (Shape.mem_parts 1 rfl) he he
        (kinds e he) ⟨_, _, parts e he⟩
  · intro e he
    refine calm name ?_ e ?_
    · rw [tails.own tail, named]
      rfl
    · simpa [Tree.argumentsTo] using he

/-- The declarators of a declaration. -/
theorem declarators_of_declaration {ds : List Tree} {kind : Tree} {t : Tree}
    (eq : t = .node l (.variableDeclaration (.tuple ds) kind))
    (wellFormed : ∃ checked c, WellFormed checked c t) (fits : t.All (Fits w f))
    (valueless : t.valueless ⊆ f.unset) : ∀ d ∈ ds, Declarator w f d := by
  subst eq
  have row : (Tree.tuple ds).valueless ⊆ f.unset :=
    List.Subset.trans (Tree.valueless_part (Shape.mem_parts 0 rfl) rfl) valueless
  obtain ⟨checked, c, wellFormed⟩ := wellFormed
  cases wellFormed with
  | variableDeclaration some kinds parts =>
    intro d hd
    exact ⟨⟨_, _, parts d hd⟩, kinds d hd,
      (fits.child (Shape.mem_parts 0 rfl)).item hd,
      List.Subset.trans (Tree.valueless_item hd) row⟩

/-- A declaration and the sequence of assignments that takes its place. -/
theorem declaration_sim {ds es : List Tree} {kind : Tree} {ls : Option Location}
    (parts : ∀ v, Sim w (f :: frames) (fun _ => True) (Throws w (f :: frames) {})
      (ds.forM (startVariable w.limit fuel f.source))
      fun k => es.foldlM (fun _ e => evaluate w.limit k f.target e) v >>= fun _ => return ()) :
    Sim w (f :: frames) (fun _ => True) (Throws w (f :: frames) {})
      (execute w.limit (fuel + 1) f.source (.node l (.variableDeclaration (.tuple ds) kind)))
      fun k => evaluate w.limit k f.target (.node ls (.sequence (.tuple es))) >>= fun _ =>
        return () := by
  refine .later ?_
  simp only [execute, evaluate, Tree.items, Eval.attempt, pure_bind]
  exact parts .undefined

/-- What takes the place of a `return` has no loop and no label. -/
theorem isSimple_of_returned {n : Naming} {s s' : State} {e t' : Tree}
    (h : Walks n s (.returned l e t') s') : isSimple t' = true := by
  cases h with
  | returnNothing | returnConditional | returnValue => rfl
  | returnCall own parts converted =>
    obtain ⟨-, rfl, -⟩ := convertCall_ok.mp converted
    rfl

/-- A statement that is walked is there, and so is what takes its place. -/
theorem isNull_of_statement {n : Naming} {s s' : State} {t t' : Tree}
    (h : Walks n s (.statement t t') s') : t.isNull = false ∧ t'.isNull = false := by
  cases h with
  | returnStatement part =>
    refine ⟨rfl, ?_⟩
    cases part with
    | returnNothing | returnConditional | returnValue => rfl
    | returnCall own parts converted =>
      obtain ⟨-, rfl, -⟩ := convertCall_ok.mp converted
      rfl
  | _ => exact ⟨rfl, rfl⟩

/-- Two rows are run one after the other. -/
theorem forM_append {α : Type} {ts us : List α} {g : α → Eval PUnit} :
    (ts ++ us).forM g = ts.forM g >>= fun _ => us.forM g := by
  induction ts with
  | nil => simp [List.forM]
  | cons t ts ih => simp only [List.cons_append, List.forM, ih, bind_assoc]

/-- A loop that starts with an expression evaluates it. -/
theorem startLoop_expression (limit env : Nat) {e : Tree} (present : e.isNull = false)
    (other : e.hasKind .variableDeclaration = false) (k : Nat) :
    startLoop limit k env e = evaluate limit k env e >>= fun _ => return () := by
  simp [startLoop, present, other]

/-- A loop that starts with a declaration runs it. -/
theorem startLoop_declaration {limit env : Nat} {declarations kind : Tree} (k : Nat) :
    startLoop limit k env (.node l (.variableDeclaration declarations kind)) =
      execute limit k env (.node l (.variableDeclaration declarations kind)) := rfl

/-- A `return` hands on its value. -/
theorem execute_return {limit env : Nat} {e : Tree} (k : Nat) :
    execute limit (k + 1) env (.node l (.returnStatement e)) = handOn limit k env e := by
  simp only [execute, handOn]

/-- A statement of an expression evaluates it. -/
theorem execute_expression {limit env : Nat} {e : Tree} (k : Nat) :
    execute limit (k + 1) env (.node l (.expressionStatement e)) =
      evaluate limit k env e >>= fun _ => return () := by
  rw [execute]

/-- The directive that makes code strict does nothing else. -/
theorem directive_sim {E : Ending} {t : Tree} (directive : t.isStrictDirective = true)
    {x : Eval Unit} {y : Nat → Eval Unit} {m m' : Machine}
    (h : SimAt w frames (fun _ => True) E x y m m') (env : Nat) :
    SimAt w frames (fun _ => True) E (execute w.limit fuel env t >>= fun _ => x) y m m' := by
  unfold Tree.isStrictDirective Tree.isDirective at directive
  split at directive
  · cases fuel with
    | zero =>
      rw [execute]
      exact fun counts => (counts .exhausted m rfl).elim
    | succ j =>
      simp only [execute, bind_assoc, pure_bind]
      cases j with
      | zero =>
        rw [evaluate]
        exact fun counts => (counts .exhausted m rfl).elim
      | succ j =>
        simp only [evaluate, literalOf, Value.ofTree?, pure_bind]
        exact h
  · cases directive

/-- A branch that is no sequence hands on the same calls as a value that is returned. -/
theorem tailCalls_single {e : Tree} (single : e.hasKind .sequenceExpression = false) :
    e.tailCalls true = e.tailCalls false := by
  cases e with
  | node l shape =>
    cases shape with
    | sequence => cases single
    | _ => simp [Tree.tailCalls]
  | _ => simp [Tree.tailCalls]

/-- The calls at the end of a sequence are those of its last part. -/
theorem lastTailCalls_cons {e : Tree} {es : List Tree} (more : es ≠ []) :
    Tree.lastTailCalls (e :: es) = Tree.lastTailCalls es := by
  cases es with
  | nil => exact (more rfl).elim
  | cons => simp [Tree.lastTailCalls]

/-- Where some calls are calm, fewer of them are. -/
theorem Calm.mono {calls calls' : List Tree} (h : Calm f calls) (sub : calls' ⊆ calls) :
    Calm f calls' :=
  fun own hown u hu => h own hown u (sub hu)

/-- What the pieces of a body agree by: calls with less fuel agree, no variable is held, none is
called like the undefined value, and the jumps in place of tail calls agree with these. -/
structure Ground (w : World) (f : Frame) (frames : List Frame) (T : Pending) (fuel : Nat)
    (last : Scope) : Prop where
  calls : CallsAgree w fuel
  unheld : f.held = none
  unnamed : Tree.undefinedName ∉ f.names
  shown : w.hides Tree.undefinedName = false
  tails : TailsAgree w f frames T fuel last

/-- Expressions agree. -/
theorem Ground.expressions {last : Scope} (g : Ground w f frames T fuel last) :
    ExpressionsAgree w f frames (fuel + 1) := evaluate_sim g.calls

/-- So they do with less fuel. -/
theorem Ground.upTo {last : Scope} (g : Ground w f frames T fuel last) {j : Nat} (hj : j ≤ fuel) :
    ExpressionsAgree w f frames (j + 1) := fun i hi => g.expressions i (by omega)

/-- A piece agrees with what takes its place if the scope after its walk leads to the one at the end
of the body. What is known of that scope is known of every part, since the scopes lead there one
from the other. -/
def Agreeing (w : World) (f : Frame) (frames : List Frame) (T : Pending) (fuel : Nat) (last : Scope)
    (edit : Edit) (s' : State) : Prop :=
  s'.scope.Leads last → Edit.Agrees w f frames T fuel edit

-- There is one lemma for each rule of the walk of statements, under the name of the rule.
namespace Agreeing

variable {last scope : Scope} {s s1 s2 s3 s' : State} {l lb lc ld le lf li ln : Option Location}
  {name op : Text} {kind : JumpKind} {domain : Domain}
  {id e e' t t' argument left left' right right' test test' consequent consequent' alternate
    alternate' init init' step step' body body' : Tree}
  {es es' ss ss' args args' ts ts' ts'' ds : List Tree}

/-- There is nothing to evaluate. -/
theorem returnNothing :
    Agreeing w f frames T fuel last (.returned l .null (.node l (.returnStatement .null))) s := by
  exact fun _ _ _ j hj => returnNothing_sim

/-- A call of the function itself sets its parameters and goes round the loop, which is what the
call would do. -/
theorem returnCall (g : Ground w f frames T fuel last) (own : s.scope.name = some name)
    (parts : Walks w.naming s (.expressions args args') s1)
    (converted : convertCall w.naming l lc args' s1 = .ok (t', s')) :
    Agreeing w f frames T fuel last
      (.returned l (.node lc (.call (.node lf (.identifier (.text name))) (.tuple args))) t') s' := by
  intro leads operand calm
  have operand := operand rfl
  obtain ⟨rfl, rfl⟩ : args' = args ∧ s1 = s := parts.keeps fun e he u hu =>
    (operand.1.fits.child (Shape.mem_parts 1 rfl)).item he u hu |>.simple
  -- Here the program calls itself, and what takes its place jumps back.
  exact g.tails.call own converted leads operand fun own hown =>
    calm own hown _ (by simp [Tree.tailCalls])

/-- Only the branch that is taken is handed on. -/
theorem returnConditional (g : Ground w f frames T fuel last)
    (testPart : Walks w.naming (s.tally Stats.addTernary) (.expression test test') s1)
    (elsePart : Walks w.naming s2 (.branch alternate alternate') s')
    (ih1 : Agreeing w f frames T fuel last (.branch consequent consequent') s2)
    (ih2 : Agreeing w f frames T fuel last (.branch alternate alternate') s') :
    Agreeing w f frames T fuel last
      (.returned l (.node lc (.conditional test consequent alternate))
        (.node l (.ifStatement test' consequent' alternate'))) s' := by
  intro leads operand calm j hj
  have operand := operand rfl
  obtain ⟨checked, c, wellFormed⟩ := operand.1.wellFormed
  cases wellFormed with
  -- The test is an operand and stays as it is; the branches are walked as returned values.
  | conditional testKind testWell kind well elseKind elseWell =>
    have testOperand := operand.1.operand (Shape.mem_parts 0 rfl)
      (by simp [Tree.operands]) testKind ⟨_, _, testWell⟩
    have thenOperand := operand.1.operand (Shape.mem_parts 1 rfl)
      (by simp [Tree.operands]) kind ⟨_, _, well⟩
    have elseOperand := operand.1.operand (Shape.mem_parts 2 rfl)
      (by simp [Tree.operands]) elseKind ⟨_, _, elseWell⟩
    obtain ⟨rfl, rfl⟩ := eq_of_walks testPart testOperand
    cases j with
    | zero =>
      rw [handOn_present rfl, evaluate]
      exact .exhausted_bind
    | succ j =>
      refine returnConditional_sim (g.upTo (by omega)) testOperand thenOperand elseOperand ?_ ?_
        (isNull_of_branch elsePart)
      · exact ih1 (elsePart.leads.trans leads) thenOperand
          (calm.mono (by simp [Tree.tailCalls])) j (by omega)
      · exact ih2 leads elseOperand (calm.mono (by simp [Tree.tailCalls])) j (by omega)

/-- All other values are evaluated alike and returned. -/
theorem returnValue (g : Ground w f frames T fuel last)
    (part : Walks w.naming s (.expression e e') s') :
    Agreeing w f frames T fuel last (.returned l e (.node l (.returnStatement e'))) s' := by
  intro leads operand calm j hj
  have present : e.isNull = false := by cases part <;> rfl
  obtain ⟨rfl, rfl⟩ := eq_of_walks part (operand present)
  exact handOn_sim (g.upTo hj) (operand present)

/-- A branch that is no sequence is handed on as a `return` of it is. -/
theorem branchValue (single : e.hasKind .sequenceExpression = false)
    (ih : Agreeing w f frames T fuel last (.returned e.location? e t') s') :
    Agreeing w f frames T fuel last (.branch e t') s' := by
  intro leads operand calm
  refine ih leads (fun _ => operand) ?_
  rw [← tailCalls_single single]
  exact calm

/-- A sequence evaluates its parts in a block, and hands on the last one. -/
theorem branchSequence (ih : Agreeing w f frames T fuel last (.branchItems es ts) s') :
    Agreeing w f frames T fuel last
      (.branch (.node l (.sequence (.tuple es))) (Tree.new (.block (.tuple ts)))) s' := by
  intro leads operand calm j hj
  rw [handOn_present rfl]
  obtain ⟨checked, c, wellFormed⟩ := operand.1.wellFormed
  cases wellFormed with
  | sequence some kinds wells =>
    cases j with
    | zero =>
      rw [evaluate]
      exact .exhausted_bind
    | succ j =>
      have operands : ∀ e ∈ es, Operand w f e := fun e he =>
        operand.1.item (Shape.mem_parts 0 rfl) he he (kinds e he)
          ⟨_, _, wells e he⟩
      refine .later ?_
      simp only [evaluate, execute, Tree.new, Tree.items, Eval.attempt, pure_bind]
      exact ih leads some operands (by simpa [Tree.tailCalls] using calm) j (by omega) .undefined

/-- The last part of a sequence is handed on. -/
theorem branchLast (spliced : t'.spliced = .ok ts)
    (ih : Agreeing w f frames T fuel last (.returned e.location? e t') s') :
    Agreeing w f frames T fuel last (.branchItems [e] ts) s' := by
  intro leads _ operands calm j hj v
  have operand := operands e List.mem_cons_self
  have handed := ih leads (fun _ => operand) (by simpa [Tree.lastTailCalls] using calm) j hj
  rw [handOn_present (isNull_of_operand operand)] at handed
  simp only [handOnLast, List.foldlM_cons, List.foldlM_nil, bind_pure]
  exact spliced_sim spliced handed

/-- The parts before it are evaluated for what they do. -/
theorem branchMore (g : Ground w f frames T fuel last) (more : es ≠ [])
    (part : Walks w.naming s (.expression e e') s1)
    (ih : Agreeing w f frames T fuel last (.branchItems es ts) s') :
    Agreeing w f frames T fuel last
      (.branchItems (e :: es) (.node e.location? (.expressionStatement e') :: ts)) s' := by
  intro leads _ operands calm j hj v
  rw [List.forall_mem_cons] at operands
  obtain ⟨rfl, rfl⟩ := eq_of_walks part operands.1
  rw [lastTailCalls_cons more] at calm
  have rest (v : Value) := (ih leads more operands.2 calm j hj v).sooner
  refine .later ?_
  simp only [handOnLast, List.foldlM_cons, bind_assoc, List.forM, execute, pure_bind]
  exact .bind (g.expressions j (by omega) _ operands.1).ends fun v _ => rest v

/-- Functions within functions are not among the statements of a body. -/
theorem functionDeclaration :
    Agreeing w f frames T fuel last
      (.statement
        (.node l (.function .declaration id (.tuple ps) (.node lb (.block (.tuple ss)))))
        (.node l (.function .declaration id (.tuple ps) (.node lb (.block (.tuple ss')))))) s' := by
  intro _
  refine .ofSimple rfl rfl fun c statement => ?_
  cases statement.fits.self.simple

/-- The statements of a block agree with those of the new one. -/
theorem block (ih : Agreeing w f frames T fuel last (.statements ss ss') s') :
    Agreeing w f frames T fuel last
      (.statement (.node l (.block (.tuple ss))) (.node l (.block (.tuple ss')))) s' := by
  intro leads
  refine .ofSimple rfl rfl fun c statement j hj => ?_
  refine .later ?_
  simp only [execute, Tree.items, Eval.attempt, pure_bind]
  exact ih leads c statement.items j (by omega)

/-- A `return` agrees by what it hands on. -/
theorem returnStatement (g : Ground w f frames T fuel last)
    (part : Walks w.naming s (.returned l argument t') s')
    (ih : Agreeing w f frames T fuel last (.returned l argument t') s') :
    Agreeing w f frames T fuel last (.statement (.node l (.returnStatement argument)) t') s' := by
  intro leads
  refine .ofSimple rfl (isSimple_of_returned part) fun c statement j hj => ?_
  rw [execute_return]
  obtain ⟨wellFormed, kind, fits, -⟩ := statement
  cases wellFormed with
  | returnStatement kind well =>
    refine (ih leads (fun present => ?_) fits.self.calm j (by omega)).outward
    exact ⟨⟨⟨_, _, well present⟩, kind present,
      fits.child (Shape.mem_parts 0 rfl), .inl g.unheld⟩,
      fits.self.operands argument (by simp [Tree.operands])⟩

/-- Declarations that give values agree with the assignments in their place. -/
theorem variableDeclaration (ih : Agreeing w f frames T fuel last (.declarators ds es) s') :
    Agreeing w f frames T fuel last
      (.statement (.node l (.variableDeclaration (.tuple ds) (.text Tree.varKind)))
        (.node l (.expressionStatement (Tree.new (.sequence (.tuple es))))))
      (s'.tally (Stats.addVars es.length)) := by
  intro leads
  refine .ofSimple rfl rfl fun c statement j hj => ?_
  have declarators := declarators_of_declaration rfl ⟨_, _, statement.wellFormed⟩
    statement.fits statement.valueless
  refine .later ?_
  simp only [execute_expression]
  exact (declaration_sim (ih leads declarators j (by omega))).ends

/-- An `if` agrees by its branches, of which the second may be absent. -/
theorem ifStatement (g : Ground w f frames T fuel last)
    (testPart : Walks w.naming s (.expression test test') s1)
    (elsePart : Walks w.naming s2 (.optionalStatement alternate alternate') s')
    (ih1 : Agreeing w f frames T fuel last (.statement consequent consequent') s2)
    (ih2 : Agreeing w f frames T fuel last (.optionalStatement alternate alternate') s') :
    Agreeing w f frames T fuel last
      (.statement (.node l (.ifStatement test consequent alternate))
        (.node l (.ifStatement test' consequent' alternate'))) s' := by
  intro leads
  refine .ofSimple rfl rfl fun c statement j hj => ?_
  cases statement.wellFormed with
  -- The test is an operand and stays as it is, so that both sides take the same branch.
  | ifStatement testKind testWell kind well elseKind elseWell =>
    have testOperand := statement.operand g.unheld (Shape.mem_parts 0 rfl)
      (by simp [Tree.operands]) testKind testWell
    obtain ⟨rfl, rfl⟩ := eq_of_walks testPart testOperand
    have thenHere := (ih1 (elsePart.leads.trans leads)).plain c
      (statement.part (Shape.mem_parts 1 rfl) kind well rfl) j (by omega)
    obtain ⟨absent, elseAgrees⟩ := ih2 leads
    refine .later ?_
    simp only [execute, absent]
    refine .bind (g.expressions j (by omega) _ testOperand).ends fun v _ =>
      .ite (fun _ => thenHere) fun _ => optional_sim trivial fun present => ?_
    exact (elseAgrees present).plain c
      (statement.part (Shape.mem_parts 2 rfl) (elseKind present) (elseWell present) rfl) j (by omega)

/-- A `for` agrees by its start and its body. -/
theorem forStatement (g : Ground w f frames T fuel last)
    (testPart : Walks w.naming s1 (.optional test test') s2)
    (stepPart : Walks w.naming s2 (.optional step step') s3)
    (part : Walks w.naming s3 (.statement body body') s')
    (ih1 : Agreeing w f frames T fuel last (.loopStart init init') s1)
    (ih2 : Agreeing w f frames T fuel last (.statement body body') s') :
    Agreeing w f frames T fuel last
      (.statement (.node l (.forStatement init test step body))
        (.node l (.forStatement init' test' step' body'))) s' := by
  intro leads
  refine .ofLoop rfl rfl fun c c' labels around outside statement j hj => ?_
  have fits := statement.fits
  cases statement.wellFormed with
  -- Test and step are operands and stay as they are; start and body are simulated.
  | forStatement initKind initWell testKind testWell stepKind stepWell kind well =>
    have testOperand (present : test.isNull = false) := statement.operand g.unheld
      (Shape.mem_parts 1 rfl) (by simp [Tree.operands]) (testKind present)
      (testWell present)
    have stepOperand (present : step.isNull = false) := statement.operand g.unheld
      (Shape.mem_parts 2 rfl) (by simp [Tree.operands])
      (stepKind present) (stepWell present)
    obtain ⟨rfl, rfl⟩ : test' = test ∧ s2 = s1 := testPart.keeps fun present u hu =>
      ((testOperand present).1.fits u hu).simple
    obtain ⟨rfl, rfl⟩ : step' = step ∧ s3 = s2 := stepPart.keeps fun present u hu =>
      ((stepOperand present).1.fits u hu).simple
    have bodyHere := (ih2 leads).plain c'.inBody
      (statement.part (Shape.mem_parts 3 rfl) kind well rfl) j (by omega)
    have startHere := ih1 (part.leads.trans leads)
      (fun present noDeclaration => statement.operand g.unheld (Shape.mem_parts 0 rfl)
        (by simp [Tree.operands])
        ((initKind present).resolve_left (by simp [noDeclaration])) (initWell present))
      (fun declaration => by
        have present : init.isNull = false := by
          cases init with
          | null => cases declaration
          | _ => rfl
        exact ⟨⟨_, _, initWell present⟩, fits.child (Shape.mem_parts 0 rfl),
          List.Subset.trans (Tree.valueless_part (Shape.mem_parts 0 rfl) rfl)
            statement.valueless⟩) j (by omega)
    exact for_sim (g.upTo (by omega)) around outside startHere.ends testOperand stepOperand
      bodyHere

/-- The variable in the head of a loop is set in each pass. -/
theorem forEachDeclared (g : Ground w f frames T fuel last)
    (rightPart : Walks w.naming ((s.rescope (·.addLocal name)).tally (Stats.addVars 1))
      (.expression right right') s1)
    (ih : Agreeing w f frames T fuel last (.statement body body') s') :
    Agreeing w f frames T fuel last
      (.statement
        (.node l (.forEach domain
          (.node ld (.variableDeclaration
            (.tuple [.node le (.variableDeclarator (.node li (.identifier (.text name))) .null)])
            (.text Tree.varKind))) right body))
        (.node l (.forEach domain (.node li (.identifier (.text name))) right' body'))) s' := by
  intro leads
  refine .ofLoop (by cases domain <;> rfl) (by cases domain <;> rfl)
    fun c c' labels around outside statement j hj => ?_
  have fits := statement.fits
  cases statement.wellFormed with
  | forEach target => cases target
  -- The declared variable is a plain target on both sides, bound since the function was entered.
  | forEachDeclared nameWell rightKind rightWell kind well =>
    have rightOperand := statement.operand g.unheld (Shape.mem_parts 1 rfl)
      (by simp [Tree.operands]) rightKind rightWell
    obtain ⟨rfl, rfl⟩ := eq_of_walks rightPart rightOperand
    have bodyHere := (ih leads).plain c'.inBody (statement.forEachBody kind well) j (by omega)
    have declarations := fits.child List.mem_cons_self
    have declarator := (declarations.child List.mem_cons_self).item List.mem_cons_self
    have idExpression : Expression w f (.node li (.identifier (.text name))) := by
      refine ⟨⟨true, {}, ?_⟩, rfl, declarator.child (Shape.mem_parts 0 rfl), .inl g.unheld⟩
      cases nameWell with
      | mk _ spelled => exact .identifier spelled
    exact forEach_sim (g.upTo (by omega)) around outside g.unheld rfl rfl idExpression rfl
      (fits.self.settings _ (by simp [Tree.settings, Tree.headTargets, Tree.targets])) rightOperand
      bodyHere

/-- So is a name or a member in the head of a loop. -/
theorem forEach (g : Ground w f frames T fuel last) (target : left.isAssignable = true)
    (leftPart : Walks w.naming s (.expression left left') s1)
    (rightPart : Walks w.naming s1 (.expression right right') s2)
    (ih : Agreeing w f frames T fuel last (.statement body body') s') :
    Agreeing w f frames T fuel last
      (.statement (.node l (.forEach domain left right body))
        (.node l (.forEach domain left' right' body'))) s' := by
  intro leads
  refine .ofLoop (by cases domain <;> rfl) (by cases domain <;> rfl)
    fun c c' labels around outside statement j hj => ?_
  have fits := statement.fits
  cases statement.wellFormed with
  | forEachDeclared => cases target
  -- Target and collection stay as they are; only the body is simulated.
  | forEach targetWell leftWell rightKind rightWell kind well =>
    have leftExpression : Expression w f left :=
      ⟨⟨_, _, leftWell⟩, isExpression_of_isAssignable target,
        fits.child (Shape.mem_parts 0 rfl), .inl g.unheld⟩
    obtain ⟨rfl, rfl⟩ : left' = left ∧ s1 = s := leftPart.keeps fun u hu =>
      (leftExpression.fits u hu).simple
    have rightOperand := statement.operand g.unheld (Shape.mem_parts 1 rfl)
      (by simp [Tree.operands]) rightKind rightWell
    obtain ⟨rfl, rfl⟩ := eq_of_walks rightPart rightOperand
    have bodyHere := (ih leads).plain c'.inBody (statement.forEachBody kind well) j (by omega)
    obtain ⟨same, head⟩ : loopTarget left' = pure left' ∧ left'.headTargets = [left'] := by
      rcases eq_of_isAssignable target with ⟨_, _, rfl⟩ | ⟨_, _, _, _, rfl⟩ <;> exact ⟨rfl, rfl⟩
    exact forEach_sim (g.upTo (by omega)) around outside g.unheld same same leftExpression target
      (fits.self.settings _ (by simp [Tree.settings, head])) rightOperand bodyHere

/-- A `while` agrees by its body. -/
theorem whileStatement (g : Ground w f frames T fuel last)
    (testPart : Walks w.naming s (.expression test test') s1)
    (ih : Agreeing w f frames T fuel last (.statement body body') s') :
    Agreeing w f frames T fuel last
      (.statement (.node l (.whileStatement test body))
        (.node l (.whileStatement test' body'))) s' := by
  intro leads
  refine .ofLoop rfl rfl fun c c' labels around outside statement j hj => ?_
  cases statement.wellFormed with
  | whileStatement testKind testWell kind well =>
    have testOperand := statement.operand g.unheld (Shape.mem_parts 0 rfl)
      (by simp [Tree.operands]) testKind testWell
    obtain ⟨rfl, rfl⟩ := eq_of_walks testPart testOperand
    have bodyHere := (ih leads).plain c'.inBody
      (statement.part (Shape.mem_parts 1 rfl) kind well rfl) j (by omega)
    exact while_sim (g.upTo (by omega)) around outside testOperand bodyHere

/-- A `do` agrees by its body. -/
theorem doWhileStatement (g : Ground w f frames T fuel last)
    (testPart : Walks w.naming s1 (.expression test test') s')
    (ih : Agreeing w f frames T fuel last (.statement body body') s1) :
    Agreeing w f frames T fuel last
      (.statement (.node l (.doWhileStatement body test)) (.node l (.doWhileStatement body' test')))
      s' := by
  intro leads
  refine .ofLoop rfl rfl fun c c' labels around outside statement j hj => ?_
  cases statement.wellFormed with
  | doWhileStatement testKind testWell kind well =>
    have testOperand := statement.operand g.unheld (Shape.mem_parts 1 rfl)
      (by simp [Tree.operands]) testKind testWell
    obtain ⟨rfl, rfl⟩ := eq_of_walks testPart testOperand
    have bodyHere := (ih leads).plain c'.inBody
      (statement.part (Shape.mem_parts 0 rfl) kind well rfl) j (by omega)
    exact doWhile_sim (g.upTo (by omega)) around outside testOperand bodyHere

/-- An expression is evaluated alike. -/
theorem expressionStatement (g : Ground w f frames T fuel last)
    (part : Walks w.naming s (.expression e e') s') :
    Agreeing w f frames T fuel last
      (.statement (.node l (.expressionStatement e)) (.node l (.expressionStatement e'))) s' := by
  intro leads
  refine .ofSimple rfl rfl fun c statement j hj => ?_
  cases statement.wellFormed with
  | expressionStatement kind well =>
    have operand := statement.operand g.unheld (Shape.mem_parts 0 rfl)
      (by simp [Tree.operands]) kind well
    obtain ⟨rfl, rfl⟩ := eq_of_walks part operand
    refine .later ?_
    simp only [execute_expression]
    exact .bind (g.expressions j (by omega) _ operand).ends fun _ _ => .pure trivial

/-- An empty statement does nothing. -/
theorem emptyStatement :
    Agreeing w f frames T fuel last
      (.statement (.node l .emptyStatement) (.node l .emptyStatement)) s := by
  intro leads
  refine .ofSimple rfl rfl fun c statement j hj => ?_
  refine .later ?_
  simp only [execute]
  exact .pure trivial

/-- A jump without a label ends the loop or the pass around it, in both runs. -/
theorem bareJump :
    Agreeing w f frames T fuel last
      (.statement (.node l (.jump kind .null)) (.node l (.jump kind .null))) s := by
  intro leads
  refine .ofSimple (by cases kind <;> rfl) (by cases kind <;> rfl) fun c statement j hj => ?_
  cases statement.wellFormed with
  | bareJump inLoop =>
    refine .later ?_
    cases kind with
    | breaks =>
      simp only [execute, labelOf, Tree.isNull, if_true, pure_bind]
      exact .throw fun m m' hm => .inl ⟨rfl, fun loops => .inl ⟨rfl, inLoop loops⟩, hm⟩
    | continues =>
      simp only [execute, labelOf, Tree.isNull, if_true, pure_bind]
      exact .throw fun m m' hm => .inl ⟨rfl, fun loops => .inl ⟨rfl, inLoop loops⟩, hm⟩

/-- A jump to a label ends what has the label, in both runs. -/
theorem jump :
    Agreeing w f frames T fuel last
      (.statement (.node l (.jump kind (.node ln (.identifier (.text name)))))
        (.node l (.jump kind (.node ln (.identifier (.text name)))))) s := by
  intro leads
  refine .ofSimple (by cases kind <;> rfl) (by cases kind <;> rfl) fun c statement j hj => ?_
  have found : labelOf (.node ln (.identifier (.text name))) = pure (.text name) := rfl
  cases statement.wellFormed with
  | jump spelled reaches =>
    refine .later ?_
    cases kind with
    | breaks =>
      simp only [execute, found, pure_bind]
      exact .throw fun m m' hm =>
        .inl ⟨rfl, fun loops => .inr ⟨name, rfl, reaches loops⟩, hm⟩
    | continues =>
      simp only [execute, found, pure_bind]
      exact .throw fun m m' hm =>
        .inl ⟨rfl, fun loops => .inr ⟨name, rfl, reaches loops⟩, hm⟩

/-- A labeled statement agrees by its body, around which there is one more label in both runs. -/
theorem labeled (free : w.naming.reserves name = false)
    (ih : Agreeing w f frames T fuel last (.statement body body') s') :
    Agreeing w f frames T fuel last
      (.statement (.node l (.labeled (.node ln (.identifier (.text name))) body))
        (.node l (.labeled (.node ln (.identifier (.text name))) body'))) s' := by
  intro leads
  have other : w.naming.loop ≠ name := by
    rintro rfl
    simp [Naming.reserves] at free
  -- A labelled statement is met alone or below other labels. Its body is met below one more.
  have inner {c c' : Targets} {labels : List Text} (around : LabeledBy labels false c c')
      (outside : w.naming.loop ∉ labels)
      (statement : Statement w f c'
        (.node l (.labeled (.node ln (.identifier (.text name))) body))) (j : Nat) (hj : j ≤ fuel) :
      Sim w (f :: frames) (fun _ => True) (Ends w (f :: frames) c T)
        (executeLabeled w.limit j f.source (labels ++ [name]) body)
        fun k => executeLabeled w.limit k f.target (labels ++ [name]) body' := by
    cases statement.wellFormed with
    | labeled spelled fresh kind well =>
      refine (ih leads).labeled c (c'.labeled name (isLoop body)) (labels ++ [name])
        (around.more name (isLoop body)) ?_
        (statement.part (Shape.mem_parts 1 rfl) kind well rfl) j hj
      rw [List.mem_append, List.mem_singleton]
      exact not_or.mpr ⟨outside, other⟩
  constructor
  · intro c statement j hj
    cases j with
    | zero =>
      rw [execute]
      exact .exhausted
    | succ j =>
      refine .later ?_
      simp only [execute, nameOf_identifier, keyOf_text, pure_bind]
      exact inner (.none false c) List.not_mem_nil statement j (by omega)
  · intro c c' labels around outside statement j hj
    cases j with
    | zero =>
      rw [executeLabeled]
      exact .exhausted
    | succ j =>
      refine .later ?_
      simp only [executeLabeled, nameOf_identifier, keyOf_text, pure_bind]
      exact inner around outside statement j (by omega)

/-- A branch that is absent stays absent. -/
theorem noAlternate : Agreeing w f frames T fuel last (.optionalStatement .null .null) s := by
  refine fun _ => ⟨rfl, fun present => ?_⟩
  cases present

/-- One that is there agrees as a statement. -/
theorem someAlternate (part : Walks w.naming s (.statement t t') s')
    (ih : Agreeing w f frames T fuel last (.statement t t') s') :
    Agreeing w f frames T fuel last (.optionalStatement t t') s' := by
  intro leads
  obtain ⟨present, present'⟩ := isNull_of_statement part
  exact ⟨present'.trans present.symm, fun _ => ih leads⟩

/-- Nothing is run. -/
theorem noStatements : Agreeing w f frames T fuel last (.statements [] []) s := by
  exact fun _ _ _ _ _ => .pure trivial

/-- Statements agree one after the other, blocks in them opened. -/
theorem moreStatements (spliced : t'.spliced = .ok ts')
    (parts : Walks w.naming s1 (.statements ts ts'') s')
    (ih1 : Agreeing w f frames T fuel last (.statement t t') s1)
    (ih2 : Agreeing w f frames T fuel last (.statements ts ts'') s') :
    Agreeing w f frames T fuel last (.statements (t :: ts) (ts' ++ ts'')) s' := by
  intro leads c statements j hj
  rw [List.forall_mem_cons] at statements
  have first := (ih1 (parts.leads.trans leads)).plain c statements.1 j hj
  have rest := ih2 leads c statements.2 j hj
  simp only [List.forM, forM_append]
  exact .bind (spliced_sim spliced first) fun _ _ => rest

/-- A directive is taken off the start of the body, where it does nothing. -/
theorem startStrict (strict : t.isStrictDirective = true)
    (ih : Agreeing w f frames T fuel last (.statements ts ts') s') :
    Agreeing w f frames T fuel last (.start (t :: ts) ts') s' := by
  intro leads c statements j hj
  rw [List.forall_mem_cons] at statements
  simp only [List.forM]
  exact fun m m' hm => directive_sim strict (ih leads c statements.2 j hj m m' hm) _

/-- A body without a directive is run from its first statement on. -/
theorem startPlain (ih : Agreeing w f frames T fuel last (.statements ts ts') s') :
    Agreeing w f frames T fuel last (.start ts ts') s' := by
  exact ih

/-- A start that is absent stays absent. -/
theorem noStart : Agreeing w f frames T fuel last (.loopStart .null .null) s := by
  intro leads _ _ j hj
  exact .pure trivial

/-- An expression at the start of a `for` is evaluated alike. -/
theorem startExpression (g : Ground w f frames T fuel last)
    (part : Walks w.naming s (.expression e e') s') :
    Agreeing w f frames T fuel last (.loopStart e e') s' := by
  intro leads operand declaration j hj
  have present : e.isNull = false := by cases part <;> rfl
  have other : e.hasKind .variableDeclaration = false := by cases part <;> rfl
  obtain ⟨rfl, rfl⟩ := eq_of_walks part (operand present other)
  simp only [startLoop_expression _ _ present other]
  exact .bind (g.expressions j (by omega) _ (operand present other)) fun _ _ => .pure trivial

/-- A declaration at the start of a `for` agrees with the assignments in its place. -/
theorem startDeclaration (ih : Agreeing w f frames T fuel last (.declarators ds es) s') :
    Agreeing w f frames T fuel last
      (.loopStart (.node l (.variableDeclaration (.tuple ds) (.text Tree.varKind)))
        (Tree.new (.sequence (.tuple es))))
      (s'.tally (Stats.addVars es.length)) := by
  intro leads _ declaration j hj
  obtain ⟨wellFormed, fits, valueless⟩ := declaration rfl
  have declarators := declarators_of_declaration rfl wellFormed fits valueless
  -- The declaration has become one sequence of assignments.
  have sequence := startLoop_expression w.limit f.target
    (e := Tree.new (.sequence (.tuple es))) rfl rfl
  simp only [startLoop_declaration, sequence]
  cases j with
  | zero =>
    rw [execute]
    exact .exhausted
  | succ j => exact declaration_sim (ih leads declarators j (by omega))

/-- A declaration without a value sets `undefined`. -/
theorem noInitial : Agreeing w f frames T fuel last (.initial .null .undefined) s :=
  fun _ => ⟨fun _ => rfl, Bool.noConfusion⟩

/-- An initial value is evaluated alike. -/
theorem initial (part : Walks w.naming s (.expression e e') s') :
    Agreeing w f frames T fuel last (.initial e e') s' := by
  refine fun _ => ⟨fun absent => ?_, fun _ simple => (part.keeps simple).1⟩
  cases part <;> cases absent

/-- Nothing is declared. -/
theorem noDeclarators : Agreeing w f frames T fuel last (.declarators [] []) s := by
  exact fun _ _ _ _ _ => .pure trivial

/-- A declared variable is set to its initial value, if it has one, and then the others are. -/
theorem moreDeclarators (g : Ground w f frames T fuel last)
    (parts : Walks w.naming s1 (.declarators ds es) s')
    (ih1 : Agreeing w f frames T fuel last (.initial init init') s1)
    (ih2 : Agreeing w f frames T fuel last (.declarators ds es) s') :
    Agreeing w f frames T fuel last
      (.declarators (.node l (.variableDeclarator (.node li (.identifier (.text name))) init) :: ds)
        (.node l (.assignment (.text plainAssignment) (.node li (.identifier (.text name))) init')
          :: es)) s' := by
  intro leads declarators j hj v
  rw [List.forall_mem_cons] at declarators
  have declarator := declarators.1
  obtain ⟨reset, kept⟩ := ih1 (parts.leads.trans leads)
  cases j with
  | zero =>
    simp only [List.forM, startVariable]
    exact .exhausted_bind
  | succ j =>
    have rest (v : Value) := ih2 leads declarators.2 (j + 1) hj v
    cases present : init.isNull with
    | true =>
      -- The declarator does nothing, and the assignment sets a variable that is undefined already.
      obtain rfl := reset present
      have valueless : name ∈ f.unset := declarator.valueless (by
        rw [Tree.valueless_declarator, if_pos present]
        exact List.mem_singleton_self name)
      have visible : w.hides name = false :=
        (declarator.fits.child (Shape.mem_parts 0 rfl)).self.named name rfl
      simp only [List.forM, startVariable_of_absent present, List.foldlM_cons, bind_assoc, pure_bind]
      intro m m' hm
      have unset := hm.unset (List.cons_subset.mpr ⟨valueless, List.nil_subset _⟩)
        (List.forall_mem_singleton.mpr visible) g.unnamed g.shown
      exact (rest .undefined m m' hm).congr _ 2 fun k =>
        bind_of_ok (evaluate_unset unset List.mem_cons_self rfl k)
    | false =>
      obtain rfl := kept present fun u hu =>
        (declarator.fits.child (Shape.mem_parts 1 rfl) u hu).simple
      simp only [List.forM, startVariable_of_init present, List.foldlM_cons, bind_assoc, pure_bind]
      exact .bind (declarator_sim (g.upTo (by omega)) g.unheld present declarator) fun v _ => rest v

end Agreeing

/-- The pieces of a body agree with what takes their place, as far as calls with less fuel do and
the jumps in place of tail calls agree with these. -/
theorem agrees_of_walks {last : Scope} {s s' : State} {edit : Edit}
    (given : Ground w f frames T fuel last) (h : Walks w.naming s edit s') :
    s'.scope.Leads last → Edit.Agrees w f frames T fuel edit := by
  change Agreeing w f frames T fuel last edit s'
  -- One lemma for each rule; what remains are edits of which nothing is claimed.
  induction h with
  | returnNothing => exact .returnNothing
  | returnCall own parts converted _ => exact .returnCall given own parts converted
  | returnConditional testPart _ elsePart _ ih₂ ih₃ =>
    exact .returnConditional given testPart elsePart ih₂ ih₃
  | returnValue _ part _ => exact .returnValue given part
  | branchValue single _ ih => exact .branchValue single ih
  | branchSequence _ ih => exact .branchSequence ih
  | branchLast _ spliced ih => exact .branchLast spliced ih
  | branchMore more part _ _ ih₂ => exact .branchMore given more part ih₂
  | functionDeclaration _ _ _ => exact .functionDeclaration
  | block _ ih => exact .block ih
  | returnStatement part ih => exact .returnStatement given part ih
  | variableDeclaration _ ih => exact .variableDeclaration ih
  | ifStatement testPart _ elsePart _ ih₂ ih₃ => exact .ifStatement given testPart elsePart ih₂ ih₃
  | forStatement _ testPart stepPart part ih₁ _ _ ih₄ =>
    exact .forStatement given testPart stepPart part ih₁ ih₄
  | forEachDeclared _ rightPart _ _ ih₂ => exact .forEachDeclared given rightPart ih₂
  | forEach target leftPart rightPart _ _ _ ih₃ => exact .forEach given target leftPart rightPart ih₃
  | whileStatement testPart _ _ ih₂ => exact .whileStatement given testPart ih₂
  | doWhileStatement _ testPart ih₁ _ => exact .doWhileStatement given testPart ih₁
  | expressionStatement part _ => exact .expressionStatement given part
  | emptyStatement => exact .emptyStatement
  | bareJump => exact .bareJump
  | jump => exact .jump
  | labeled free _ ih => exact .labeled free ih
  | noAlternate => exact .noAlternate
  | alternate part ih => exact .someAlternate part ih
  | noStatements => exact .noStatements
  | moreStatements _ spliced parts ih₁ ih₂ => exact .moreStatements spliced parts ih₁ ih₂
  | startStrict strict _ ih => exact .startStrict strict ih
  | startPlain _ _ ih => exact .startPlain ih
  | noStart => exact .noStart
  | startExpression part _ => exact .startExpression given part
  | startDeclaration _ ih => exact .startDeclaration ih
  | noInitial => exact .noInitial
  | initial part => exact .initial part
  | noDeclarators => exact .noDeclarators
  | moreDeclarators _ _ parts ih₁ ih₂ => exact .moreDeclarators given parts ih₁ ih₂
  | _ => exact fun _ => trivial

end Simulation

end TailLoop
