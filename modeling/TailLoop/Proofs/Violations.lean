import TailLoop.Pipeline
import TailLoop.Proofs.Elimination.Preservation
import TailLoop.Proofs.Reading.Programs

/-!
# The violations that a program can have

A tree that is well-formed with its jumps left aside can only be refused for a jump
(`failsByJumps_of_wellFormed`): the check goes through its fields, each of which holds what it has
to hold, until a jump has no target or a label is declared within itself. Since reading gives such
trees and elimination keeps them, this is all that the optimizer can ever report about the tree that
it has made of a text (`optimizeTree_violations`).
-/

namespace TailLoop

/-- Whether a violation is about a jump or the label of one. -/
def Violation.isJump : Violation → Bool
  | .outsideLoop _ | .notLoopLabel _ | .undefinedLabel _ | .duplicateLabel _ => true
  | _ => false

/-- Whether a tree is refused for a jump. -/
def CheckError.isJump : CheckError → Bool
  | .invalid violation _ _ => violation.isJump
  | .malformed _ => false

namespace Validity

/-- An outcome that is no failure, or one because of a jump. -/
def OnlyJumps (o : Outcome) : Prop := ∀ e, o = .error e → e.isJump = true

/-- The check of a tree fails because of a jump at most, whatever surrounds the tree. -/
def FailsByJumps (t : Tree) : Prop := ∀ c, OnlyJumps (visit t c)

/-! ## Outcomes of parts -/

section Outcomes

variable {c : Context} {l : Option Location} {field : Text} {role : Role} {value : Tree}

/-- A number of nodes is no violation. -/
theorem onlyJumps_ok (n : Nat) : OnlyJumps (.ok n) := nofun

/-- What passes is no violation. -/
theorem onlyJumps_of_passes {o : Outcome} (h : Passes o) : OnlyJumps o := by
  obtain ⟨n, rfl⟩ := h
  exact onlyJumps_ok n

/-- A violation by a jump is one. -/
theorem onlyJumps_fail {v : Violation} (h : v.isJump = true) : OnlyJumps (fail c l v) := by
  rintro e ⟨⟩
  exact h

/-- Of two outcomes in sequence, the first failure counts. -/
theorem onlyJumps_bind {a b : Outcome} (ha : OnlyJumps a) (hb : OnlyJumps b) :
    OnlyJumps (do let n ← a; let m ← b; return n + m) := by
  cases a with
  | error e =>
    rintro _ ⟨⟩
    exact ha e rfl
  | ok n =>
    cases b with
    | error e =>
      rintro _ ⟨⟩
      exact hb e rfl
    | ok m => exact onlyJumps_ok _

/-- A check of nothing fails by nothing. -/
theorem onlyJumps_nil : OnlyJumps (counted []) := onlyJumps_ok 1

/-- Checks in order fail by jumps only if each of them does. -/
theorem onlyJumps_cons {part : Outcome} {rest : List Outcome} (first : OnlyJumps part)
    (others : OnlyJumps (counted rest)) : OnlyJumps (counted (part :: rest)) :=
  onlyJumps_bind first others

/-- What a role allows is a node of a kind that it accepts. -/
theorem kind_of_allows (kind : role.allows value = true) :
    ∃ k, value.kind? = some k ∧ role.accepts k = true :=
  (Option.any_eq_true role.accepts value.kind?).mp kind

/-- A place that holds a node of its role fails as the node does. -/
theorem onlyJumps_required (kind : role.allows value = true) (part : FailsByJumps value) :
    OnlyJumps (required c l field role value (visit value)) := by
  obtain ⟨k, found, accepted⟩ := kind_of_allows kind
  unfold required
  simp only [found, if_pos accepted]
  exact part _

/-- A field that may be empty fails by jumps only, if what it holds is of its role and does. -/
theorem onlyJumps_optional (kind : value.isNull = false → role.allows value = true)
    (part : value.isNull = false → FailsByJumps value) :
    OnlyJumps (optional c l field role value (visit value)) := by
  unfold optional
  cases absent : value.isNull with
  | true => exact onlyJumps_ok 0
  | false => exact onlyJumps_required (kind absent) (part absent)

/-- Items of a role fail by jumps only if each of them does. -/
theorem onlyJumps_rowItems {items : List Tree} (kinds : ∀ t ∈ items, role.allows t = true)
    (parts : ∀ t ∈ items, FailsByJumps t) (index : Nat) :
    OnlyJumps (rowItems c l field role index (visitItems items)) := by
  induction items generalizing index with
  | nil => exact onlyJumps_ok 0
  | cons t rest ih =>
    rw [List.forall_mem_cons] at kinds parts
    obtain ⟨k, found, accepted⟩ := kind_of_allows kinds.1
    rw [visitItems, rowItems]
    simp only [found, if_pos accepted]
    exact onlyJumps_bind (parts.1 _) (ih kinds.2 parts.2 (index + 1))

/-- So does a row of them. -/
theorem onlyJumps_row {items : List Tree} (kinds : ∀ t ∈ items, role.allows t = true)
    (parts : ∀ t ∈ items, FailsByJumps t) :
    OnlyJumps (row c l field role (.tuple items) (visitRow (.tuple items))) :=
  onlyJumps_rowItems kinds parts 0

/-- So does a row that needs an item and has one. -/
theorem onlyJumps_nonEmptyRow {items : List Tree} (some : items ≠ [])
    (kinds : ∀ t ∈ items, role.allows t = true) (parts : ∀ t ∈ items, FailsByJumps t) :
    OnlyJumps (nonEmptyRow c l field role (.tuple items) (visitRow (.tuple items))) := by
  cases items with
  | nil => exact (some rfl).elim
  | cons t rest => exact onlyJumps_row kinds parts

/-! Jumps and labels are the parts that can fail. -/

/-- A jump without a label may lack its loop. -/
theorem onlyJumps_bareJump (kind : JumpKind) : OnlyJumps (bareJump c l kind) := by
  unfold bareJump
  split
  · exact onlyJumps_ok 0
  · exact onlyJumps_fail rfl

/-- A jump may lack the target of its label. -/
theorem onlyJumps_jumpTarget (kind : JumpKind) (name : Text) :
    OnlyJumps (jumpTarget c l kind name) := by
  unfold jumpTarget
  split
  · exact onlyJumps_fail rfl
  · split
    · exact onlyJumps_ok 0
    · exact onlyJumps_fail rfl

/-- A label may be one of those around it. -/
theorem onlyJumps_freshLabel (name : Text) : OnlyJumps (freshLabel c l name) := by
  unfold freshLabel
  split
  · exact onlyJumps_fail rfl
  · exact onlyJumps_ok 0

end Outcomes

/-! ## Outcomes of nodes -/

/-- A name does not fail. -/
theorem failsByJumps_of_isName {t : Tree} (name : IsName t) : FailsByJumps t := by
  intro c
  exact onlyJumps_of_passes ((passes_name_iff t c).mpr name).2

/-- The role of a name allows it. -/
theorem allows_of_isName {what : Text} {t : Tree} (name : IsName t) :
    Role.allows ⟨(· == .identifier), what⟩ t = true := by
  obtain ⟨l, spelled⟩ := name
  rfl

section Nodes

variable {c : Context} {l : Option Location} {field : Text}

/-- A field that holds a name does not fail. -/
theorem onlyJumps_requiredName {what : Text} {t : Tree} (name : IsName t) :
    OnlyJumps (required c l field ⟨(· == .identifier), what⟩ t (visit t)) :=
  onlyJumps_of_passes ((passes_requiredName c l field what t).mpr name)

/-- An operator of the table does not fail. -/
theorem onlyJumps_operator {table : List Text} {op : Text} (known : op ∈ table) :
    OnlyJumps (operator c l table (.text op)) :=
  onlyJumps_of_passes ((passes_operator c l table _).mpr ⟨op, rfl, known⟩)

/-- A target that can be assigned to does not fail. -/
theorem onlyJumps_assignable {t : Tree} (target : t.isAssignable = true) :
    OnlyJumps (assignable c l field t) :=
  onlyJumps_of_passes ((passes_assignable c l field t).mpr target)

/-- A block fails by jumps only if its statements do. -/
theorem failsByJumps_block {ss : List Tree} (kinds : ∀ s ∈ ss, s.isStatement = true)
    (parts : ∀ s ∈ ss, FailsByJumps s) : FailsByJumps (.node l (.block (.tuple ss))) := by
  intro c
  rw [visit]
  exact onlyJumps_cons (onlyJumps_row kinds parts) onlyJumps_nil

/-- A declarator fails by jumps only if its initial value does. -/
theorem failsByJumps_declarator {id init : Tree} (name : IsName id)
    (kind : init.isNull = false → init.isExpression = true)
    (part : init.isNull = false → FailsByJumps init) :
    FailsByJumps (.node l (.variableDeclarator id init)) := by
  intro c
  rw [visit]
  exact onlyJumps_cons (onlyJumps_requiredName name)
    (onlyJumps_cons (onlyJumps_optional kind part) onlyJumps_nil)

/-- A declaration fails by jumps only if its declarators do. -/
theorem failsByJumps_declaration {ds : List Tree} (some : ds ≠ [])
    (kinds : ∀ d ∈ ds, d.hasKind .variableDeclarator = true) (parts : ∀ d ∈ ds, FailsByJumps d) :
    FailsByJumps (.node l (.variableDeclaration (.tuple ds) (.text Tree.varKind))) := by
  intro c
  rw [visit]
  have kind := onlyJumps_of_passes ((passes_declarationKind c l _).mpr rfl)
  have kinds' : ∀ d ∈ ds, Role.declarator.allows d = true := fun d hd =>
    (any_kind_eq_hasKind d _).trans (kinds d hd)
  exact onlyJumps_cons kind (onlyJumps_cons (onlyJumps_nonEmptyRow some kinds' parts) onlyJumps_nil)

/-- A target that is no declaration is looked at as any target of an assignment. -/
theorem loopTarget_of_isAssignable {left : Tree} (target : left.isAssignable = true) :
    loopTarget c l left = assignable c l "left" left := by
  unfold loopTarget
  split
  · cases target
  · rfl

end Nodes

/-- A tree that is well-formed with its jumps left aside is refused for a jump at most. -/
theorem failsByJumps_of_wellFormed {c : Targets} {t : Tree} (h : WellFormed false c t) :
    FailsByJumps t := by
  -- The outcome of a node is that of its fields, one after the other. Only jumps and labels meet a
  -- field that may fail by itself; every other field passes or fails as the nodes below it.
  induction h with
  | program kinds _ ih | array kinds _ ih =>
    intro c
    rw [visit]
    exact onlyJumps_cons (onlyJumps_row kinds ih) onlyJumps_nil
  | block kinds _ ih => exact failsByJumps_block kinds ih
  | @function _ l form _ ps lb ss named name params kinds _ ih =>
    intro c
    have row : OnlyJumps (row c.inFunction l "params" .parameter (.tuple ps) (visitRow _)) :=
      onlyJumps_row (fun p hp => allows_of_isName (params p hp))
        fun p hp => failsByJumps_of_isName (params p hp)
    have body : OnlyJumps (required c.inFunction l "body" .functionBody
        (.node lb (.block (.tuple ss))) (visit _)) :=
      onlyJumps_required rfl (failsByJumps_block kinds ih)
    have inner := onlyJumps_cons row (onlyJumps_cons body onlyJumps_nil)
    cases form with
    | declaration =>
      rw [visit]
      exact onlyJumps_cons (onlyJumps_requiredName (named rfl)) inner
    | expression =>
      rw [visit]
      exact onlyJumps_cons (onlyJumps_optional (fun h => allows_of_isName (name h))
        fun h => failsByJumps_of_isName (name h)) inner
  | returnStatement kind _ ih =>
    intro c
    rw [visit]
    exact onlyJumps_cons (onlyJumps_optional kind ih) onlyJumps_nil
  | variableDeclaration some kinds _ ih => exact failsByJumps_declaration some kinds ih
  | variableDeclarator name kind _ ih => exact failsByJumps_declarator name kind ih
  | ifStatement testKind _ kind _ elseKind _ ihTest ih ihElse =>
    intro c
    rw [visit]
    exact onlyJumps_cons (onlyJumps_required testKind ihTest) (onlyJumps_cons
      (onlyJumps_required kind ih) (onlyJumps_cons (onlyJumps_optional elseKind ihElse)
        onlyJumps_nil))
  | @forStatement _ _ init _ _ _ initKind _ testKind _ stepKind _ kind _ ihInit ihTest ihStep ih =>
    intro c
    rw [visit]
    have start : init.isNull = false → Role.loopStart.allows init = true := fun h => by
      rw [allows_loopStart, Bool.or_eq_true]
      exact initKind h
    exact onlyJumps_cons (onlyJumps_optional start ihInit) (onlyJumps_cons
      (onlyJumps_optional testKind ihTest) (onlyJumps_cons (onlyJumps_optional stepKind ihStep)
        (onlyJumps_cons (onlyJumps_required kind ih) onlyJumps_nil)))
  | @forEachDeclared _ _ _ ld le id _ _ name rightKind _ kind _ ihRight ih =>
    intro c
    rw [visit]
    have declarator : FailsByJumps (.node le (.variableDeclarator id .null)) :=
      failsByJumps_declarator name (by simp [Tree.isNull]) (by simp [Tree.isNull])
    have left : FailsByJumps (.node ld (.variableDeclaration (.tuple
        [.node le (.variableDeclarator id .null)]) (.text Tree.varKind))) :=
      failsByJumps_declaration (by simp) (List.forall_mem_singleton.mpr rfl)
        (List.forall_mem_singleton.mpr declarator)
    exact onlyJumps_cons (onlyJumps_ok 0) (onlyJumps_cons (onlyJumps_required rfl left)
      (onlyJumps_cons (onlyJumps_required rightKind ihRight)
        (onlyJumps_cons (onlyJumps_required kind ih) onlyJumps_nil)))
  | @forEach _ _ _ left _ _ target _ rightKind _ kind _ ihLeft ihRight ih =>
    intro c
    rw [visit, loopTarget_of_isAssignable target]
    have start : Role.loopStart.allows left = true := by
      rw [allows_loopStart, isExpression_of_isAssignable target, Bool.or_true]
    exact onlyJumps_cons (onlyJumps_assignable target) (onlyJumps_cons
      (onlyJumps_required start ihLeft) (onlyJumps_cons (onlyJumps_required rightKind ihRight)
        (onlyJumps_cons (onlyJumps_required kind ih) onlyJumps_nil)))
  | whileStatement testKind _ kind _ ihTest ih =>
    intro c
    rw [visit]
    exact onlyJumps_cons (onlyJumps_required testKind ihTest)
      (onlyJumps_cons (onlyJumps_required kind ih) onlyJumps_nil)
  | doWhileStatement testKind _ kind _ ihTest ih =>
    intro c
    rw [visit]
    exact onlyJumps_cons (onlyJumps_required kind ih)
      (onlyJumps_cons (onlyJumps_required testKind ihTest) onlyJumps_nil)
  | expressionStatement kind _ ih =>
    intro c
    rw [visit]
    exact onlyJumps_cons (onlyJumps_required kind ih) onlyJumps_nil
  | emptyStatement =>
    intro c
    rw [visit]
    exact onlyJumps_nil
  | bareJump =>
    intro c
    rw [visit]
    exact onlyJumps_cons (onlyJumps_bareJump _) onlyJumps_nil
  | jump spelled =>
    intro c
    rw [visit]
    exact onlyJumps_cons (onlyJumps_requiredName (.mk _ spelled))
      (onlyJumps_cons (onlyJumps_jumpTarget _ _) onlyJumps_nil)
  | labeled spelled _ kind _ ih =>
    intro c
    rw [visit]
    exact onlyJumps_cons (onlyJumps_requiredName (.mk _ spelled)) (onlyJumps_cons
      (onlyJumps_freshLabel _) (onlyJumps_cons (onlyJumps_required kind ih) onlyJumps_nil))
  | identifier spelled => exact failsByJumps_of_isName (.mk _ spelled)
  | literal plain =>
    intro c
    rw [visit]
    exact onlyJumps_cons (onlyJumps_of_passes ((passes_literalValue c _ _).mpr plain)) onlyJumps_nil
  | call kind _ kinds _ ih ihs =>
    intro c
    rw [visit]
    exact onlyJumps_cons (onlyJumps_required kind ih)
      (onlyJumps_cons (onlyJumps_row kinds ihs) onlyJumps_nil)
  | member kind _ name ih =>
    intro c
    rw [visit]
    exact onlyJumps_cons (onlyJumps_required kind ih)
      (onlyJumps_cons (onlyJumps_requiredName name) onlyJumps_nil)
  | computedMember kind _ keyKind _ ih ihKey =>
    intro c
    rw [visit]
    exact onlyJumps_cons (onlyJumps_required kind ih)
      (onlyJumps_cons (onlyJumps_required keyKind ihKey) onlyJumps_nil)
  | conditional testKind _ kind _ elseKind _ ihTest ih ihElse =>
    intro c
    rw [visit]
    exact onlyJumps_cons (onlyJumps_required testKind ihTest) (onlyJumps_cons
      (onlyJumps_required kind ih) (onlyJumps_cons (onlyJumps_required elseKind ihElse)
        onlyJumps_nil))
  | assignment known target _ kind _ ihLeft ih =>
    intro c
    rw [visit]
    exact onlyJumps_cons (onlyJumps_operator known) (onlyJumps_cons (onlyJumps_assignable target)
      (onlyJumps_cons (onlyJumps_required (isExpression_of_isAssignable target) ihLeft)
        (onlyJumps_cons (onlyJumps_required kind ih) onlyJumps_nil)))
  | sequence some kinds _ ih =>
    intro c
    rw [visit]
    exact onlyJumps_cons (onlyJumps_nonEmptyRow some kinds ih) onlyJumps_nil
  | binary known leftKind _ kind _ ihLeft ih | logical known leftKind _ kind _ ihLeft ih =>
    intro c
    rw [visit]
    exact onlyJumps_cons (onlyJumps_operator known) (onlyJumps_cons
      (onlyJumps_required leftKind ihLeft) (onlyJumps_cons (onlyJumps_required kind ih)
        onlyJumps_nil))
  | unary known kind _ ih =>
    intro c
    rw [visit]
    exact onlyJumps_cons (onlyJumps_operator known)
      (onlyJumps_cons (onlyJumps_required kind ih) onlyJumps_nil)
  | update known target _ ih =>
    intro c
    rw [visit]
    exact onlyJumps_cons (onlyJumps_operator known) (onlyJumps_cons (onlyJumps_assignable target)
      (onlyJumps_cons (onlyJumps_required (isExpression_of_isAssignable target) ih) onlyJumps_nil))

end Validity

/-! ## The optimizer -/

open Validity

/-- The check of the optimizer fails on the tree that elimination gives for the one that was
read. -/
theorem validate_of_optimizeTree {file source : Text} {e : CheckError}
    (h : (optimizeTree {} file source).1 = .error (.checking e)) :
    ∃ t t' stats, Source.parse file source = .ok t ∧ t.eliminateTailCalls {} = .ok (t', stats) ∧
      t'.validate = .error e := by
  -- The checks run last, after the reading and the rewriting.
  unfold optimizeTree readProgram at h
  cases read : Source.parse file source with
  | error error =>
    rw [read] at h
    cases h
  | ok t =>
    simp only [read, Except.mapError, Settings.passes, if_true, runPasses, Pass.run] at h
    cases eliminated : t.eliminateTailCalls {} with
    | error refusal =>
      rw [eliminated] at h
      cases h
    | ok result =>
      simp only [eliminated] at h
      cases checked : result.1.validate with
      | ok count =>
        rw [checked] at h
        cases h
      | error error =>
        rw [checked] at h
        cases h
        exact ⟨t, result.1, result.2, rfl, eliminated, checked⟩

/-- Elimination keeps a program well-formed but for its jumps. -/
theorem eliminateTailCalls_wellFormed {t t' : Tree} {stats : Elimination.Stats}
    (wf : WellFormed false {} t) (eliminated : t.eliminateTailCalls {} = .ok (t', stats)) :
    WellFormed false {} t' :=
  (Elimination.eliminates_of_ok wf eliminated).wellFormed (by decide) (by decide) wf

/-- All that the check of the optimizer can report about the tree that it has made of a text is a
jump: one without label outside of a loop, a label that does not enclose the jump, a `continue` to a
label that is not on a loop, or a label within a statement of the same label. Every other rule of
the check holds everywhere in the tree that is read and in the tree after elimination, whether or
not their jumps have targets. -/
theorem optimizeTree_violations (file source : Text) :
    (∀ e, (optimizeTree {} file source).1 = .error (.checking e) →
      ∃ violation path location,
        e = .invalid violation path location ∧ violation.isJump = true) ∧
    ∀ t, Source.parse file source = .ok t →
      WellFormed false {} t ∧
        ∀ t' stats, t.eliminateTailCalls {} = .ok (t', stats) → WellFormed false {} t' := by
  constructor
  · intro e h
    obtain ⟨t, t', stats, read, eliminated, refused⟩ := validate_of_optimizeTree h
    have wf := eliminateTailCalls_wellFormed (Source.parse_wellFormed read {}) eliminated
    -- A tree that is well-formed but for its jumps can fail only by one of them.
    have jump : e.isJump = true := failsByJumps_of_wellFormed wf {} e refused
    cases e with
    | invalid violation path location => exact ⟨violation, path, location, rfl, jump⟩
    | malformed fault => cases jump
  · intro t read
    have wf := Source.parse_wellFormed read {}
    exact ⟨wf, fun t' stats eliminated => eliminateTailCalls_wellFormed wf eliminated⟩

/-- A `break` outside of a loop is such a report. -/
example : (Tree.new (.program (.tuple [Tree.new (.jump .breaks .null)]))).validate =
    .error (.invalid (.outsideLoop .breaks) [.field "body", .item 0] none) := rfl

end TailLoop
