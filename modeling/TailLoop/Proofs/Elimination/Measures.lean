import TailLoop.Proofs.Elimination.Scopes
import TailLoop.Proofs.Functions

/-!
# Measures of trees

A measure lists what a tree holds, such as its functions or the names that it declares, part by
part. Elimination moves most nodes around as it needs them: it wraps expressions into statements and
sequences, opens blocks, and puts arguments into assignments. To a measure that passes over such
nodes it is all the same (`Measure.Same`). What takes the place of a converted call holds what the
arguments hold (`Measure.Same.callAssignments`), and resets hold nothing, so that they can be dropped
(`Measure.Same.dropResets`).
-/

namespace TailLoop

/-- Forms of nodes that elimination adds and drops as it needs them. The others are programs,
functions, declarations, jumps and what jumps refer to. -/
def Shape.isQuiet {α : Type} : Shape α → Bool
  | .program _ | .function .. | .returnStatement _ | .variableDeclaration .. | .variableDeclarator ..
  | .jump .. | .labeled .. | .generic .. => false
  | _ => true

namespace Elimination

open Tree

/-- What trees hold, part by part. Quiet nodes hold what their fields hold. -/
structure Measure (β : Type) where
  /-- What a tree holds. -/
  of : Tree → List β
  plain : ∀ {t : Tree}, t.isPlain = true → of t = []
  row : ∀ ts : List Tree, of (.tuple ts) = ts.flatMap of
  quiet : ∀ {l : Option Location} {shape : Shape Tree}, shape.isQuiet = true →
    of (.node l shape) = shape.parts.flatMap of

/-- Two rows hold the same. -/
def Measure.Same {β : Type} (μ : Measure β) (ts us : List Tree) : Prop :=
  ts.flatMap μ.of = us.flatMap μ.of

namespace Measure.Same

variable {β : Type} {μ : Measure β} {l : Option Location} {shape : Shape Tree}
  {ts us vs ws : List Tree}

/-- Rows measure the same as themselves. -/
theorem refl (ts : List Tree) : μ.Same ts ts := rfl

/-- Measuring the same goes both ways. -/
theorem symm (h : μ.Same ts us) : μ.Same us ts := Eq.symm h

/-- Measuring the same carries over. -/
theorem trans (h : μ.Same ts us) (h' : μ.Same us vs) : μ.Same ts vs := Eq.trans h h'

/-- Rows that measure the same, one after the other. -/
theorem append (h : μ.Same ts us) (h' : μ.Same vs ws) : μ.Same (ts ++ vs) (us ++ ws) := by
  unfold Measure.Same at h h' ⊢
  rw [List.flatMap_append, List.flatMap_append, h, h']

/-- A quiet node stands for its fields. -/
theorem node (h : shape.isQuiet = true) : μ.Same [.node l shape] shape.parts := by
  unfold Measure.Same
  rw [List.flatMap_singleton, μ.quiet h]

/-- A row stands for its items. -/
theorem row (ts : List Tree) : μ.Same [.tuple ts] ts := by
  unfold Measure.Same
  rw [List.flatMap_singleton, μ.row]

/-- Trees without nodes hold nothing. -/
theorem atom {t : Tree} (h : t.isPlain = true) : μ.Same [t] [] := by
  unfold Measure.Same
  rw [List.flatMap_singleton, μ.plain h, List.flatMap_nil]

/-- One tree and a row. -/
theorem cons {t : Tree} (h : μ.Same [t] vs) (h' : μ.Same ts us) : μ.Same (t :: ts) (vs ++ us) :=
  append h h'

/-- A name measures nothing. -/
theorem identifier {name : Text} : μ.Same [.node l (.identifier (.text name))] [] :=
  (node rfl).trans (atom rfl)

/-- A literal measures nothing. -/
theorem literal {value : Tree} (h : value.isPlain = true) : μ.Same [.node l (.literal value)] [] :=
  (node rfl).trans (atom h)

/-! ### Converted calls -/

/-- `undefined` measures nothing. -/
theorem undefined : μ.Same [Tree.undefined] [] := identifier

/-- A missing value is the undefined value, which holds nothing. -/
theorem valueAt_zero (v : Tree) (vs : List Tree) : μ.Same [valueAt (v :: vs) 0] [v] := by
  cases v with
  | null => exact undefined.trans (atom rfl).symm
  | _ => exact refl _

/-- An assignment to a name measures what its value does. -/
theorem assign (name : Text) {v : Tree} (h : μ.Same [v] ts) :
    μ.Same [Tree.new (.expressionStatement (Tree.assign name v))] ts := by
  have parts : μ.Same [.text "=", .identifier name, v] ts :=
    cons (atom rfl) (cons identifier h)
  exact (node rfl).trans ((node rfl).trans parts)

/-- Assignments hold what their values hold. -/
theorem assignAll (names : List Text) (values : List Tree) (h : values.length ≤ names.length) :
    μ.Same (Tree.assignAll names values) values := by
  induction names generalizing values with
  | nil =>
    rw [List.length_nil, Nat.le_zero, List.length_eq_zero_iff] at h
    subst h
    exact refl _
  | cons name names ih =>
    rw [Tree.assignAll, List.mapIdx_cons]
    cases values with
    | nil =>
      have rest : μ.Same (Tree.assignAll names []) [] := ih [] (Nat.zero_le _)
      exact append (assign name undefined) rest
    | cons v vs =>
      have rest : μ.Same (Tree.assignAll names vs) vs := ih vs (Nat.le_of_succ_le_succ h)
      exact append (assign name (valueAt_zero v vs)) rest

/-- Changes that are left out for values that measure nothing do not count. -/
theorem filter_of_same {p : Change → Bool} {cs : List Change}
    (h : ∀ c ∈ cs, p c = false → μ.Same [c.value] []) :
    μ.Same ((cs.filter p).map (·.value)) (cs.map (·.value)) := by
  induction cs with
  | nil => exact refl _
  | cons c cs ih =>
    rw [List.forall_mem_cons] at h
    rw [List.map_cons, List.filter_cons]
    split
    · exact append (refl [c.value]) (ih h.2)
    · rename_i dropped
      exact append (h.1 (by simpa using dropped)).symm (ih h.2)

/-- The new values of all parameters hold what the arguments hold. -/
theorem allValues {params : List Text} {args : List Tree} (h : args.length ≤ params.length) :
    μ.Same (params.mapIdx fun i _ => args[i]?.getD .undefined) args := by
  -- By induction on the parameters: those beyond the arguments are set to `undefined`, which counts
  -- for nothing.
  induction params generalizing args with
  | nil =>
    rw [List.length_nil, Nat.le_zero, List.length_eq_zero_iff] at h
    subst h
    exact refl _
  | cons param params ih =>
    rw [List.mapIdx_cons]
    cases args with
    | nil =>
      have rest : μ.Same (params.mapIdx fun i _ => ([] : List Tree)[i]?.getD .undefined) [] :=
        ih (Nat.zero_le _)
      exact append undefined rest
    | cons arg args =>
      have rest : μ.Same (params.mapIdx fun i _ => args[i]?.getD .undefined) args :=
        ih (Nat.le_of_succ_le_succ h)
      exact append (refl [arg]) rest

/-- The given name measures nothing. -/
theorem isIdentifier {name : Text} {t : Tree} (h : isIdentifier name t = true) : μ.Same [t] [] := by
  obtain ⟨l, rfl⟩ := isIdentifier_iff.mp h
  exact identifier

/-- The changes of a call measure what its arguments do, if there is a parameter for each. -/
theorem changes {params : List Text} {args : List Tree} (h : args.length ≤ params.length) :
    μ.Same ((changes params args).map (·.value)) args := by
  refine (filter_of_same fun c hc own => ?_).trans ?_
  · exact isIdentifier (by simpa using own)
  · have values : (params.mapIdx fun i param =>
        (⟨i, param, args[i]?.getD .undefined⟩ : Change)).map (·.value) =
          params.mapIdx fun i _ => args[i]?.getD .undefined :=
      List.ext_getElem (by simp) (by simp)
    rw [values]
    exact allValues h

/-- Names in a row measure nothing. -/
theorem map_identifier (names : List Text) : μ.Same (names.map Tree.identifier) [] := by
  induction names with
  | nil => exact refl _
  | cons name names ih => exact cons identifier ih

/-- Values that hold nothing can be put aside. -/
theorem map_nil {cs : List Change} (h : ∀ c ∈ cs, μ.Same [c.value] []) :
    μ.Same (cs.map (·.value)) [] := by
  induction cs with
  | nil => exact refl _
  | cons c cs ih =>
    rw [List.forall_mem_cons] at h
    exact cons h.1 (ih h.2)

/-- The last change comes first, but the others are constants. -/
theorem lastFirst {cs : List Change} (h : ∀ c ∈ cs.dropLast, μ.Same [c.value] []) :
    μ.Same ((lastFirst cs).map (·.value)) (cs.map (·.value)) := by
  have others := map_nil h
  rcases List.eq_nil_or_concat cs with rfl | ⟨rest, last, rfl⟩
  · exact refl _
  · rw [List.concat_eq_append] at others ⊢
    rw [List.dropLast_concat] at others
    have first : Elimination.lastFirst (rest ++ [last]) = last :: rest := by
      simp [Elimination.lastFirst]
    rw [first, List.map_append]
    have front : μ.Same (last.value :: rest.map (·.value)) [last.value] :=
      append (refl [last.value]) others
    have back : μ.Same (rest.map (·.value) ++ [last.value]) [last.value] :=
      append others (refl [last.value])
    exact front.trans back.symm

/-- What takes the place of a tail call holds what its arguments hold, as far as constants hold
nothing. -/
theorem callAssignments {s : Scope} {args : List Tree} (few : args.length ≤ s.params.length)
    (constant : ∀ e ∈ args, isConstant e = true → μ.Same [e] []) :
    μ.Same (callAssignments s args) args := by
  have values := changes (μ := μ) few
  -- The constants among the values count for nothing.
  have known : ∀ c ∈ Elimination.changes s.params args, isConstant c.value = true →
      μ.Same [c.value] [] := by
    intro c hc
    rw [(mem_changes hc).2]
    cases found : args[c.index]? with
    | none => exact fun _ => undefined
    | some e => exact constant e (List.mem_of_getElem? found)
  unfold Elimination.callAssignments
  split
  · rename_i staged
    have paired : (callTemporaries s args).length =
        (Elimination.changes s.params args).length := by
      rw [callTemporaries, if_pos staged, temporariesOf, List.length_map]
    -- Staged, the values count where they are put aside; taking them back reads names only.
    have stage := assignAll (μ := μ) (callTemporaries s args)
      ((Elimination.changes s.params args).map (·.value)) (by simp [paired])
    have unstage := assignAll (μ := μ) ((Elimination.changes s.params args).map (·.param))
      ((callTemporaries s args).map .identifier) (by simp [paired])
    have blank : μ.Same ((callTemporaries s args).map .identifier) [] :=
      map_identifier _
    refine (append stage (unstage.trans blank)).trans ?_
    rw [List.append_nil]
    exact values
  · rename_i direct
    -- Otherwise at most one value is not a constant, so that the order does not matter.
    have rest : ∀ c ∈ (Elimination.changes s.params args).dropLast, μ.Same [c.value] [] := by
      intro c hc
      refine known c (List.dropLast_subset _ hc) ?_
      have several : 1 < (Elimination.changes s.params args).length := by
        have positive := List.length_pos_of_mem hc
        rw [List.length_dropLast] at positive
        omega
      simp only [needsTemporaries, several, decide_true, Bool.true_and, Bool.not_eq_true,
        Bool.not_eq_false', List.all_eq_true] at direct
      exact direct c hc
    exact (assignAll _ _ (by simp)).trans ((lastFirst rest).trans values)

end Measure.Same

/-! ## Resets -/

/-- An expression whose target, if it assigns to an identifier, has a text for its name. -/
def PlainTarget : Tree → Prop
  | .node _ (.assignment _ (.node _ (.identifier name)) _) => ∃ x, name = .text x
  | _ => True

/-- A statement whose expressions are such. -/
def PlainStatement : Tree → Prop
  | .node _ (.expressionStatement (.node _ (.sequence parts))) =>
    ∃ es, parts = .tuple es ∧ ∀ e ∈ es, PlainTarget e
  | .node _ (.expressionStatement e) => PlainTarget e
  | _ => True

/-- What comes of an expression is a plain target. -/
theorem plainTarget_of_walks {n : Naming} {s s' : State} {e e' : Tree}
    (h : Walks n s (.expression e e') s') : PlainTarget e' := by
  cases h with
  | assignment leftPart part =>
    cases leftPart with
    | identifier => exact ⟨_, rfl⟩
    | _ => trivial
  | _ => trivial

/-- What comes of expressions in a row are plain targets. -/
theorem plainTarget_of_expressions {n : Naming} {s s' : State} {es es' : List Tree}
    (h : Walks n s (.expressions es es') s') : ∀ e ∈ es', PlainTarget e := by
  induction es generalizing s es' with
  | nil =>
    cases h
    exact nofun
  | cons e es ih =>
    cases h with
    | moreExpressions part parts =>
      exact List.forall_mem_cons.mpr ⟨plainTarget_of_walks part, ih parts⟩

/-- What comes of declarators are plain targets. -/
theorem plainTarget_of_declarators {n : Naming} {s s' : State} {ds es : List Tree}
    (h : Walks n s (.declarators ds es) s') : ∀ e ∈ es, PlainTarget e := by
  induction ds generalizing s es with
  | nil =>
    cases h
    exact nofun
  | cons d ds ih =>
    cases h with
    | moreDeclarators free part parts =>
      exact List.forall_mem_cons.mpr ⟨⟨_, rfl⟩, ih parts⟩

/-- The statement of a walked expression is plain. -/
theorem plainStatement_expression {n : Naming} {s s' : State} {l : Option Location} {e e' : Tree}
    (h : Walks n s (.expression e e') s') :
    PlainStatement (.node l (.expressionStatement e')) := by
  have plain := plainTarget_of_walks h
  cases h with
  | sequence parts => exact ⟨_, rfl, plainTarget_of_expressions parts⟩
  | _ => exact plain

/-- Assignments in order are plain statements. -/
theorem plainStatement_assignAll (names : List Text) (values : List Tree) :
    ∀ t ∈ Tree.assignAll names values, PlainStatement t := by
  intro t ht
  obtain ⟨i, hi, rfl⟩ := List.mem_mapIdx.mp ht
  exact ⟨_, rfl⟩

/-- The assignments of a converted call are plain statements. -/
theorem plainStatement_callAssignments (s : Scope) (args : List Tree) :
    ∀ t ∈ callAssignments s args, PlainStatement t := by
  unfold callAssignments
  split
  · exact List.forall_mem_append.mpr
      ⟨plainStatement_assignAll _ _, plainStatement_assignAll _ _⟩
  · exact plainStatement_assignAll _ _

/-- The statements that an edit puts into a row assign to names that are texts. -/
def Edit.Plain : Edit → Prop
  | .statement _ t' | .returned _ _ t' =>
    ∀ ts, t'.spliced = .ok ts → ∀ u ∈ ts, PlainStatement u
  | .statements _ ts' | .start _ ts' => ∀ u ∈ ts', PlainStatement u
  | _ => True

/-- A plain statement that is no block is put in a row as it is. -/
theorem plain_spliced {t : Tree} (h : t.hasKind .blockStatement = false) (plain : PlainStatement t) :
    ∀ ts, t.spliced = .ok ts → ∀ u ∈ ts, PlainStatement u := by
  intro ts spliced
  rw [spliced_of_hasKind h] at spliced
  cases spliced
  exact List.forall_mem_singleton.mpr plain

/-- What a walk leaves is plain, so that resets are recognised in it. -/
theorem Walks.plain {n : Naming} {s s' : State} {edit : Edit} (h : Walks n s edit s') :
    edit.Plain := by
  -- By induction on the walk: a statement is left as it is, spliced, or made of assignments.
  induction h with
  | returnCall own parts converted ih =>
    obtain ⟨-, rfl, -⟩ := convertCall_ok.mp converted
    -- Only blocks are spliced.
    intro ts spliced
    cases spliced
    refine List.forall_mem_append.mpr ⟨plainStatement_callAssignments _ _, ?_⟩
    exact List.forall_mem_singleton.mpr trivial
  | block parts ih =>
    intro ts spliced
    cases spliced
    exact ih
  | returnStatement part ih => exact ih
  | noStatements => exact nofun
  | moreStatements part spliced parts ih ihs =>
    exact List.forall_mem_append.mpr ⟨ih _ spliced, ihs⟩
  | startStrict _ _ ih | startPlain _ _ ih => exact ih
  | variableDeclaration parts ih => exact plain_spliced rfl ⟨_, rfl, plainTarget_of_declarators parts⟩
  | expressionStatement part ih => exact plain_spliced rfl (plainStatement_expression part)
  | returnNothing | returnConditional | returnValue | functionDeclaration | ifStatement
  | forStatement | whileStatement | doWhileStatement | emptyStatement | labeled =>
    exact plain_spliced rfl trivial
  | @bareJump _ _ kind => cases kind <;> exact plain_spliced rfl trivial
  | @jump _ _ kind => cases kind <;> exact plain_spliced rfl trivial
  | @forEach _ _ _ _ _ domain => cases domain <;> exact plain_spliced rfl trivial
  | @forEachDeclared _ _ _ _ domain => cases domain <;> exact plain_spliced rfl trivial
  | _ => trivial

namespace Measure.Same

variable {β : Type} {μ : Measure β}

/-- A reset holds nothing. -/
theorem isReset {names : List Text} {e : Tree} (plain : PlainTarget e)
    (h : e.isReset names = .ok true) : μ.Same [e] [] := by
  unfold Tree.isReset at h
  split at h
  · rename_i l operator li name value
    split at h
    · rename_i equal
      rw [Bool.and_eq_true] at equal
      obtain rfl := eq_text_of_same equal.1
      obtain ⟨lv, rfl⟩ := eq_identifier_of_same equal.2
      obtain ⟨x, rfl⟩ := plain
      exact (node rfl).trans (cons (atom rfl) (cons identifier identifier))
    · cases h
  · cases h

/-- A sequence of resets measures nothing. -/
theorem areResets {names : List Text} {es : List Tree} (plain : ∀ e ∈ es, PlainTarget e)
    (h : Tree.areResets names es = .ok true) : μ.Same es [] := by
  induction es with
  | nil => exact refl _
  | cons e es ih =>
    rw [List.forall_mem_cons] at plain
    rw [Tree.areResets] at h
    obtain ⟨reset, first, rest⟩ := bind_ok.mp h
    cases reset with
    | false => cases rest
    | true => exact cons (isReset plain.1 first) (ih plain.2 rest)

/-- A reset measures nothing. -/
theorem isResetStatement {names : List Text} {t : Tree} (plain : PlainStatement t)
    (h : t.isResetStatement names = .ok true) : μ.Same [t] [] := by
  unfold Tree.isResetStatement at h
  split at h
  -- A list of resets counts as its parts, which are all resets.
  · rename_i l ls parts
    obtain ⟨es, rfl, targets⟩ := plain
    exact (node rfl).trans ((node rfl).trans ((row es).trans (areResets targets h)))
  -- A single reset is an expression statement with one assignment.
  · rename_i l e single
    unfold PlainStatement at plain
    split at plain
    · rename_i same
      cases same
      exact (single _ _ rfl).elim
    · rename_i same
      cases same
      exact (node rfl).trans (isReset plain h)
    · rename_i other
      exact (other _ _ rfl).elim
  · cases h

/-- Dropping resets changes no measure. -/
theorem dropResets {names : List Text} {ts rest : List Tree} (plain : ∀ t ∈ ts, PlainStatement t)
    (h : dropResets names ts = .ok rest) : μ.Same ts rest := by
  induction ts with
  | nil =>
    cases h
    exact refl _
  | cons t ts ih =>
    rw [List.forall_mem_cons] at plain
    rw [Elimination.dropResets] at h
    obtain ⟨reset, first, more⟩ := bind_ok.mp h
    cases reset with
    | true => exact cons (isResetStatement plain.1 first) (ih plain.2 more)
    | false =>
      cases more
      exact refl _

end Measure.Same

/-! ## Walks -/

section Walks

variable {n : Naming} {β : Type} {μ : Measure β}

/-- What a statement is spliced into measures what the statement does. -/
theorem Measure.Same.spliced {t' : Tree} {ts : List Tree}
    (rows : ∀ l body, t' = .node l (.block body) → ∃ ss, body = .tuple ss)
    (spliced : t'.spliced = .ok ts) : μ.Same ts [t'] := by
  by_cases block : t'.hasKind .blockStatement = true
  · obtain ⟨l, body, rfl⟩ := eq_block block
    obtain ⟨ss, rfl⟩ := rows l body rfl
    have opened : μ.Same [.node l (.block (.tuple ss))] ss := (Measure.Same.node rfl).trans (.row ss)
    cases spliced
    exact opened.symm
  · rw [spliced_of_hasKind (by simpa using block)] at spliced
    cases spliced
    exact .refl _

/-- What comes of an expression and is constant measures nothing. -/
theorem Measure.Same.constant {s s' : State} {e e' : Tree} (h : Walks n s (.expression e e') s')
    (constant : isConstant e' = true) : μ.Same [e'] [] := by
  rcases Bool.or_eq_true_iff.mp constant with literal | undefined
  · cases h with
    | literal plain => exact .literal plain
    | _ => cases literal
  · exact .isIdentifier undefined

/-- The constants among the arguments measure nothing. -/
theorem Measure.Same.constants {s s' : State} {es es' : List Tree}
    (h : Walks n s (.expressions es es') s') :
    ∀ e ∈ es', isConstant e = true → μ.Same [e] [] := by
  induction es generalizing s es' with
  | nil =>
    cases h
    exact nofun
  | cons e es ih =>
    cases h with
    | moreExpressions part parts =>
      exact List.forall_mem_cons.mpr ⟨Measure.Same.constant part, ih parts⟩

end Walks

end Elimination

end TailLoop
