import TailLoop.Proofs.Simulation.Activations

/-!
# Bodies of functions

A `Body` is the body of a function before, during and after elimination. `Body.Rewrites` collects what
is known about a function of a program and about the function that takes its place. From it follow
the variables that both declare, and that the two environments of a call of both are alike when the
bodies start.
-/

namespace TailLoop

namespace Elimination

/-! ## What a finished body declares -/

/-- Statements that hold no function and declare the given names. -/
structure Declaring (ts : List Tree) (names : List Text) : Prop where
  declares : ∀ t ∈ ts, t.All Tree.Declares
  names : ts.flatMap Tree.varNames = names

/-- One row after another declares what both of them declare. -/
theorem Declaring.append {ts us : List Tree} {xs ys : List Text} (h1 : Declaring ts xs)
    (h2 : Declaring us ys) : Declaring (ts ++ us) (xs ++ ys) where
  declares := List.forall_mem_append.mpr ⟨h1.declares, h2.declares⟩
  names := by rw [List.flatMap_append, h1.names, h2.names]

/-- Statements without declarations declare nothing. -/
theorem declaring_of_inert {ts : List Tree} (h : ∀ t ∈ ts, t.All Tree.Inert) : Declaring ts [] where
  declares t ht u hu := (h t ht u hu).declares
  names := List.flatMap_eq_nil_iff.mpr fun t ht => Tree.varNames_of_inert (h t ht)

/-- A declaration of several names declares them. -/
theorem declaring_declaration (names : List Text) :
    Declaring [Tree.declaration (names.map (Tree.declarator · .null))] names := by
  -- A declarator declares its name and nothing else.
  have each (x : Text) : (Tree.declarator x .null).All Tree.Declares ∧
      (Tree.declarator x .null).varNames = [x] := by
    constructor
    · refine Tree.all_node.mpr ⟨⟨rfl, fun _ => rfl⟩, ?_⟩
      simp only [Shape.children, List.forall_mem_cons]
      exact ⟨fun u hu => (inert_identifier x u hu).declares, Tree.all_of_isPlain rfl,
        List.forall_mem_nil _⟩
    · rw [Tree.declarator, Tree.new, Tree.varNames_node]
      simp only [Shape.children, List.flatMap_cons, Tree.varNames_of_inert (inert_identifier x)]
      rfl
  constructor
  · refine List.forall_mem_singleton.mpr (Tree.all_node.mpr ⟨⟨rfl, Bool.noConfusion⟩, ?_⟩)
    simp only [Shape.children, List.forall_mem_cons]
    exact ⟨Tree.all_tuple.mpr (List.forall_mem_map.mpr fun x _ => (each x).1),
      Tree.all_of_isPlain rfl, List.forall_mem_nil _⟩
  · rw [List.flatMap_singleton, Tree.declaration, Tree.new, Tree.varNames_node]
    have row : (Tree.tuple (names.map (Tree.declarator · .null))).varNames = names := by
      rw [Tree.varNames_tuple, List.flatMap_map]
      simp [(each _).2]
    simp only [Shape.children, List.flatMap_cons, row]
    exact List.append_nil _

/-- So does the one that is put at the top of a function. -/
theorem declaring_declareAll (names : List Text) : Declaring (Tree.declareAll names) names := by
  unfold Tree.declareAll
  split
  · rename_i empty
    rw [List.isEmpty_iff.mp empty]
    exact ⟨nofun, rfl⟩
  · exact declaring_declaration names

/-- So do declarations of one name each, put at the top of a program. -/
theorem declaring_declareEach (names : List Text) : Declaring (Tree.declareEach names []) names := by
  have same : Tree.declareEach names [] = names.map fun x =>
      Tree.declaration ([x].map (Tree.declarator · .null)) := by
    apply List.ext_getElem
    · simp [Tree.declareEach]
    · intro i _ _
      simp [Tree.declareEach]
  rw [same]
  constructor
  · exact List.forall_mem_map.mpr fun x _ => (declaring_declaration [x]).declares _ List.mem_cons_self
  · rw [List.flatMap_map]
    have each (x : Text) : (Tree.declaration ([x].map (Tree.declarator · .null))).varNames = [x] := by
      have := (declaring_declaration [x]).names
      rwa [List.flatMap_singleton] at this
    simp only [each]
    exact List.flatMap_singleton' names

/-- The loop around a body declares nothing by itself. -/
theorem inert_loopAround (n : Naming) (locals : List Text) {ts : List Tree}
    (h : ∀ t ∈ ts, t.All Tree.Inert) : (loopAround n locals ts).All Tree.Inert := by
  have body : ∀ t ∈ endWithReturn (Tree.assignAll locals [] ++ ts), t.All Tree.Inert := by
    have parts := List.forall_mem_append.mpr ⟨inert_assignAll locals (List.forall_mem_nil _), h⟩
    unfold endWithReturn
    split
    · exact parts
    · refine List.forall_mem_append.mpr ⟨parts, List.forall_mem_singleton.mpr ?_⟩
      exact Tree.all_node.mpr ⟨⟨rfl, rfl⟩, List.forall_mem_singleton.mpr (Tree.all_of_isPlain rfl)⟩
  refine Tree.all_node.mpr ⟨⟨rfl, rfl⟩, ?_⟩
  simp only [Shape.children, List.forall_mem_cons]
  refine ⟨inert_identifier _, Tree.all_node.mpr ⟨⟨rfl, rfl⟩, ?_⟩, List.forall_mem_nil _⟩
  simp only [Shape.children, List.forall_mem_cons]
  refine ⟨Tree.all_node.mpr ⟨⟨rfl, rfl⟩, List.forall_mem_singleton.mpr (Tree.all_of_isPlain rfl)⟩, ?_,
    List.forall_mem_nil _⟩
  exact inert_block.mpr body

/-- A directive declares nothing. -/
theorem inert_directive {t : Tree} (h : t.isStrictDirective = true) : t.All Tree.Inert := by
  obtain ⟨l, le, rfl⟩ := eq_strictDirective h
  refine Tree.all_node.mpr ⟨⟨rfl, rfl⟩, List.forall_mem_singleton.mpr ?_⟩
  exact Tree.all_node.mpr ⟨⟨rfl, rfl⟩, List.forall_mem_singleton.mpr (Tree.all_of_isPlain rfl)⟩

/-- A finished body declares the variables of its scope, and the temporaries in use if it became a
loop. -/
theorem declaring_finishBody {n : Naming} {s : Scope} {ts ts' : List Tree}
    (directive : ∀ t ∈ s.directive, t.isStrictDirective = true) (h : ∀ t ∈ ts, t.All Tree.Inert)
    (finished : finishBody n s ts = .ok ts') :
    Declaring ts' (s.locals ++ if s.isTailRecursive then s.used else []) := by
  have first : Declaring s.directive.toList [] :=
    declaring_of_inert fun t ht => inert_directive (directive t (Option.mem_toList.mp ht))
  have prelude := first.append (declaring_declareAll s.locals)
  -- A loop declares its temporaries as well, and what is inside of it declares nothing.
  cases tail : s.isTailRecursive with
  | true =>
    rw [finishBody_loop tail] at finished
    cases finished
    have loop := declaring_of_inert (List.forall_mem_singleton.mpr (inert_loopAround n s.locals h))
    have rest := (declaring_declareEach s.used).append loop
    rw [List.append_nil] at rest
    exact prelude.append rest
  | false =>
    obtain ⟨rest, dropped, rfl⟩ := (finishBody_plain tail).mp finished
    exact prelude.append (declaring_of_inert fun t ht => h t (mem_dropResets dropped t ht))

end Elimination

namespace Simulation

open Eval Validity Elimination

/-- The body of a function before, during and after elimination. -/
structure Body where
  /-- The parameters of the function. -/
  params : List Text
  /-- The statements of the body. -/
  before : List Tree
  /-- The walked statements. -/
  walked : List Tree
  /-- The statements of the finished body. -/
  after : List Tree
  /-- The scope after the walk. -/
  scope : Scope
  /-- Whether the code is strict. -/
  strict : Bool

namespace Body

/-- The names that an activation of the function binds. -/
def names (b : Body) : List Text := b.params ++ (Tree.tuple b.before).varNames

/-- The name by which the function calls itself, if it became a loop. -/
def own (b : Body) : Option Text := if b.scope.isTailRecursive then b.scope.name else none

/-- The temporaries that the finished body declares. -/
def spare (b : Body) : List Text := if b.scope.isTailRecursive then b.scope.used else []

/-- The variables that are undefined when the statements start to run, as far as this is used: those
of a body that did not become a loop. -/
def unset (b : Body) : List Text := if b.scope.isTailRecursive then [] else b.scope.locals

/-- A frame for an activation. -/
def frame (b : Body) (source target : Nat) : Frame :=
  { source, target, names := b.names, spare := b.spare, own := b.own, strict := b.strict }

/-- A function of the program, and the function of the rewritten program that takes its place. -/
structure Rewrites (w : World) (ref : Nat) (c c' : Closure) (b : Body) : Prop where
  params : ∃ ps, c.params = .tuple ps ∧ c'.params = .tuple ps ∧ List.Forall₂ IsParameter ps b.params
  before : ∃ l, c.body = .node l (.block (.tuple b.before))
  after : ∃ l, c'.body = .node l (.block (.tuple b.after))
  environment : c.environment = 0 ∧ c'.environment = 0
  strict : c.strict = b.strict ∧ c'.strict = b.strict
  walks : ∃ s s', Walks w.naming s (.start b.before b.walked) s' ∧ s'.scope = b.scope ∧
    s.scope.locals = [] ∧ s.scope.directive = none ∧
    s.scope.Staged (b.params.map (w.naming.temporary ++ ·)) b.params
  finished : finishBody w.naming b.scope b.walked = .ok b.after
  statements : ∀ i j, Sequence w (b.frame i j) {} b.unset b.before
  /-- Names of the program are no names of generated code. -/
  visible : ∀ x ∈ b.names, w.hides x = false
  /-- The undefined value has its name in the function. -/
  undefined : Tree.undefinedName ∉ b.names ∧ w.hides Tree.undefinedName = false
  /-- A function that became a loop is called by its name, and has distinct parameters. -/
  loop : b.scope.isTailRecursive = true → w.loops = true ∧ b.params.Nodup ∧
    ∃ name, b.scope.name = some name ∧ (name, ref) ∈ w.functions ∧ name ∉ b.names ∧
      w.hides name = false

variable {w : World} {ref : Nat} {c c' : Closure} {b : Body}

/-- What the walk does to the declarations of a body. -/
theorem Rewrites.moves (h : b.Rewrites w ref c c') :
    (Tree.tuple b.before).All Tree.Declares ∧ (∀ t ∈ b.walked, t.All Tree.Inert) ∧
      ∀ x, x ∈ b.scope.locals ↔ x ∈ (Tree.tuple b.before).varNames ∧ x ∉ b.params := by
  obtain ⟨s, s', walks, scope, locals, -, staged⟩ := h.walks
  have moves := walks.sheds (h.statements 0 0).simple
  refine ⟨Tree.all_tuple.mpr moves.declares, moves.inert, fun x => ?_⟩
  rw [← scope, moves.locals, locals, staged.params, Tree.varNames_tuple]
  simp only [List.not_mem_nil, false_or]
  rfl

/-- A name of generated code is declared only as a temporary. -/
theorem Rewrites.hides_used (h : b.Rewrites w ref c c') (tail : b.scope.isTailRecursive = true) :
    ∀ x ∈ b.scope.used, w.hides x = true := by
  obtain ⟨s, s', walks, scope, -, -, staged⟩ := h.walks
  intro x hx
  rw [← scope] at hx
  obtain ⟨p, -, rfl⟩ := List.mem_map.mp ((staged_of_start walks (by simp) staged).used x hx)
  simp [World.hides, (h.loop tail).1, Text.startsWith]

/-- What was taken off the start of the body is a directive. -/
theorem Rewrites.directive (h : b.Rewrites w ref c c') :
    ∀ t ∈ b.scope.directive, t.isStrictDirective = true := by
  obtain ⟨s, s', walks, scope, -, start, -⟩ := h.walks
  intro t ht
  rw [← scope, directive_of_start walks start] at ht
  exact (Option.mem_filter_iff.mp ht).2

/-- What the finished body declares. -/
theorem Rewrites.declaring (h : b.Rewrites w ref c c') :
    Declaring b.after (b.scope.locals ++ b.spare) :=
  declaring_finishBody h.directive h.moves.2.1 h.finished

/-- The function has the parameters and the statements that it had. -/
theorem Rewrites.source (h : b.Rewrites w ref c c') : Closure.Flat c b.params b.before where
  params := by
    obtain ⟨ps, here, -, params⟩ := h.params
    exact ⟨ps, here, params⟩
  body := h.before
  environment := h.environment.1
  declares := h.moves.1

/-- The function in its place has the same parameters, and the new statements. -/
theorem Rewrites.target (h : b.Rewrites w ref c c') : Closure.Flat c' b.params b.after where
  params := by
    obtain ⟨ps, -, there, params⟩ := h.params
    exact ⟨ps, there, params⟩
  body := h.after
  environment := h.environment.2
  declares := Tree.all_tuple.mpr h.declaring.declares

/-- The names of a body are its parameters and the variables that were declared in it. -/
theorem Rewrites.mem_names (h : b.Rewrites w ref c c') (x : Text) :
    x ∈ b.names ↔ x ∈ b.params ∨ x ∈ b.scope.locals := by
  rw [names, List.mem_append, h.moves.2.2]
  tauto

/-- The names that only the new body declares are hidden. -/
theorem Rewrites.hides_spare (h : b.Rewrites w ref c c') : ∀ x ∈ b.spare, w.hides x = true := by
  intro x hx
  unfold spare at hx
  split at hx
  · rename_i tail
    exact h.hides_used tail x hx
  · cases hx

/-- The environments of two calls with the same arguments are alike when the bodies start. -/
theorem Rewrites.binds (h : b.Rewrites w ref c c') (i j : Nat) {args : List Value}
    (data : ∀ v ∈ args, v.isData = true) :
    (b.frame i j).Binds w (fresh b.params args (Tree.tuple b.before).varNames)
      (fresh b.params args (Tree.tuple b.after).varNames) := by
  have declared (x : Text) : x ∈ (Tree.tuple b.after).varNames ↔
      x ∈ b.scope.locals ∨ x ∈ b.spare := by
    rw [Tree.varNames_tuple, h.declaring.names, List.mem_append]
  constructor
  · intro x visible
    have unused : x ∉ b.spare := fun hx => by
      rw [h.hides_spare x hx] at visible
      cases visible
    rw [lookup_fresh, lookup_fresh]
    split
    · rfl
    -- A name that is visible is no temporary, so that it is declared after just if it was before.
    · rename_i free
      have same : x ∈ (Tree.tuple b.after).varNames ↔ x ∈ (Tree.tuple b.before).varNames := by
        rw [declared, h.moves.2.2]
        tauto
      simp only [same]
  · exact isData_fresh _ data
  · intro x
    rw [isSome_lookup_fresh]
    exact List.mem_append.symm
  · intro x hx
    rw [isSome_lookup_fresh, declared]
    exact .inr (.inr hx)
  · exact nofun
  · exact List.forall_mem_nil _

end Body

/-! ## Calls -/

variable {w : World} {frames : List Frame} {f : Frame} {ref fuel : Nat} {c c' : Closure} {b : Body}

/-- No call is pending where no function became a loop. -/
def nothingPending : Pending := fun _ _ _ => False

/-- The bodies of two calls agree, so the calls do. -/
theorem inCall_sim {m m' : Machine} (hm : Matches w frames m m') {s s' : Store} {strict : Bool}
    {x : Eval Unit} {y : Nat → Eval Unit}
    (h : SimAt w (f :: frames) (fun _ => True) (Ends w (f :: frames) {} nothingPending) x y
      ⟨s, m.depth + 1, strict⟩ ⟨s', m'.depth + 1, strict⟩) :
    SimAt w frames (·.isData = true) (Throws w frames {}) (inCall strict x)
      (fun k => inCall strict (y k)) { m with store := s } { m' with store := s' } := by
  intro counts
  have part : Counts w (x ⟨s, m.depth + 1, strict⟩) := by
    intro e m1 hx
    cases e with
    | returned v => trivial
    | _ => exact counts _ _ (by rw [inCall, hx])
  obtain ⟨n, r', settled, agree⟩ := h part
  have there (k : Nat) (hk : n ≤ k) :
      inCall strict (y k) { m' with store := s' } =
        inCall strict (fun _ => r') { m' with store := s' } := by
    simp only [inCall, settled k hk]
  refine ⟨n, _, there, ?_⟩
  -- whatever the calls leave behind, the callers go on as strict as they were and with one call less
  have left {m1 m1' : Machine} (machines : Matches w (f :: frames) m1 m1') :
      Matches w frames { m1 with depth := m1.depth - 1, strict := m.strict }
        { m1' with depth := m1'.depth - 1, strict := m'.strict } :=
    ⟨machines.stores.leave, hm.strict, hm.mode, Nat.sub_le_sub_right machines.depth 1,
      fun off => congrArg (· - 1) (machines.exact off)⟩
  simp only [inCall]
  generalize x ⟨s, m.depth + 1, strict⟩ = r at agree ⊢
  cases agree with
  | ok value machines => exact .ok rfl (left machines)
  | @error e e' m1 m1' ends =>
    rcases ends with ⟨rfl, allowed, machines⟩ | ⟨-, -, pending⟩
    · cases e' with
      | returned v => exact .ok allowed (left machines)
      | broke label => exact .error ⟨rfl, allowed, left machines⟩
      | continued label => exact .error ⟨rfl, allowed, left machines⟩
      | failed error => exact .error ⟨rfl, trivial, left machines⟩
      | exhausted => exact allowed.elim
    · exact pending.elim

/-- The machines when the bodies of two calls start, with all variables undefined. -/
theorem Body.Rewrites.enter (h : b.Rewrites w ref c c') {m m' : Machine}
    (hm : Matches w frames m m') {args : List Value} (data : ∀ v ∈ args, v.isData = true) :
    Matches w ((b.frame m.store.environments.size m'.store.environments.size).leaving
        b.scope.locals :: frames)
      ⟨Simulation.enter m.store (fresh b.params args (Tree.tuple b.before).varNames), m.depth + 1,
        b.strict⟩
      ⟨Simulation.enter m'.store (fresh b.params args (Tree.tuple b.after).varNames), m'.depth + 1,
        b.strict⟩ where
  stores := by
    refine hm.stores.enter rfl rfl ((h.binds _ _ data).leaving fun x hx => ?_)
    -- A local is declared, and it is no parameter.
    obtain ⟨declared, free⟩ := (h.moves.2.2 x).mp hx
    rw [lookup_fresh, if_neg free, if_pos declared]
  strict := rfl
  mode := by simp [Body.frame, Frame.leaving]
  depth := Nat.succ_le_succ hm.depth
  exact off := congrArg (· + 1) (hm.exact off)

/-- A finished body that is no loop runs like the walked statements. -/
theorem Body.Rewrites.forM_after (h : b.Rewrites w ref c c')
    (plain : b.scope.isTailRecursive = false) {env : Nat} {m : Machine}
    (unset : Unset env b.scope.locals m) (k : Nat) :
    b.after.forM (execute w.limit (k + 4) env) m = b.walked.forM (execute w.limit (k + 4) env) m := by
  obtain ⟨rest, dropped, same⟩ := (finishBody_plain plain).mp h.finished
  have directive : b.scope.directive.toList.forM (execute w.limit (k + 4) env) m = .ok () m :=
    forM_idle fun t ht => execute_directive (h.directive t (Option.mem_toList.mp ht)) (k + 2)
  have declarations : (Tree.declareAll b.scope.locals).forM (execute w.limit (k + 4) env) m =
      .ok () m := forM_idle (execute_declareAll b.scope.locals (k + 2))
  rw [same, forM_dropResets unset dropped, forM_append, forM_append, bind_assoc, bind_of_ok directive,
    bind_of_ok declarations]

/-- What the rows of a body agree by, where no function became a loop. -/
theorem Body.Rewrites.ground (h : b.Rewrites w ref c c') {last : Scope}
    (plain : last.isTailRecursive = false) (calls : CallsAgree w fuel) (i j : Nat) (xs : List Text) :
    Ground w ((b.frame i j).leaving xs) frames nothingPending fuel last where
  calls := calls
  unheld := rfl
  unnamed := h.undefined.1
  shown := h.undefined.2
  tails := by
    constructor
    · exact fun tail => absurd tail (by simp [plain])
    · exact fun tail => absurd tail (by simp [plain])

/-- The statements of a sequence agree with the walked statements one after the other, each in the
frame for it. -/
theorem Body.Rewrites.sequence_sim (h : b.Rewrites w ref c c') {last : Scope}
    (plain : last.isTailRecursive = false) (calls : CallsAgree w fuel) {i j : Nat} {s s' : State}
    {xs : List Text} {ts ts' : List Tree} (walks : Walks w.naming s (.statements ts ts') s')
    (leads : s'.scope.Leads last) (sequence : Sequence w (b.frame i j) {} xs ts) {m m' : Machine}
    (hm : Matches w ((b.frame i j).leaving xs :: frames) m m') :
    SimAt w (b.frame i j :: frames) (fun _ => True)
      (Ends w (b.frame i j :: frames) {} nothingPending)
      (ts.forM (execute w.limit fuel i)) (fun k => ts'.forM (execute w.limit k j)) m m' := by
  -- Along the row fewer and fewer variables are known to be undefined.
  induction ts generalizing s xs ts' m m' with
  | nil =>
    cases walks with
    | noStatements => exact Sim.pure trivial m m' (hm.forget (List.nil_subset xs))
  | cons t ts ih =>
    cases walks with
    | moreStatements part spliced parts =>
      cases sequence with
      | @cons _ ys _ _ fewer statement rest =>
        have ground : Ground w ((b.frame i j).leaving ys) frames nothingPending fuel last :=
          h.ground plain calls i j ys
        have agree := agrees_of_walks ground part (parts.leads.trans leads)
        have first := spliced_sim spliced (agree.plain {} statement fuel (Nat.le_refl _))
        simp only [List.forM, forM_append]
        refine (first m m' (hm.forget fewer)).andThen ?_ fun _ m1 m1' _ hm1 =>
          ih parts rest hm1
        exact fun _ _ _ _ ended => ended.forget (List.nil_subset ys)

/-- The statements of a body that did not become a loop agree with the walked statements. -/
theorem Body.Rewrites.walked_sim (h : b.Rewrites w ref c c')
    (plain : b.scope.isTailRecursive = false) (calls : CallsAgree w fuel) (i j : Nat)
    {m m' : Machine} (hm : Matches w ((b.frame i j).leaving b.scope.locals :: frames) m m') :
    SimAt w (b.frame i j :: frames) (fun _ => True)
      (Ends w (b.frame i j :: frames) {} nothingPending)
      (b.before.forM (execute w.limit fuel i)) (fun k => b.walked.forM (execute w.limit k j))
      m m' := by
  obtain ⟨s, s', walks, scope, -⟩ := h.walks
  have sequence := h.statements i j
  rw [Body.unset, plain, if_neg Bool.false_ne_true] at sequence
  generalize b.before = before at sequence walks
  cases walks with
  | startStrict strict parts =>
    cases sequence with
    | cons fewer statement rest =>
      simp only [List.forM]
      refine directive_sim strict ?_ _
      exact h.sequence_sim plain calls parts (scope ▸ .refl _) rest (hm.forget fewer)
  | startPlain plainStart parts =>
    exact h.sequence_sim plain calls parts (scope ▸ .refl _) sequence hm

/-- A call that is nested too deeply fails in both runs: no function became a loop, or the run is not
compared. -/
theorem Matches.tooDeep_sim {m m' : Machine} (hm : Matches w frames m m') (deep : w.limit ≤ m.depth)
    {args : List Value} :
    SimAt w frames (·.isData = true) (Throws w frames {})
      (call w.limit (fuel + 1) (.function ref) args)
      (fun k => call w.limit (k + 1) (.function ref) args) m m' := by
  intro counts
  have off : w.loops = false := counts _ _ (call_tooDeep deep fuel args)
  have deep' : w.limit ≤ m'.depth := by rw [hm.exact off]; exact deep
  refine ⟨0, _, fun k _ => call_tooDeep deep' k args, ?_⟩
  rw [call_tooDeep deep]
  exact .error ⟨rfl, trivial, hm⟩

/-- Calls of a function that did not become a loop agree. -/
theorem Body.Rewrites.call_plain_sim (h : b.Rewrites w ref c c')
    (plain : b.scope.isTailRecursive = false) (here : w.source[ref]? = some c)
    (there : w.target[ref]? = some c') (calls : CallsAgree w fuel) {args : List Value}
    (data : ∀ v ∈ args, v.isData = true) :
    Sim w frames (·.isData = true) (Throws w frames {}) (call w.limit (fuel + 1) (.function ref) args)
      fun k => call w.limit k (.function ref) args := by
  refine .later fun m m' hm => ?_
  have found : m.store.closures[ref]? = some c := by rw [hm.stores.source, here]
  have found' : m'.store.closures[ref]? = some c' := by rw [hm.stores.target, there]
  -- If the calls are too deep, both sides are refused before they enter.
  by_cases deep : w.limit ≤ m.depth
  · exact hm.tooDeep_sim deep
  · have shallow' : m'.depth < w.limit := by have := hm.depth; omega
    intro counts
    rw [call_function found h.source (by omega), h.strict.1] at counts ⊢
    have entered := h.enter hm data
    have unset := entered.unset (List.Subset.refl _)
      (fun x hx => h.visible x ((h.mem_names x).mpr (.inr hx))) h.undefined.1 h.undefined.2
    -- What was taken away in front of the walked body were resets, which do nothing in a fresh
    -- environment.
    have body := (h.walked_sim plain calls _ _ entered).congr
      (fun k => b.after.forM (execute w.limit k m'.store.environments.size)) 4
      (h.forM_after plain unset)
    obtain ⟨n, r', settled, agree⟩ := inCall_sim hm body counts
    refine ⟨n, r', fun k hk => ?_, agree⟩
    have called := call_function found' h.target shallow' k args
    rw [h.strict.2] at called
    exact called.trans (settled k hk)

end Simulation

end TailLoop
