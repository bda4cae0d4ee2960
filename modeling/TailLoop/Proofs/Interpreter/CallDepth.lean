import TailLoop.Proofs.Interpreter.Disciplines
import TailLoop.Proofs.Interpreter.Lockstep

/-!
# How deeply calls are nested

The functions of an evaluation go in lockstep with those with a higher limit for the nesting of calls
(`alike_ofFuel`), and with those that give an alarm when more calls are under way than the limit
allows (`alike_watched`). To go in lockstep is a discipline, so that both follow by induction on the
fuel once the calls of functions have been seen to (`Alike.layer`).

Hence every evaluation leaves as many calls under way as before it, never has more than the limit
allows, and refuses the call of a function just where it is at the limit
(`calls_stay_within_limit`).
-/

namespace TailLoop.Eval

open Routines

/-- To go in lockstep from every machine on within the first limit, whatever runs. -/
abbrev inLockstep (limit limit' : Nat) : Discipline Unit where
  Obeys _ _ x y := Lockstep limit limit' 0 x y
  Runs _ _ _ := True
  Sets _ _ _ := True

/-- Functions that go in lockstep from every machine on within the first limit. -/
abbrev Alike (limit limit' : Nat) (r r' : Routines) : Prop := (inLockstep limit limit').Upheld r r'

/-- To run in step passes through the ways in which evaluations are put together. -/
theorem composes_inLockstep (limit limit' : Nat) : (inLockstep limit limit').Composes where
  pure a := .pure a
  throw e := .throw e
  bind h next := h.bind next
  pass h := h.pass
  labeled h := h.labeled
  operation h := .untouched h.plain
  item _ _ _ := trivial
  field _ _ _ _ := trivial
  target _ _ := trivial
  declared _ _ _ := ⟨trivial, trivial⟩
  readName {_ env l name} _ := .untouched fun _ => plain_readName env name l
  isUnbound {_ env t} _ := .untouched fun _ => plain_isUnbound env t
  writeName {_ env _ name} _ _ l v := lockstep_writeName env name l v
  function {_ env _ id params body} _ := by
    -- A named function is made in an environment of its own, in which its name is declared.
    refine .ite (lockstep_makeFunction env id params body) ?_
    refine Lockstep.bind (.changeGet fun s => ?_) fun own => ?_
    · simp [Store.child]
    refine (lockstep_makeFunction own id params body).bind fun f => ?_
    exact Lockstep.bind (.untouched fun _ => plain_nameOf id) fun name =>
      Lockstep.bind (.untouched fun _ => plain_keyOf name) fun key =>
        (lockstep_declare own key f).bind fun _ => .pure f

section Calls

variable {limit limit' : Nat} {r r' : Routines} (alike : Alike limit limit' r r')
  {around : Eval Unit → Eval Unit}
  (inside : ∀ {x y}, Lockstep limit limit' 0 x y → Lockstep limit limit' 0 x (around y))

include alike inside

/-- A function runs where one more call has room. -/
theorem lockstep_activateBy (env : Nat) (c : Closure) (args : List Value) :
    Lockstep limit limit' 1 (r.activateBy id c args env) (r'.activateBy around c args env) := by
  refine Lockstep.bind (.untouched fun _ => plain_attempt _) fun params => ?_
  refine Lockstep.bind (congruent_lockstep.bindParameters (lockstep_declare env) params args)
    fun _ => ?_
  refine Lockstep.bind (.untouched fun _ => plain_attempt _) fun body => ?_
  refine (lockstep_hoist env body).bind fun _ => .inCall (inside ?_)
  exact Lockstep.bind (.untouched fun _ => plain_attempt _) fun statements =>
    .forM fun t => alike.execute (i := ()) trivial

/-- The body of a call is entered one call further in, under both limits. -/
theorem lockstep_enterBy (c : Closure) (args : List Value) :
    Lockstep limit limit' 1 (r.enterBy id c args) (r'.enterBy around c args) := by
  refine Lockstep.bind (.changeGet fun s => ?_) fun own =>
    lockstep_activateBy alike inside own c args
  simp [Store.child]

/-- A call that is not refused under the lower limit is not refused under the higher one. -/
theorem lockstep_callBy (less : limit ≤ limit') (ref : Nat) (args : List Value) :
    Lockstep limit limit' 0 (r.callBy limit id (.function ref) args)
      (r'.callBy limit' around (.function ref) args) := by
  intro m hm
  rw [callBy_function, callBy_function]
  rcases Nat.lt_or_ge m.depth limit with room | full
  · rw [if_neg (by omega), if_neg (by omega)]
    cases m.store.closures[ref]? with
    | none => exact Lockstep.fail _ m hm
    | some c => exact lockstep_enterBy alike inside c args m room
  · -- At the limit a higher one may let the call in, after which nothing is compared.
    rw [if_pos full]
    rcases Nat.lt_or_eq_of_le less with lower | rfl
    · exact .refused lower (.refl m)
    · rw [if_pos full]
      exact Lockstep.fail _ m hm

/-- A layer keeps functions in lockstep. -/
theorem Alike.layer (less : limit ≤ limit') (passes : Nat) :
    Alike limit limit' (r.layer limit passes id) (r'.layer limit' passes around) :=
  (composes_inLockstep limit limit').layer alike (fun _ => lockstep_callBy alike inside less)
    fun _ _ _ h => (composes_inLockstep limit limit').repeating (i := ()) h passes

end Calls

/-- With the lower one of two limits the functions go in lockstep with those with the other one. -/
theorem alike_ofFuel {limit limit' : Nat} (less : limit ≤ limit') (fuel : Nat) :
    Alike limit limit' (ofFuel limit fuel) (ofFuel limit' fuel) := by
  induction fuel with
  | zero =>
    rw [ofFuel_zero, ofFuel_zero]
    exact (composes_inLockstep limit limit').idle
  | succ fuel ih =>
    rw [ofFuel_succ, ofFuel_succ]
    exact Alike.layer ih (fun h => h) less fuel

/-- A call leaves as many calls under way as before it, and the mode as it was. -/
theorem keeps_call {limit : Nat} {m : Machine} (within : m.depth ≤ limit) (fuel : Nat) (f : Value)
    (args : List Value) : Keeps m (call limit fuel f args m) :=
  ((alike_ofFuel (Nat.le_refl limit) fuel).call () f args m within).keeps

/-- Statements one after the other leave as many calls under way as before them, and the mode as it
was. -/
theorem keeps_statements {limit : Nat} {m : Machine} (within : m.depth ≤ limit) (fuel env : Nat)
    (ss : List Tree) : Keeps m (ss.forM (execute limit fuel env) m) :=
  (Lockstep.forM (fun _ => (alike_ofFuel (Nat.le_refl limit) fuel).execute (i := ()) trivial) m
    within).keeps

/-! ## No call too many -/

/-- An evaluation that gives an alarm if more calls than `limit` are under way when it starts or when
it ends. -/
def watch (limit : Nat) (alarm : Interrupt) {α : Type} (act : Eval α) : Eval α := fun m =>
  if limit < m.depth then .error alarm m
  else
    match act m with
    | .ok a m => if limit < m.depth then .error alarm m else .ok a m
    | .error e m => if limit < m.depth then .error alarm m else .error e m

/-- The functions with an alarm in each of them. -/
def Routines.watch (limit : Nat) (alarm : Interrupt) (r : Routines) : Routines where
  evaluate env t := Eval.watch limit alarm (r.evaluate env t)
  propertyKey env property computed := Eval.watch limit alarm (r.propertyKey env property computed)
  assignTo env target v := Eval.watch limit alarm (r.assignTo env target v)
  call f args := Eval.watch limit alarm (r.call f args)
  execute env t := Eval.watch limit alarm (r.execute env t)
  executeLabeled env labels t := Eval.watch limit alarm (r.executeLabeled env labels t)
  startVariable env t := Eval.watch limit alarm (r.startVariable env t)
  executeLoop env labels t := Eval.watch limit alarm (r.executeLoop env labels t)

/-- The functions with some fuel, with an alarm in each of them however deep it is nested, and in the
body of each call. -/
def watched (limit : Nat) (alarm : Interrupt) : (fuel : Nat) → Routines
  | 0 => idle.watch limit alarm
  | fuel + 1 =>
    ((watched limit alarm fuel).layer limit fuel (Eval.watch limit alarm)).watch limit alarm

/-- Within the limit there is no alarm where an evaluation starts or ends. -/
theorem Lockstep.watch {limit room : Nat} {alarm : Interrupt} {α : Type} {x y : Eval α}
    (h : Lockstep limit limit room x y) :
    Lockstep limit limit room x (Eval.watch limit alarm y) := by
  intro m hm
  have within : ¬limit < m.depth := by omega
  -- The alarm would go off above the limit, and the depth is what it was before.
  have still {m' : Machine} (kept : Kept m m') : ¬limit < m'.depth := by
    rw [kept.depth]
    exact within
  have tied := h m hm
  have keeps := tied.keeps
  unfold Eval.watch
  rw [tied.eq, if_neg within]
  generalize x m = r at keeps
  cases keeps with
  | ok kept =>
    simp only [still kept, if_false]
    exact .same (.ok kept)
  | error kept why =>
    simp only [still kept, if_false]
    exact .same (.error kept why)

/-- An alarm at each function of a layer does not change how the functions run. -/
theorem Alike.watch {limit : Nat} {alarm : Interrupt} {r r' : Routines}
    (h : Alike limit limit r r') : Alike limit limit r (r'.watch limit alarm) where
  evaluate runs := (h.evaluate runs).watch
  propertyKey runs computed := (h.propertyKey runs computed).watch
  assignTo runs sets v := (h.assignTo runs sets v).watch
  call i f args := (h.call i f args).watch
  execute runs := (h.execute runs).watch
  executeLabeled runs labels := (h.executeLabeled runs labels).watch
  startVariable runs := (h.startVariable runs).watch
  executeLoop runs labels := (h.executeLoop runs labels).watch

/-- From every machine on within the limit there is no alarm at any depth. -/
theorem alike_watched (limit : Nat) (alarm : Interrupt) (fuel : Nat) :
    Alike limit limit (ofFuel limit fuel) (watched limit alarm fuel) := by
  induction fuel with
  | zero =>
    rw [ofFuel_zero]
    exact Alike.watch (composes_inLockstep limit limit).idle
  | succ fuel ih =>
    rw [ofFuel_succ]
    exact Alike.watch (Alike.layer ih Lockstep.watch (Nat.le_refl limit) fuel)

/-- A call that is let in leaves an environment of its own. -/
theorem grows_enterBy {limit : Nat} {r : Routines} (alike : Alike limit limit r r) {m : Machine}
    (room : m.depth < limit) (c : Closure) (args : List Value) :
    Ended (fun m' => m.store.environments.size < m'.store.environments.size) (fun _ => True)
      (r.enterBy id c args m) := by
  have keeps := (lockstep_activateBy alike (fun h => h) (m.store.child c.environment).1 c args
    { m with store := (m.store.child c.environment).2 } room).keeps
  refine keeps.weaken fun m' kept => ?_
  have more := kept.environments
  simp only [Store.child, Array.size_push] at more
  omega

/-- A call of a function is refused, with nothing changed, just if as many calls as the limit allows
are under way. -/
theorem call_refused_iff (limit fuel : Nat) {m : Machine} (within : m.depth ≤ limit) (ref : Nat)
    (args : List Value) :
    call limit (fuel + 1) (.function ref) args m = .error (.failed .stackOverflow) m ↔
      m.depth = limit := by
  have layered : call limit (fuel + 1) = (ofFuel limit fuel).callBy limit id :=
    congrArg Routines.call (ofFuel_succ limit fuel)
  rw [layered, callBy_function]
  constructor
  · intro refused
    by_contra other
    have room : m.depth < limit := by omega
    rw [if_neg (by omega)] at refused
    cases found : m.store.closures[ref]? with
    | none => rw [found] at refused; cases refused
    | some c =>
      -- An overflow inside the call is told apart by the environment that the call has left.
      have grown := grows_enterBy (alike_ofFuel (Nat.le_refl limit) fuel) room c args
      simp only [found] at refused
      rw [refused] at grown
      cases grown with
      | error more why => exact absurd more (Nat.lt_irrefl _)
  · intro full
    rw [if_pos (by omega)]

/-- However an evaluation ends, as many calls are under way afterwards as before, and the code is as
strict as before; an alarm for more calls than the limit allows is never given while it goes on; and a
call of a function is refused just where as many calls are under way as the limit allows. -/
theorem calls_stay_within_limit (limit fuel : Nat) (m : Machine) (within : m.depth ≤ limit) :
    (∀ env t, Ended (Restored m) (fun _ => True) (evaluate limit fuel env t m)) ∧
    (∀ env t, Ended (Restored m) (fun _ => True) (execute limit fuel env t m)) ∧
    (∀ f args, Ended (Restored m) (fun _ => True) (call limit fuel f args m)) ∧
    (∀ alarm env t,
      (watched limit alarm fuel).evaluate env t m = evaluate limit fuel env t m) ∧
    (∀ alarm env t, (watched limit alarm fuel).execute env t m = execute limit fuel env t m) ∧
    (∀ alarm f args, (watched limit alarm fuel).call f args m = call limit fuel f args m) ∧
    ∀ ref args, call limit (fuel + 1) (.function ref) args m = .error (.failed .stackOverflow) m ↔
      m.depth = limit := by
  have alike := alike_ofFuel (Nat.le_refl limit) fuel
  -- What runs in lockstep with itself ends at the depth at which it started.
  have restored {α : Type} {x y : Eval α} (h : Lockstep limit limit 0 x y) :
      Ended (Restored m) (fun _ => True) (x m) :=
    (h m within).keeps.weaken fun _ kept => kept.toRestored
  have watched (alarm : Interrupt) := alike_watched limit alarm fuel
  refine ⟨fun env t => restored (alike.evaluate (i := ()) trivial),
    fun env t => restored (alike.execute (i := ()) trivial),
    fun f args => restored (alike.call () f args), ?_, ?_, ?_, call_refused_iff limit fuel within⟩
  · exact fun alarm env t => ((watched alarm).evaluate (i := ()) trivial m within).eq
  · exact fun alarm env t => ((watched alarm).execute (i := ()) trivial m within).eq
  · exact fun alarm f args => ((watched alarm).call () f args m within).eq

/-- A call of the function `f`. -/
def callOfSelf : Tree := Tree.new (.call (Tree.identifier "f") (.tuple []))

/-- A machine in a call of a function `f` that calls itself. -/
def callingItself : Machine where
  store :=
    { Store.initial.declare Store.globalEnvironment "f" (.function 0) with
      closures := #[⟨.identifier "f", .tuple [],
        Tree.new (.block (.tuple [Tree.new (.expressionStatement callOfSelf)])), 0, false⟩] }
  depth := 1
  strict := true

/-- Whether an evaluation has ended because calls are nested too deeply. -/
def overflowed {α : Type} : EStateM.Result Interrupt Machine α → Bool
  | .error (.failed .stackOverflow) _ => true
  | _ => false

/-- With a limit of two calls one more call is let in and the next one is refused, after which the
machine is in one call as before. An alarm would be given if three calls were under way. -/
theorem calls_stay_within_limit_callingItself :
    callingItself.depth ≤ 2 ∧ overflowed (evaluate 2 9 0 callOfSelf callingItself) = true ∧
      Ended (Restored callingItself) (fun _ => True) (evaluate 2 9 0 callOfSelf callingItself) ∧
      (watched 2 .exhausted 9).evaluate 0 callOfSelf callingItself =
        evaluate 2 9 0 callOfSelf callingItself ∧
      (watched 2 .exhausted 9).evaluate 0 callOfSelf { callingItself with depth := 3 } =
        .error .exhausted { callingItself with depth := 3 } ∧
      call 2 10 (.function 0) [] callingItself ≠
        .error (.failed .stackOverflow) callingItself := by
  obtain ⟨restored, -, -, silent, -, -, refused⟩ :=
    calls_stay_within_limit 2 9 callingItself (by decide)
  refine ⟨by decide, by decide +kernel, restored 0 callOfSelf, silent .exhausted 0 callOfSelf, rfl,
    ?_⟩
  exact fun h => absurd ((refused 0 []).mp h) (by decide)

end TailLoop.Eval
