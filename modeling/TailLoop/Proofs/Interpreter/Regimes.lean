import TailLoop.Proofs.Interpreter.Disciplines
import TailLoop.Proofs.Interpreter.JumpSafety

/-!
# Invariants of whole evaluations

A regime is an invariant of machines together with the code that may run where it holds, both for
each index of a type: the index tells what is known of the place at which an evaluation is, such as
its mode. To keep the invariant is a discipline. A regime that is lawful says what setting a name,
making a function and entering a function keep, and that the parts of code that may run may run as
well. Then every function of an evaluation keeps the invariant, however it ends (`Lawful.upheld`),
and so do the runs of programs and the calls that follow them.
-/

namespace TailLoop.Eval

open Routines

/-- An invariant of machines, and the code that may run in an environment where it holds. -/
structure Regime (ι : Type) where
  Holds : ι → Machine → Prop
  Runs : ι → (env : Nat) → Tree → Prop

/-- However an evaluation ends, it keeps the invariant of a regime at an index. -/
abbrev Regime.Keeps {ι : Type} (g : Regime ι) (i : ι) {α : Type} (act : Eval α) : Prop :=
  Always (g.Holds i) (fun _ => True) act

/-- To keep the invariant of a regime, where all may be set that may run. -/
abbrev Regime.discipline {ι : Type} (g : Regime ι) : Discipline ι where
  Obeys i _ act _ := g.Keeps i act
  Runs := g.Runs
  Sets := g.Runs

/-- Functions that keep the invariant of a regime when they are given code that may run. -/
abbrev Regime.Upheld {ι : Type} (g : Regime ι) (r : Routines) : Prop := g.discipline.Upheld r r

/-- What a regime has to be sure of. -/
structure Regime.Lawful {ι : Type} (g : Regime ι) : Prop where
  /-- The invariant is about functions, variables, the calls under way and the mode only. -/
  untouched {i m m'} (h : g.Holds i m) (same : Untouched m m') : g.Holds i m'
  /-- The items of a row may run. -/
  item {i env t u ts} (runs : g.Runs i env t) (row : t.items = .ok ts) (mem : u ∈ ts) :
    g.Runs i env u
  /-- The fields of a node may run, but for those of a function. -/
  field {i env t u} (name : Text) (runs : g.Runs i env t) (inert : t.isFunction = false)
    (found : t.field name = .ok u) : g.Runs i env u
  /-- The variable in the head of a loop may be set. -/
  declared {i env t u} (runs : g.Runs i env t) (found : t.field "id" = .ok u) : g.Runs i env u
  writeName {i env t} (runs : g.Runs i env t) (name : Tree) (l : Option Location) (v : Value) :
    g.Keeps i (writeName env name l v)
  /-- A function expression makes a function. -/
  function {i env l id params body}
    (runs : g.Runs i env (.node l (.function .expression id params body))) :
    g.Keeps i (idle.evaluateBy env (.node l (.function .expression id params body)))
  /-- A function may be called wherever the invariant holds. -/
  enter {i m} {ref : Nat} {c : Closure} (h : g.Holds i m) (found : m.store.closures[ref]? = some c)
    {r : Routines}
    (upheld : g.Upheld r) (args : List Value) :
    Ended (g.Holds i) (fun _ => True) (r.enterBy id c args m)

/-- What an evaluation keeps holds of the interpreter that performs it. -/
theorem Ended.performed {I : Machine → Prop} {E : Interrupt → Prop} {α : Type} {i : Interpreter}
    {act : Eval α} (h : Ended I E (act i.machine)) : I (i.perform act).2.machine := by
  unfold Interpreter.perform
  generalize act i.machine = r at h
  cases h with
  | ok kept => exact kept
  | error kept => exact kept

/-- What takes up interrupts keeps an invariant if what is in it does. -/
theorem Always.pass {I : Machine → Prop} {labels : List Text} {x : Eval Unit}
    (h : Always I (fun _ => True) x) : Always I (fun _ => True) (Eval.pass labels x) := by
  intro m hm
  have inner := h m hm
  unfold Eval.pass
  generalize x m = r at inner
  cases inner with
  | ok kept => exact .ok kept
  | @error e m' kept why =>
    cases e with
    | broke label | continued label =>
      simp only
      split
      · exact .ok kept
      · exact .error kept trivial
      · exact .error kept trivial
    | _ => exact .error kept trivial

/-- A labeled statement keeps what its body keeps. -/
theorem Always.labeled {I : Machine → Prop} {labels : List Text} {x : Eval Unit}
    (h : Always I (fun _ => True) x) : Always I (fun _ => True) (Eval.labeled labels x) := by
  intro m hm
  have inner := h m hm
  unfold Eval.labeled
  generalize x m = r at inner
  cases inner with
  | ok kept => exact .ok kept
  | @error e m' kept why =>
    cases e with
    | broke label =>
      simp only
      split
      · exact .ok kept
      · exact .error kept trivial
      · exact .error kept trivial
    | _ => exact .error kept trivial

section Keeping

variable {I : Machine → Prop} (untouched : ∀ {m m'}, I m → Untouched m m' → I m')

include untouched

/-- What makes no functions and touches no variables keeps an invariant that is about functions,
variables, the calls under way and the mode only. -/
theorem Always.of_plain {α : Type} {act : Eval α} (h : ∀ m, Plain m act) :
    Always I (fun _ => True) act := by
  intro m hm
  have done := h m m ⟨rfl, rfl, rfl, rfl⟩
  generalize act m = r at done
  cases done with
  | ok same => exact .ok (untouched hm same)
  | error same why => exact .error (untouched hm same) trivial

/-- Such an invariant holds as long as an interpreter is asked for something, if it holds when the
program has been run and calls keep it. -/
theorem keeps_of_leads {limit : Nat} {program : Tree}
    (start : ∀ fuel, I ((Interpreter.new limit).run program fuel).2.machine)
    (call : ∀ limit fuel f args, Always I (fun _ => True) (Eval.call limit fuel f args))
    {end_ : Except Interrupt Value × Interpreter} (leads : Interpreter.Leads limit program end_) :
    I end_.2.machine := by
  -- One case for each kind of answer: they change the machine by calls and by new arrays only.
  induction leads with
  | run fuel => exact start fuel
  | @answer r j before fuel request ih =>
    cases request with
    | array items =>
      exact (Always.of_plain untouched (fun _ => plain_newArray items.toArray) _ ih).performed
    | call name args =>
      have found : Always I (fun _ => True) (globalFunction name) := by
        refine .get fun m _ => ?_
        split
        · exact .fail trivial
        · exact .pure _
        · exact .fail trivial
      have called (ref : Nat) :
          Always I (fun _ => True) (guarded (Eval.call j.limit fuel (.function ref) args)) :=
        (call j.limit fuel _ args).guarded trivial
      rw [Interpreter.answer, Interpreter.callFunction_eq]
      exact (found.bind called j.machine ih).performed
  | @call r j before fuel f args ih =>
    exact ((call j.limit fuel f args).guarded trivial _ ih).performed

end Keeping

namespace Regime

variable {ι : Type} {g : Regime ι} {i : ι} {α : Type}

/-- An error keeps the invariant of a regime. -/
theorem keeps_fail (e : RuntimeError) : g.Keeps i (fail e : Eval α) := .fail trivial

/-- To keep it passes through the binding of names. -/
theorem keeps_congruent : Congruent fun {_} x _ => g.Keeps i x := Always.congruent fun _ => trivial

/-- A fault keeps it. -/
theorem keeps_attempt (r : Except Fault α) : g.Keeps i (attempt r) := keeps_congruent.attempt r

/-- Taking a name out of an identifier keeps it. -/
theorem keeps_nameOf (t : Tree) : g.Keeps i (nameOf t) := keeps_attempt _

/-- Taking a text out of a name keeps it. -/
theorem keeps_keyOf (name : Tree) : g.Keeps i (keyOf name) := keeps_attempt _

namespace Lawful

variable (lawful : g.Lawful)

include lawful

/-- What touches neither functions nor variables keeps it. -/
theorem plain {act : Eval α} (h : ∀ m, Plain m act) : g.Keeps i act :=
  .of_plain lawful.untouched h

/-- To keep the invariant of a lawful regime is a lawful discipline. -/
theorem disciplined : g.discipline.Lawful where
  pure a := .pure a
  throw _ := .throw trivial
  bind h next := h.bind next
  pass h := h.pass
  labeled h := h.labeled
  operation h := lawful.plain h.plain
  item := lawful.item
  field := lawful.field
  target runs mem := by
    obtain ⟨inert, name, found⟩ := Tree.field_of_mem_targets mem
    exact lawful.field name runs inert found
  declared runs first found := by
    obtain ⟨ts, row, mem⟩ := Tree.mem_of_item first
    have id := lawful.declared (lawful.item (lawful.field "declarations" runs rfl rfl) row mem) found
    exact ⟨id, id⟩
  readName _ := lawful.plain fun _ => plain_readName _ _ _
  isUnbound _ := lawful.plain fun _ => plain_isUnbound _ _
  writeName runs _ := lawful.writeName runs _
  function := lawful.function
  call upheld i limit ref args m hm := by
    -- The call is refused by the limit, or it has no closure, or it is entered.
    rw [callBy_function]
    split
    · exact .error hm trivial
    · split
      · exact .error hm trivial
      · rename_i c found
        exact lawful.enter hm found upheld args

/-- Every function of an evaluation keeps the invariant of a lawful regime. -/
theorem upheld (limit fuel : Nat) : g.Upheld (ofFuel limit fuel) :=
  lawful.disciplined.upheld limit fuel

/-- The invariant holds as long as an interpreter is asked for something, if it holds when the program
has been run. -/
theorem leads {limit : Nat} {program : Tree}
    (start : ∀ fuel, g.Holds i ((Interpreter.new limit).run program fuel).2.machine)
    {end_ : Except Interrupt Value × Interpreter} (leads : Interpreter.Leads limit program end_) :
    g.Holds i end_.2.machine :=
  keeps_of_leads lawful.untouched start (fun limit fuel => (lawful.upheld limit fuel).call i) leads

end Lawful

end Regime

end TailLoop.Eval
