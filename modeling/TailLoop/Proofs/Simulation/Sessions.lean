import TailLoop.Proofs.Simulation.Loops

/-!
# Sessions

A session is what someone sees who lets an interpreter run a program and then asks it for arrays and
for calls of the functions of the program: the results, and the arrays and objects that these refer
to. Arrays are handed over by their numbers, so that arguments can share arrays and contain those
that earlier calls returned.

When the machines of two interpreters match, and the functions of one are the functions of the other
rewritten, they answer alike (`answers_eq`).
-/

namespace TailLoop

/-- What an interpreter is asked for that has run a program. -/
inductive Request where
  /-- An array of some values. -/
  | array (items : List Value)
  /-- A call of the global function of a name. -/
  | call (name : Text) (args : List Value)

/-- The values that are handed over with a request. -/
def Request.values : Request → List Value
  | .array items => items
  | .call _ args => args

/-- What shows of an answer: the result, and the arrays and objects that it can refer to. -/
structure Outcome where
  result : Except Interrupt Value
  arrays : Array (Array Value)
  objects : Array (List (Text × Value))

/-- Whether an evaluation ended before its fuel was used up. -/
def Outcome.finishes (o : Outcome) : Bool :=
  match o.result with
  | .error .exhausted => false
  | _ => true

/-- Whether calls were nested too deeply. -/
def Outcome.overflows (o : Outcome) : Bool :=
  match o.result with
  | .error (.failed .stackOverflow) => true
  | _ => false

namespace Interpreter

/-- What shows of a result and the interpreter that has given it. -/
def outcome (answered : Except Interrupt Value × Interpreter) : Outcome :=
  ⟨answered.1, answered.2.machine.store.arrays, answered.2.machine.store.objects⟩

/-- The answer to a request. -/
def answer (i : Interpreter) (fuel : Nat) : Request → Except Interrupt Value × Interpreter
  | .array items => i.perform (Eval.newArray items.toArray)
  | .call name args => i.callFunction name args fuel

/-- The answers to requests, one after the other. -/
def answers (fuel : Nat) : Interpreter → List Request → List Outcome
  | _, [] => []
  | i, r :: rest => outcome (i.answer fuel r) :: answers fuel (i.answer fuel r).2 rest

/-- A new interpreter runs a program and answers requests. -/
def session (limit fuel : Nat) (program : Tree) (requests : List Request) : List Outcome :=
  let started := (new limit).run program fuel
  outcome started :: answers fuel started.2 requests

/-- A call of the global function of a name, as one evaluation. -/
def callGlobal (limit fuel : Nat) (name : Text) (args : List Value) : Eval Value := do
  let ref ← Eval.globalFunction name
  Eval.guarded (Eval.call limit fuel (.function ref) args)

/-- A call from outside looks up the function and calls it. -/
theorem callFunction_eq (i : Interpreter) (name : Text) (args : List Value) (fuel : Nat) :
    i.callFunction name args fuel = i.perform (callGlobal i.limit fuel name args) := by
  unfold callFunction callGlobal
  cases found : Eval.globalFunction name i.machine with
  | ok ref m => simp only [perform, Simulation.bind_of_ok found, found, call]
  | error e m => simp only [perform, Simulation.bind_of_error found, found]

end Interpreter

namespace Simulation

open Eval

variable {w : World} {frames : List Frame} {α : Type} {P : α → Prop} {fuel : Nat}

/-- A global function has the same number in both runs. -/
theorem globalFunction_sim (name : Text) :
    Sim w frames (fun _ => True) (Fails w frames) (globalFunction name)
      fun _ => globalFunction name := by
  refine .get fun m m' hm => ?_
  obtain ⟨g, here, there, -⟩ := hm.stores.globals
  have same : m'.store.lookup? Store.globalEnvironment name =
      m.store.lookup? Store.globalEnvironment name := by
    rw [Store.globalEnvironment, lookup?_global name here, lookup?_global name there]
  simp only [same]
  cases m.store.lookup? Store.globalEnvironment name with
  | none => exact Sim.fail _ m m' hm
  | some v =>
    cases v with
    | function ref => exact Sim.pure trivial m m' hm
    | _ => exact Sim.fail _ m m' hm

/-- An array that contains itself has no text in either run. -/
theorem guarded_sim {x : Eval α} {y : Nat → Eval α} (h : Sim w frames P (Throws w frames {}) x y) :
    Sim w frames P (Throws w frames {}) (guarded x) fun k => guarded (y k) := by
  intro m m' hm counts
  -- Endless texts are the one failure that the guard takes up.
  have part : Counts w (x m) := by
    intro e m1 hx
    by_cases endless : e = .failed .endlessText
    · rw [endless]
      trivial
    · refine counts e m1 ?_
      rw [guarded, hx]
      split
      · rename_i same
        cases same
        exact (endless rfl).elim
      · rfl
  obtain ⟨n, r', settled, agree⟩ := h m m' hm part
  refine ⟨n, guarded (fun _ => r') m', fun k hk => by simp only [guarded, settled k hk], ?_⟩
  unfold guarded
  generalize x m = r at agree
  cases agree with
  | ok value machines => exact .ok value machines
  | error ends =>
    obtain ⟨rfl, allowed, machines⟩ := ends
    split
    · rename_i same
      cases same
      exact .error ⟨rfl, trivial, machines⟩
    · rename_i other
      split
      · rename_i same
        cases same
        exact (other _ rfl).elim
      · exact .error ⟨rfl, allowed, machines⟩

/-- Two interpreters whose machines match. -/
structure Together (w : World) (i i' : Interpreter) : Prop where
  limit : i.limit = w.limit
  limit' : i'.limit = w.limit
  machines : Matches w [] i.machine i'.machine

/-- A result is compared. -/
def Compared (w : World) (r : Except Interrupt α) : Prop := ∀ e, r = .error e → w.Compares e

/-- Outcomes that finish are compared, unless the limit of calls was hit. -/
theorem compared_of_finishes {o : Outcome} (finishes : o.finishes = true)
    (fits : w.loops = true → o.overflows = false) : Compared w o.result := by
  intro e ends
  unfold Outcome.finishes at finishes
  unfold Outcome.overflows at fits
  rw [ends] at finishes fits
  cases e with
  | failed error =>
    cases error with
    | stackOverflow =>
      rw [World.Compares, ← Bool.not_eq_true]
      intro on
      cases fits on
    | _ => trivial
  | exhausted => cases finishes
  | _ => trivial

/-- Two interpreters perform evaluations that agree. -/
theorem Together.perform {i i' : Interpreter} (h : Together w i i') {x : Eval α} {y : Nat → Eval α}
    (sim : Sim w [] P (Throws w [] {}) x y) (compared : Compared w (i.perform x).1) :
    ∃ n j, (∀ k, n ≤ k → i'.perform (y k) = ((i.perform x).1, j)) ∧
      Together w (i.perform x).2 j := by
  have counts : Counts w (x i.machine) := by
    intro e m1 hx
    exact compared e (by rw [Interpreter.perform, hx])
  obtain ⟨n, r', settled, agree⟩ := sim _ _ h.machines counts
  -- Both interpreters keep the machine that they end with.
  cases hx : x i.machine with
  | ok a m1 =>
    rw [hx] at agree
    cases agree with
    | @ok _ _ m1' value machines =>
      refine ⟨n, ⟨i'.limit, m1'⟩, fun k hk => ?_, ?_⟩
      · simp only [Interpreter.perform, settled k hk, hx]
      · simp only [Interpreter.perform, hx]
        exact ⟨h.limit, h.limit', machines⟩
  | error e m1 =>
    rw [hx] at agree
    cases agree with
    | @error _ e' _ m1' ends =>
      obtain ⟨rfl, -, machines⟩ := ends
      refine ⟨n, ⟨i'.limit, m1'⟩, fun k hk => ?_, ?_⟩
      · simp only [Interpreter.perform, settled k hk, hx]
      · simp only [Interpreter.perform, hx]
        exact ⟨h.limit, h.limit', machines⟩

/-- Two interpreters answer a request alike. -/
theorem Together.answer {i i' : Interpreter} (h : Together w i i') (rewritten : w.Rewritten)
    {r : Request} (data : ∀ v ∈ r.values, v.isData = true)
    (compared : Compared w (i.answer fuel r).1) :
    ∃ n j, (∀ k, n ≤ k → i'.answer k r = ((i.answer fuel r).1, j)) ∧
      Together w (i.answer fuel r).2 j := by
  cases r with
  | array items =>
    refine h.perform (y := fun _ => newArray items.toArray) (newArray_sim ?_) compared
    intro v hv
    -- An array is made at once; a function is called under the guard.
    exact data v (List.mem_toArray.mp hv)
  | call name args =>
    have called : Sim w [] (·.isData = true) (Throws w [] {})
        (Interpreter.callGlobal w.limit fuel name args)
        fun k => Interpreter.callGlobal w.limit k name args :=
      .bind (globalFunction_sim name).throws fun ref _ =>
        guarded_sim (callsAgree rewritten (fuel + 1) fuel (Nat.lt_succ_self fuel) [] ref args data)
    simp only [Interpreter.answer, Interpreter.callFunction_eq, h.limit, h.limit'] at compared ⊢
    exact h.perform called compared

/-- Two interpreters answer requests alike. -/
theorem answers_eq (rewritten : w.Rewritten) {requests : List Request}
    (data : ∀ r ∈ requests, ∀ v ∈ r.values, v.isData = true) {i i' : Interpreter}
    (h : Together w i i') (compared : ∀ o ∈ i.answers fuel requests, Compared w o.result) :
    ∃ n, ∀ k, n ≤ k → i'.answers k requests = i.answers fuel requests := by
  induction requests generalizing i i' with
  | nil => exact ⟨0, fun _ _ => rfl⟩
  | cons r rest ih =>
    rw [List.forall_mem_cons] at data
    rw [Interpreter.answers, List.forall_mem_cons] at compared
    obtain ⟨n, j, first, together⟩ := h.answer rewritten data.1 compared.1
    obtain ⟨n2, others⟩ := ih data.2 together compared.2
    have heap := together.machines.stores.heap
    refine ⟨max n n2, fun k hk => ?_⟩
    have same : Interpreter.outcome ((i.answer fuel r).1, j) =
        Interpreter.outcome (i.answer fuel r) := by
      simp only [Interpreter.outcome, heap.arrays, heap.objects]
    rw [Interpreter.answers, Interpreter.answers, first k (by omega), others k (by omega), same]

end Simulation

end TailLoop
