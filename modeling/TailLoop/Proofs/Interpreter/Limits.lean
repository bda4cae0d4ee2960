import TailLoop.Proofs.Interpreter.CallDepth
import TailLoop.Proofs.Simulation.Sessions

/-!
# What the limit for calls decides

Whether calls are nested too deeply is all that the limit decides: as long as no call is refused, an
interpreter with a higher limit has the same results, and comes to the same machine after every
program and call (`history_eq_of_unhit`). The evaluations go in lockstep, which is carried over from
one command to the next.
-/

namespace TailLoop

namespace Eval

/-- Looking up a global function touches neither functions nor variables. -/
theorem plain_globalFunction {m : Machine} (name : Text) : Plain m (globalFunction name) := by
  refine .get fun m _ => ?_
  split
  · exact .fail rfl
  · exact .pure _
  · exact .fail rfl

variable {limit limit' : Nat} (less : limit ≤ limit') (fuel : Nat)

include less

/-- A statement of a program runs in step under both limits. -/
theorem lockstep_runStatement (v : Value) (t : Tree) :
    Lockstep limit limit' 0 (runStatement limit fuel v t) (runStatement limit' fuel v t) := by
  unfold runStatement
  split
  · exact (alike_ofFuel less fuel).evaluate (i := ()) trivial
  · exact ((alike_ofFuel less fuel).execute (i := ()) trivial).bind fun _ => .pure v

/-- A program sets the mode, and then goes in lockstep. -/
theorem tied_runProgram (program : Tree) {m : Machine} (within : m.depth ≤ limit) :
    ∃ strict, Tied limit limit' { m with strict } (runProgram limit fuel program m)
      (runProgram limit' fuel program m) := by
  unfold runProgram
  -- The strictness of the program is known before anything runs.
  cases program.field "body" with
  | error fault => exact ⟨m.strict, .same (.error (.refl m) trivial)⟩
  | ok body =>
    rw [attempt, pure_bind, pure_bind]
    cases body.startsStrict with
    | error fault => exact ⟨m.strict, .same (.error (.refl m) trivial)⟩
    | ok strict =>
      refine ⟨strict, ?_⟩
      have after : Lockstep limit limit' 0
          (do
            let statements ← attempt body.items
            hoist Store.globalEnvironment body
            guarded (statements.foldlM (runStatement limit fuel) .undefined))
          (do
            let statements ← attempt body.items
            hoist Store.globalEnvironment body
            guarded (statements.foldlM (runStatement limit' fuel) .undefined)) := by
        refine Lockstep.bind (.untouched fun _ => plain_attempt _) fun statements => ?_
        refine (lockstep_hoist _ body).bind fun _ => .guarded ?_
        exact .foldlM (lockstep_runStatement less fuel) .undefined
      exact after { m with strict } within

/-- A call from outside runs in step under both limits. -/
theorem lockstep_guardedCall (f : Value) (args : List Value) :
    Lockstep limit limit' 0 (guarded (call limit fuel f args))
      (guarded (call limit' fuel f args)) :=
  ((alike_ofFuel less fuel).call () f args).guarded

/-- So does the call of a global function. -/
theorem lockstep_callGlobal (name : Text) (args : List Value) :
    Lockstep limit limit' 0 (Interpreter.callGlobal limit fuel name args)
      (Interpreter.callGlobal limit' fuel name args) := by
  exact Lockstep.bind (.untouched fun _ => plain_globalFunction name) fun ref =>
    lockstep_guardedCall less fuel (.function ref) args

end Eval

namespace Interpreter

open Eval

/-- What an interpreter can be told to do: to run a program, to answer a request, and to call any
value. -/
inductive Command where
  | run (program : Tree)
  | answer (request : Request)
  | call (f : Value) (args : List Value)

/-- The result of a command, and the interpreter after it. -/
def carryOut (i : Interpreter) (fuel : Nat) : Command → Except Interrupt Value × Interpreter
  | .run program => i.run program fuel
  | .answer request => i.answer fuel request
  | .call f args => i.call f args fuel

/-- The results of commands that are carried out one after the other, each with the machine after
it. -/
def history (fuel : Nat) : Interpreter → List Command → List (Except Interrupt Value × Machine)
  | _, [] => []
  | i, c :: rest =>
    ((i.carryOut fuel c).1, (i.carryOut fuel c).2.machine) ::
      history fuel (i.carryOut fuel c).2 rest

/-- Whether a result is that calls are nested too deeply. -/
def hitsLimit : Except Interrupt Value → Bool
  | .error (.failed .stackOverflow) => true
  | _ => false

/-- Interpreters at one machine, within their limits, of which the first one is not higher. -/
structure Abreast (i i' : Interpreter) : Prop where
  machine : i'.machine = i.machine
  less : i.limit ≤ i'.limit
  within : i.machine.depth ≤ i.limit

variable {i i' : Interpreter}

/-- Two interpreters that are abreast stay so as long as the lower limit is not hit. -/
theorem Abreast.perform (h : Abreast i i') {x y : Eval Value} {m : Machine}
    (depth : m.depth = i.machine.depth)
    (tied : Tied i.limit i'.limit m (x i.machine) (y i.machine))
    (unhit : hitsLimit (i.perform x).1 = false) :
    (i'.perform y).1 = (i.perform x).1 ∧ Abreast (i.perform x).2 (i'.perform y).2 := by
  unfold Interpreter.perform at unhit ⊢
  rw [h.machine]
  generalize x i.machine = r at tied unhit ⊢
  generalize y i.machine = r' at tied ⊢
  cases tied with
  | refused lower kept => cases unhit
  | same keeps =>
    cases keeps with
    | ok kept => exact ⟨rfl, rfl, h.less, by simp only [kept.depth, depth]; exact h.within⟩
    | error kept why => exact ⟨rfl, rfl, h.less, by simp only [kept.depth, depth]; exact h.within⟩

/-- A command is carried out with the same result, and leaves them abreast. -/
theorem Abreast.carryOut (h : Abreast i i') (fuel : Nat) (c : Command)
    (unhit : hitsLimit (i.carryOut fuel c).1 = false) :
    (i'.carryOut fuel c).1 = (i.carryOut fuel c).1 ∧
      Abreast (i.carryOut fuel c).2 (i'.carryOut fuel c).2 := by
  -- Whatever is carried out runs in lockstep under both limits.
  have lockstep {x y : Eval Value} (both : Lockstep i.limit i'.limit 0 x y)
      (unhit : hitsLimit (i.perform x).1 = false) :
      (i'.perform y).1 = (i.perform x).1 ∧ Abreast (i.perform x).2 (i'.perform y).2 :=
    h.perform rfl (both i.machine h.within) unhit
  cases c with
  | run program =>
    obtain ⟨strict, tied⟩ := tied_runProgram h.less fuel program h.within
    exact h.perform (m := { i.machine with strict }) rfl tied unhit
  | answer request =>
    cases request with
    | array items => exact lockstep (.untouched fun _ => plain_newArray items.toArray) unhit
    | call name args =>
      simp only [Interpreter.carryOut, answer, callFunction_eq] at unhit ⊢
      exact lockstep (lockstep_callGlobal h.less fuel name args) unhit
  | call f args => exact lockstep (lockstep_guardedCall h.less fuel f args) unhit

/-- All commands are, if none of them hits the lower limit: by induction on the commands. -/
theorem Abreast.history_eq (h : Abreast i i') (fuel : Nat) {commands : List Command}
    (unhit : ∀ step ∈ history fuel i commands, hitsLimit step.1 = false) :
    history fuel i' commands = history fuel i commands := by
  induction commands generalizing i i' with
  | nil => rfl
  | cons c rest ih =>
    rw [history, List.forall_mem_cons] at unhit
    obtain ⟨result, after⟩ := h.carryOut fuel c unhit.1
    rw [history, history, result, after.machine, ih after unhit.2]

/-- The limit for calls cannot be observed before it is hit: when a new interpreter runs a program and
is told to do other things afterwards, and none of this ends because calls are nested too deeply,
then with a higher limit each result is the same, and so is the machine after it, with the global
variables, the arrays and whatever else there is. -/
theorem history_eq_of_unhit {limit limit' : Nat} (less : limit ≤ limit') (fuel : Nat)
    (program : Tree) (commands : List Command)
    (unhit : ∀ step ∈ history fuel (new limit) (.run program :: commands),
      hitsLimit step.1 = false) :
    history fuel (new limit') (.run program :: commands) =
      history fuel (new limit) (.run program :: commands) :=
  have abreast : Abreast (new limit) (new limit') := ⟨rfl, less, Nat.zero_le limit⟩
  abreast.history_eq fuel unhit

/-- A function `f` that sets a global variable, calls itself with one less until nothing is left, and
gives an array. -/
def countingDown : Tree :=
  Tree.new (.program (.tuple [
    Tree.new (.function .declaration (.identifier "f") (.tuple [.identifier "n"])
      (.block [
        Tree.new (.expressionStatement (Tree.assign "last" (.identifier "n"))),
        Tree.new (.ifStatement (.identifier "n")
          (Tree.new (.returnStatement (Tree.new (.call (.identifier "f")
            (.tuple [Tree.new (.binary (.text "-") (.identifier "n")
              (Tree.new (.literal (.num .one))))])))))
          .null),
        Tree.new (.returnStatement (Tree.new (.array (.tuple [.identifier "n"]))))]))]))

/-- Counting down from two takes three calls at a time: with room for them it does not matter for how
many more there is room, and with less room it is refused. -/
theorem history_eq_of_unhit_countingDown :
    3 ≤ 5 ∧
      (∀ step ∈ history 40 (new 3)
        [.run countingDown, .answer (.call "f" [.number (.ofNat 2)]), .call (.function 0) [.null]],
        hitsLimit step.1 = false) ∧
      history 40 (new 5)
        [.run countingDown, .answer (.call "f" [.number (.ofNat 2)]), .call (.function 0) [.null]] =
      history 40 (new 3)
        [.run countingDown, .answer (.call "f" [.number (.ofNat 2)]), .call (.function 0) [.null]] ∧
      (history 40 (new 2)
        [.run countingDown, .answer (.call "f" [.number (.ofNat 2)])]).map
          (fun step => hitsLimit step.1) = [false, true] := by
  -- Both runs are computed under the lower limit only.
  have unhit : ∀ step ∈ history 40 (new 3)
      [.run countingDown, .answer (.call "f" [.number (.ofNat 2)]), .call (.function 0) [.null]],
      hitsLimit step.1 = false := by
    decide +kernel
  refine ⟨by decide, unhit, ?_, by decide +kernel⟩
  exact history_eq_of_unhit (by decide) 40 countingDown
    [.answer (.call "f" [.number (.ofNat 2)]), .call (.function 0) [.null]] unhit

end Interpreter

end TailLoop
