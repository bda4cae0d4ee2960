import TailLoop.Proofs.Interpreter.Variables
import TailLoop.Proofs.Simulation.Loops

/-!
# What a converted call assigns

The assignments in the place of a tail call are staged: they set temporaries to all new values, and
then the parameters to the temporaries. Where all new values but the last are constants they are
direct: the parameter of the last one is set first, and then the others. Both ways come to the same
(`stagedAssignments_forM`) as long as the last value has nothing to do with the temporaries and no
constant is read from a parameter that has been set.
-/

namespace TailLoop.Simulation

open Eval Validity Elimination

section Assignments

variable {limit env k : Nat} {m : Machine}

/-- Setting variables to expressions whose values do not change while the variables are set. -/
theorem assignEach_steady {α : Type} {rows : List α} {name : α → Text} {e : α → Tree}
    {value : α → Value} (bound : m.store.Binds env (rows.map name))
    (steady : ∀ r ∈ rows, ∀ us : List (Text × Value), (∀ u ∈ us, u.1 ∈ rows.map name) →
      evaluate limit k env (e r) (m.setEach env us) = .ok (value r) (m.setEach env us)) :
    assignEach limit k env (rows.map fun r => (name r, e r)) m =
      .ok () (m.setEach env (rows.map fun r => (name r, value r))) := by
  -- By induction on the rows: a value is what it is whatever has been set before.
  induction rows generalizing m with
  | nil => rfl
  | cons r rows ih =>
    have evaluated : evaluate limit k env (e r) m = .ok (value r) m :=
      steady r List.mem_cons_self [] (List.forall_mem_nil _)
    have written := writeName_bound (m := m) (bound (name r) List.mem_cons_self) none (value r)
    have next : (m.setEach env [(name r, value r)]).store.Binds env (rows.map name) := fun x hx => by
      change (m.store.declare env (name r) (value r)).declares env x = true
      rw [Store.declares_declare (bound (name r) List.mem_cons_self)]
      exact bound x (List.mem_cons_of_mem _ hx)
    have rest := ih next fun f hf us among => by
      refine steady f (List.mem_cons_of_mem r hf) ((name r, value r) :: us) ?_
      refine List.forall_mem_cons.mpr ⟨List.mem_cons_self, fun u hu => ?_⟩
      exact List.mem_cons_of_mem _ (among u hu)
    have first : (do
        let v ← evaluate limit k env (e r)
        writeName env (.text (name r)) none v : Eval Unit) m =
          .ok () (m.setEach env [(name r, value r)]) :=
      (bind_of_ok evaluated).trans written
    exact (bind_of_ok first).trans rest

/-- Assigning two rows is assigning one after the other. -/
theorem assignEach_append (as bs : List (Text × Tree)) :
    assignEach limit k env (as ++ bs) =
      assignEach limit k env as >>= fun _ => assignEach limit k env bs := by
  simp only [assignEach, forM_append]

/-- Assigning a row of one is evaluating the value and setting the name. -/
theorem assignEach_singleton (x : Text) (e : Tree) :
    assignEach limit k env [(x, e)] =
      evaluate limit k env e >>= fun v => writeName env (.text x) none v := by
  simp [assignEach, List.forM]

/-- The value of a constant where the undefined value's name stands for `u`. -/
def constantIn (u : Value) (e : Tree) : Value :=
  if isIdentifier Tree.undefinedName e then u else (constantValue e).getD .undefined

/-- A constant is evaluated to the value that it has by itself, given that of `undefined`. -/
theorem evaluate_constant {e : Tree} {u : Value} (constant : isConstant e = true)
    (wellFormed : ∃ checked c, WellFormed checked c e)
    (known : m.store.lookup? env Tree.undefinedName = some u) :
    evaluate limit (k + 1) env e m = .ok (constantIn u e) m := by
  by_cases undefined : isIdentifier Tree.undefinedName e = true
  · obtain ⟨l, rfl⟩ := isIdentifier_iff.mp undefined
    rw [evaluate, constantIn, if_pos undefined]
    exact readName_of_lookup? l known
  · obtain ⟨l, value, rfl⟩ := eq_literal ((Bool.or_eq_true_iff.mp constant).resolve_right undefined)
    obtain ⟨v, found, -⟩ := constantValue_of_isConstant constant wellFormed
    rw [evaluate, constantIn, if_neg undefined, found]
    have plain : Value.ofTree? value = some v := found
    unfold literalOf
    rw [plain]
    rfl

/-- Setting variables to constants. -/
theorem assign_constants {rows : List (Text × Tree)} {u : Value}
    (constants : ∀ r ∈ rows, isConstant r.2 = true ∧ ∃ checked c, WellFormed checked c r.2)
    (bound : m.store.Binds env (rows.map (·.1))) (unnamed : Tree.undefinedName ∉ rows.map (·.1))
    (known : m.store.lookup? env Tree.undefinedName = some u) :
    assignEach limit (k + 1) env rows m =
      .ok () (m.setEach env (rows.map fun r => (r.1, constantIn u r.2))) := by
  have steady : assignEach limit (k + 1) env (rows.map fun r => (r.1, r.2)) m =
      .ok () (m.setEach env (rows.map fun r => (r.1, constantIn u r.2))) := by
    refine assignEach_steady bound fun r hr us among => ?_
    refine evaluate_constant (constants r hr).1 (constants r hr).2 ?_
    rw [Machine.setEach, Store.lookup?_setEach_of_notMem (binds_entries bound among)
      (notMem_entries unnamed among)]
    exact known
  simpa using steady

/-- The parameters that a call changes, each with a temporary, as staged assignments. -/
theorem stagedAssignments_eq {rows : List (Change × Text)}
    (present : ∀ r ∈ rows, r.1.value.isNull = false) :
    stagedAssignments (rows.map (·.2)) (rows.map (·.1)) =
      assigning (rows.map fun r => (r.2, r.1.value)) ++
        assigning (rows.map fun r => (r.1.param, Tree.identifier r.2)) := by
  have stage : Tree.assignAll (rows.map (·.2)) (rows.map (·.1.value)) =
      assigning (rows.map fun r => (r.2, r.1.value)) := assignAll_eq present
  have unstage : Tree.assignAll (rows.map (·.1.param)) (rows.map fun r => Tree.identifier r.2) =
      assigning (rows.map fun r => (r.1.param, Tree.identifier r.2)) := assignAll_eq fun _ _ => rfl
  rw [stagedAssignments, ← stage, ← unstage]
  simp only [List.map_map, Function.comp_def]

/-- The direct form assigns the last change first, and then the others in order. -/
theorem directAssignments_eq {cs : List Change} (present : ∀ c ∈ cs, c.value.isNull = false) :
    directAssignments cs = assigning ((lastFirst cs).map fun c => (c.param, c.value)) :=
  assignAll_eq fun c hc => present c (mem_turned.mp hc)

/-- The parameters take over what the temporaries hold. -/
theorem unstage_rows {α : Type} {rows : List α} {param temporary : α → Text} {value : α → Value}
    (bound : m.store.Binds env (rows.map param))
    (boundTemporaries : m.store.Binds env (rows.map temporary))
    (distinct : (rows.map temporary).Nodup) (apart : ∀ r ∈ rows, temporary r ∉ rows.map param) :
    assignEach limit (k + 1) env (rows.map fun r => (param r, Tree.identifier (temporary r)))
        (m.setEach env (rows.map fun r => (temporary r, value r))) =
      .ok () ((m.setEach env (rows.map fun r => (temporary r, value r))).setEach env
        (rows.map fun r => (param r, value r))) := by
  have temporaries : m.store.Binds env ((rows.map fun r => (temporary r, value r)).map (·.1)) := by
    simpa [Function.comp_def] using boundTemporaries
  have params : (m.setEach env (rows.map fun r => (temporary r, value r))).store.Binds env
      (rows.map param) := fun x hx => by
    rw [Machine.setEach, Store.declares_setEach temporaries]
    exact bound x hx
  -- A temporary is read while parameters are set, which are other names.
  refine assignEach_steady params fun r hr us among => ?_
  rw [evaluate_identifier]
  refine readName_of_lookup? none ?_
  rw [Machine.setEach, Store.lookup?_setEach_of_notMem (binds_entries params among)
    (notMem_entries (apart r hr) among)]
  exact Store.lookup?_setEach_of_mem temporaries (by simpa [Function.comp_def] using distinct)
    (List.mem_map_of_mem (f := fun r => (temporary r, value r)) hr)

/-- Assignments exhaust little fuel before they do anything. -/
theorem forM_assigning_of_le {fuel : Nat} (little : fuel ≤ 2) (entry : Text × Tree)
    (entries : List (Text × Tree)) :
    (assigning (entry :: entries)).forM (execute limit fuel env) m = .error .exhausted m := by
  have first : execute limit fuel env
      (Tree.new (.expressionStatement (Tree.assign entry.1 entry.2))) m = .error .exhausted m := by
    match fuel, little with
    | 0, _ => rw [execute]; rfl
    | 1, _ => rw [Tree.new, execute_expression, evaluate]; rfl
    | 2, _ =>
      rw [Tree.new, execute_expression, Tree.assign, Tree.new, evaluate]
      have plain : (Tree.text "=").inline = plainAssignment := rfl
      simp only [plain, if_true]
      rw [evaluate]
      rfl
  exact bind_of_error first

end Assignments

/-! ## Constants before the last value -/

/-- The values of constants under names. -/
def constantsIn (u : Value) (name : Change × Text → Text) (rows : List (Change × Text)) :
    List (Text × Value) :=
  rows.map fun r => (name r, constantIn u r.1.value)

/-- The names of constants are those of their rows. -/
theorem keys_constantsIn (u : Value) (name : Change × Text → Text) (rows : List (Change × Text)) :
    (constantsIn u name rows).map (·.1) = rows.map name := by
  simp [constantsIn, Function.comp_def]

/-- The parameters that a call changes with their temporaries, in a machine whose environment binds
all of them: the new values are constants but for the last one, and `u` is what the undefined
value's name stands for. -/
structure ConstantCall (env : Nat) (init : List (Change × Text)) (last : Change × Text) (u : Value)
    (m : Machine) : Prop where
  constants : ∀ r ∈ init, isConstant r.1.value = true ∧ ∃ checked c, WellFormed checked c r.1.value
  params : m.store.Binds env ((init ++ [last]).map (·.1.param))
  temporaries : m.store.Binds env ((init ++ [last]).map (·.2))
  distinctParams : ((init ++ [last]).map (·.1.param)).Nodup
  distinctTemporaries : ((init ++ [last]).map (·.2)).Nodup
  apart : ∀ r ∈ init ++ [last], r.2 ∉ (init ++ [last]).map (·.1.param)
  unnamedParams : Tree.undefinedName ∉ (init ++ [last]).map (·.1.param)
  unnamedTemporaries : Tree.undefinedName ∉ (init ++ [last]).map (·.2)
  known : m.store.lookup? env Tree.undefinedName = some u

namespace ConstantCall

variable {limit env k : Nat} {m : Machine} {init : List (Change × Text)} {last : Change × Text}
  {u : Value} (h : ConstantCall env init last u m) (v : Value)

/-- The rows before the last one are rows. -/
theorem mem_init {name : Change × Text → Text} {x : Text} (hx : x ∈ init.map name) :
    x ∈ (init ++ [last]).map name := by
  rw [List.map_append]
  exact List.mem_append_left _ hx

/-- The last row is one. -/
theorem mem_last (name : Change × Text → Text) : name last ∈ (init ++ [last]).map name := by simp

/-- The names of all rows are those of the constants and of the last row. -/
theorem keys_append (name : Change × Text → Text) :
    (constantsIn u name init ++ [(name last, v)]).map (·.1) = (init ++ [last]).map name := by
  rw [List.map_append, keys_constantsIn, List.map_append]
  rfl

include h

/-- The constants are assigned to their parameters or temporaries, in this machine or in one that has
been set otherwise. -/
theorem assigned (name : Change × Text → Text) {m' : Machine}
    (bound : m'.store.Binds env ((init ++ [last]).map name))
    (unnamed : Tree.undefinedName ∉ (init ++ [last]).map name)
    (known : m'.store.lookup? env Tree.undefinedName = some u) :
    assignEach limit (k + 1) env (init.map fun r => (name r, r.1.value)) m' =
      .ok () (m'.setEach env (constantsIn u name init)) := by
  have keys : (init.map fun r => (name r, r.1.value)).map (·.1) = init.map name := by
    simp [Function.comp_def]
  have part : assignEach limit (k + 1) env (init.map fun r => (name r, r.1.value)) m' = _ :=
    assign_constants (List.forall_mem_map.mpr h.constants)
      (fun x hx => bound x (mem_init (keys ▸ hx)))
      (fun named => unnamed (mem_init (keys ▸ named))) known
  simpa [constantsIn, Function.comp_def] using part

/-- The last value is put into its temporary, and the parameters take over what the temporaries
hold. -/
theorem handOn :
    (writeName env (.text last.2) none v >>= fun _ => assignEach limit (k + 1) env
        ((init ++ [last]).map fun r => (r.1.param, Tree.identifier r.2)))
        (m.setEach env (constantsIn u (·.2) init)) =
      .ok () ((m.setEach env (constantsIn u (·.2) init ++ [(last.2, v)])).setEach env
        (constantsIn u (·.1.param) init ++ [(last.1.param, v)])) := by
  -- The last row has the value that was evaluated, and the others have their constants.
  let value (r : Change × Text) : Value := if r.2 = last.2 then v else constantIn u r.1.value
  have separate := h.distinctTemporaries
  rw [List.map_append, List.nodup_append] at separate
  have entries (name : Change × Text → Text) : (init ++ [last]).map (fun r => (name r, value r)) =
      constantsIn u name init ++ [(name last, v)] := by
    have lastValue : value last = v := if_pos rfl
    rw [List.map_append, List.map_singleton, lastValue]
    refine congrArg (· ++ _) (List.map_congr_left fun r hr => ?_)
    rw [show value r = _ from
      if_neg (separate.2.2 r.2 (List.mem_map_of_mem hr) last.2 (by simp))]
  have binds : (m.setEach env (constantsIn u (·.2) init)).store.declares env last.2 = true := by
    rw [Machine.setEach, Store.declares_setEach fun x hx =>
      h.temporaries x (mem_init (keys_constantsIn u _ init ▸ hx))]
    exact h.temporaries last.2 (mem_last (·.2))
  have set := writeName_bound binds none v
  rw [← Machine.setEach_append] at set
  rw [bind_of_ok set, ← entries (·.2), ← entries (·.1.param)]
  -- As all temporaries are set, reading them back sets the parameters.
  exact unstage_rows h.params h.temporaries h.distinctTemporaries h.apart

/-- The last parameter is set first, and then the others. -/
theorem direct :
    (writeName env (.text last.1.param) none v >>= fun _ => assignEach limit (k + 1) env
        (init.map fun r => (r.1.param, r.1.value))) m =
      .ok () ((m.setEach env [(last.1.param, v)]).setEach env
        (constantsIn u (·.1.param) init)) := by
  -- The last change is assigned first; the constants do not read it.
  have binds : m.store.declares env last.1.param = true :=
    h.params last.1.param (mem_last (·.1.param))
  have bindsWritten : m.store.Binds env ([(last.1.param, v)].map (·.1)) := fun x hx => by
    rw [List.mem_singleton.mp hx]
    exact binds
  have other : Tree.undefinedName ∉ [(last.1.param, v)].map (·.1) := fun named =>
    h.unnamedParams (List.mem_singleton.mp named ▸ mem_last (·.1.param))
  have bindsParams : (m.setEach env [(last.1.param, v)]).store.Binds env
      ((init ++ [last]).map (·.1.param)) := fun x hx => by
    rw [Machine.setEach, Store.declares_setEach bindsWritten]
    exact h.params x hx
  have known : (m.setEach env [(last.1.param, v)]).store.lookup? env Tree.undefinedName =
      some u := by
    rw [Machine.setEach, Store.lookup?_setEach_of_notMem bindsWritten other]
    exact h.known
  exact (bind_of_ok (writeName_bound binds none v)).trans
    (h.assigned (·.1.param) bindsParams h.unnamedParams known)

/-- Both ways have set the parameters alike. -/
theorem setEach_eq :
    (m.setEach env (constantsIn u (·.2) init ++ [(last.2, v)])).setEach env
        (constantsIn u (·.1.param) init ++ [(last.1.param, v)]) =
      ((m.setEach env [(last.1.param, v)]).setEach env (constantsIn u (·.1.param) init)).setEach env
        (constantsIn u (·.2) init ++ [(last.2, v)]) := by
  -- Parameters, temporaries and the last parameter are names apart, so that the writes commute.
  have bindsT : m.store.Binds env ((constantsIn u (·.2) init ++ [(last.2, v)]).map (·.1)) :=
    keys_append v (·.2) ▸ h.temporaries
  have bindsP : m.store.Binds env
      ((constantsIn u (·.1.param) init ++ [(last.1.param, v)]).map (·.1)) :=
    keys_append v (·.1.param) ▸ h.params
  have bindsInit : m.store.Binds env ((constantsIn u (·.1.param) init).map (·.1)) := fun x hx =>
    h.params x (mem_init (keys_constantsIn u _ init ▸ hx))
  have bindsLast : m.store.Binds env ([(last.1.param, v)].map (·.1)) := fun x hx =>
    h.params x (List.mem_singleton.mp hx ▸ mem_last (·.1.param))
  have apart : ∀ y ∈ (constantsIn u (·.1.param) init ++ [(last.1.param, v)]).map (·.1),
      y ∉ (constantsIn u (·.2) init ++ [(last.2, v)]).map (·.1) := fun y hy taken => by
    rw [keys_append v (·.1.param)] at hy
    rw [keys_append v (·.2)] at taken
    obtain ⟨r, hr, rfl⟩ := List.mem_map.mp taken
    exact h.apart r hr hy
  have lastApart : ∀ y ∈ [(last.1.param, v)].map (·.1),
      y ∉ (constantsIn u (·.1.param) init).map (·.1) := fun y hy taken => by
    have distinct := h.distinctParams
    rw [List.map_append, List.nodup_append] at distinct
    rw [List.mem_singleton.mp hy, keys_constantsIn] at taken
    exact distinct.2.2 _ taken last.1.param (by simp) rfl
  calc _ = (m.setEach env (constantsIn u (·.1.param) init ++ [(last.1.param, v)])).setEach env
        (constantsIn u (·.2) init ++ [(last.2, v)]) :=
        Machine.setEach_comm bindsT bindsP (.inr apart)
    _ = ((m.setEach env (constantsIn u (·.1.param) init)).setEach env [(last.1.param, v)]).setEach
        env (constantsIn u (·.2) init ++ [(last.2, v)]) := by
      rw [Machine.setEach_append m env (constantsIn u (·.1.param) init)]
    _ = _ := by rw [Machine.setEach_comm bindsInit bindsLast (.inr lastApart)]

/-- The constants are put into their temporaries, then the last value into its own, and then all are
handed on: this comes to the same as setting the parameter of the last value first. -/
theorem staged (chained : m.store.Chained)
    (ignored : Ignores ((init ++ [last]).map (·.2)) env (evaluate limit (k + 1) env last.1.value) m)
    (kept : ∀ v m', evaluate limit (k + 1) env last.1.value m = .ok v m' →
      m'.store.lookup? env Tree.undefinedName = some u) :
    ∃ entries : List (Text × Value), (∀ e ∈ entries, e.1 ∈ (init ++ [last]).map (·.2)) ∧
      (assignEach limit (k + 1) env ((init ++ [last]).map fun r => (r.2, r.1.value)) >>= fun _ =>
        assignEach limit (k + 1) env
          ((init ++ [last]).map fun r => (r.1.param, Tree.identifier r.2))) m =
        afterwards (·.setEach env entries)
          (assignEach limit (k + 1) env
            ((last.1.param, last.1.value) :: init.map fun r => (r.1.param, r.1.value)) m) := by
  have among : ∀ e ∈ constantsIn u (·.2) init, e.1 ∈ (init ++ [last]).map (·.2) := fun e he =>
    mem_init (keys_constantsIn u _ init ▸ List.mem_map_of_mem he)
  have constants : assignEach limit (k + 1) env (init.map fun r => (r.2, r.1.value)) m = _ :=
    h.assigned (·.2) h.temporaries h.unnamedTemporaries h.known
  -- The last value is evaluated with the temporaries of the others set, which it does not mention.
  have evaluated := ignored _ among
  have first : ((init ++ [last]).map fun r : Change × Text => (r.2, r.1.value)) =
      init.map (fun r => (r.2, r.1.value)) ++ [(last.2, last.1.value)] := by simp
  rw [first, assignEach_append, bind_assoc, bind_of_ok constants, assignEach_singleton, bind_assoc]
  change ∃ entries : List (Text × Value), _ ∧ _ = afterwards _
    (((evaluate limit (k + 1) env last.1.value >>= fun v =>
      writeName env (.text last.1.param) none v) >>= fun _ => assignEach limit (k + 1) env
        (init.map fun r => (r.1.param, r.1.value))) m)
  rw [bind_assoc]
  cases done : evaluate limit (k + 1) env last.1.value m with
  | error e m1 =>
    rw [done] at evaluated
    rw [bind_of_error done, bind_of_error evaluated]
    exact ⟨_, among, rfl⟩
  | ok v m1 =>
    rw [done] at evaluated
    have inside := Store.inside_of_declares (h.params _ (mem_last (·.1.param)))
    have after : ConstantCall env init last u m1 := { h with
      params := (binds_of_evaluate chained inside h.params done).1
      temporaries := (binds_of_evaluate chained inside h.temporaries done).1
      known := kept v m1 done }
    rw [bind_of_ok done, bind_of_ok evaluated, after.handOn v, after.direct v, after.setEach_eq v]
    refine ⟨constantsIn u (·.2) init ++ [(last.2, v)], fun e he => ?_, rfl⟩
    rw [← keys_append (u := u) v (·.2)]
    exact List.mem_map_of_mem he

end ConstantCall

/-! ## Both forms of a converted call -/

/-- An activation of a function as a converted call finds it: the environment binds the parameters and
the temporaries, and the temporaries are new names. -/
structure Activation (env : Nat) (params temporaries : List Text) (m : Machine) : Prop where
  chained : m.store.Chained
  bindsParams : m.store.Binds env params
  bindsTemporaries : m.store.Binds env temporaries
  distinct : params.Nodup ∧ temporaries.Nodup
  apart : ∀ t ∈ temporaries, t ∉ params
  unnamed : Tree.undefinedName ∉ temporaries
  undefined : ∃ u, m.store.lookup? env Tree.undefinedName = some u

/-- A well-formed argument is not absent. -/
theorem present_of_wellFormed {e : Tree} (h : ∃ checked c, WellFormed checked c e) :
    e.isNull = false := by
  obtain ⟨checked, c, wf⟩ := h
  cases wf <;> rfl

/-- What a change assigns is well-formed. -/
theorem wellFormed_change {params : List Text} {args : List Tree}
    (h : ∀ e ∈ args, ∃ checked c, WellFormed checked c e) {c : Change}
    (hc : c ∈ changes params args) :
    ∃ checked c', WellFormed checked c' c.value := by
  rw [(mem_changes hc).2]
  cases found : args[c.index]? with
  | none => exact ⟨true, {}, .identifier (by decide)⟩
  | some e => exact h e (List.mem_of_getElem? found)

/-- The parameters that a call changes are different parameters. -/
theorem params_changes_sublist (params : List Text) (args : List Tree) :
    ((changes params args).map (·.param)).Sublist params := by
  have part : ((changed params args).map (·.1)).Sublist
      ((padded Tree.undefined params args).map (·.1)) :=
    List.filter_sublist.map _
  rw [map_fst_padded, ← map_changes, List.map_map] at part
  exact part

/-- The temp-free form of a converted call agrees with the staged form. In an activation of a function
with different parameters, let the new values of a call be constants but for the last one, and let no
parameter that changes have the name of the undefined value. If the evaluation of the last value
ignores the temporaries and leaves what the undefined value's name stands for, then the staged
assignments end in the same way as the direct ones, with the same machine but for the values of the
temporaries, with whatever fuel they are run. -/
theorem stagedAssignments_forM {limit fuel env : Nat} {params temporaries : List Text}
    {args : List Tree} {m : Machine} (direct : needsTemporaries (changes params args) = false)
    (wellFormed : ∀ e ∈ args, ∃ checked c, WellFormed checked c e)
    (activation : Activation env params temporaries m)
    (paired : temporaries.length = (changes params args).length)
    (unnamed : ∀ c ∈ changes params args, c.param ≠ Tree.undefinedName)
    (ignored : ∀ c ∈ (changes params args).getLast?,
      Ignores temporaries env (evaluate limit (fuel - 2) env c.value) m)
    (kept : ∀ c ∈ (changes params args).getLast?, ∀ v m',
      evaluate limit (fuel - 2) env c.value m = .ok v m' →
        m'.store.lookup? env Tree.undefinedName = m.store.lookup? env Tree.undefinedName) :
    ∃ entries : List (Text × Value), (∀ e ∈ entries, e.1 ∈ temporaries) ∧
      (stagedAssignments temporaries (changes params args)).forM (execute limit fuel env) m =
        afterwards (·.setEach env entries)
          ((directAssignments (changes params args)).forM (execute limit fuel env) m) := by
  have sublist := params_changes_sublist params args
  have wellFormed : ∀ c ∈ changes params args, ∃ checked c', WellFormed checked c' c.value :=
    fun _ => wellFormed_change wellFormed
  have present : ∀ c ∈ changes params args, c.value.isNull = false := fun c hc =>
    present_of_wellFormed (wellFormed c hc)
  have constant : ∀ c ∈ (changes params args).dropLast, isConstant c.value = true := by
    intro c hc
    refine constants_of_not_needsTemporaries direct (c.param, c.value) ?_
    rw [← map_changes, ← List.map_dropLast]
    exact List.mem_map_of_mem hc
  -- Each change with its temporary.
  obtain ⟨rows, changesEq, temporariesEq⟩ : ∃ rows : List (Change × Text),
      changes params args = rows.map (·.1) ∧ temporaries = rows.map (·.2) :=
    ⟨(changes params args).zip temporaries, (List.map_fst_zip (Nat.le_of_eq paired.symm)).symm,
      (List.map_snd_zip (Nat.le_of_eq paired)).symm⟩
  rw [changesEq] at direct sublist wellFormed present constant unnamed ignored kept ⊢
  subst temporariesEq
  rw [stagedAssignments_eq (List.forall_mem_map.mp present), directAssignments_eq present]
  rcases List.eq_nil_or_concat rows with rfl | ⟨init, last, rfl⟩
  · exact ⟨[], List.forall_mem_nil _, rfl⟩
  rw [List.concat_eq_append] at *
  have order : (lastFirst ((init ++ [last]).map (·.1))).map (fun c => (c.param, c.value)) =
      (last.1.param, last.1.value) :: init.map fun r => (r.1.param, r.1.value) := by
    simp [lastFirst, Function.comp_def]
  rw [order]
  by_cases little : fuel ≤ 2
  · obtain ⟨first, rest, staging⟩ : ∃ first rest,
        ((init ++ [last]).map fun r : Change × Text => (r.2, r.1.value)) = first :: rest :=
      List.exists_cons_of_ne_nil (by simp)
    have stops (entry : Text × Tree) (entries : List (Text × Tree)) :
        (assigning (entry :: entries)).forM (execute limit fuel env) m = .error .exhausted m :=
      forM_assigning_of_le little entry entries
    refine ⟨[], List.forall_mem_nil _, ?_⟩
    rw [forM_append, staging, bind_of_error (stops first rest), stops]
    rfl
  · obtain ⟨k, rfl⟩ : ∃ k, fuel = k + 3 := ⟨fuel - 3, by omega⟩
    obtain ⟨u, known⟩ := activation.undefined
    have names : (init ++ [last]).map (·.1.param) = ((init ++ [last]).map (·.1)).map (·.param) := by
      rw [List.map_map]
      rfl
    have lastOf : ((init ++ [last]).map (·.1)).getLast? = some last.1 := by simp
    have call : ConstantCall env init last u m := {
      constants := fun r hr =>
        ⟨constant r.1 (by simpa using ⟨r.2, hr⟩), wellFormed r.1 (by simpa using .inl ⟨r.2, hr⟩)⟩
      params := fun x hx => activation.bindsParams x (sublist.subset (names ▸ hx))
      temporaries := activation.bindsTemporaries
      distinctParams := names ▸ activation.distinct.1.sublist sublist
      distinctTemporaries := activation.distinct.2
      apart := fun r hr taken => activation.apart r.2 (List.mem_map_of_mem hr)
        (sublist.subset (names ▸ taken))
      unnamedParams := fun named => by
        obtain ⟨r, hr, same⟩ := List.mem_map.mp named
        exact unnamed r.1 (List.mem_map_of_mem hr) same
      unnamedTemporaries := activation.unnamed
      known := known }
    rw [forM_append, forM_assigning, forM_assigning, forM_assigning]
    exact call.staged activation.chained (ignored last.1 lastOf) fun v m' done =>
      (kept last.1 lastOf v m' done).trans known

/-! ## Calls in an activation -/

/-- A machine in an activation that binds the given variables. -/
def activationWith (bindings : List (Text × Value)) : Machine where
  store := (Store.initial.child Store.globalEnvironment).2.setEach 1 bindings
  depth := 0
  strict := false

/-- The environment of such an activation lies in the global one. -/
theorem chained_activationWith (bindings : List (Text × Value)) :
    (activationWith bindings).store.Chained :=
  (Store.chained_initial.child (by decide)).setEach 1 bindings

/-- Setting a variable to the value of another one ignores any that are neither. -/
theorem ignores_assign {limit k env : Nat} {m : Machine} {names : List Text} {x y : Text}
    (bound : m.store.Binds env names) (hx : x ∉ names) (hy : y ∉ names) :
    Ignores names env (evaluate limit (k + 2) env (Tree.assign x (.identifier y))) m := by
  rw [Tree.assign, Tree.identifier, Tree.new, Tree.new, evaluate_assignment, evaluate_identifier]
  refine .bind (.readName bound (key_ne_of_notMem hy) env none) fun v m' read => ?_
  obtain ⟨-, rfl⟩ := readName_ok read
  exact .bind (.writeName bound (key_ne_of_notMem hx) env none v) fun _ _ _ => .pure v

/-- Assigning a name with a known value to a bound one sets it to that value. -/
theorem evaluate_assign {limit k env : Nat} {m : Machine} {x y : Text} {v : Value}
    (binds : m.store.declares env x = true) (known : m.store.lookup? env y = some v) :
    evaluate limit (k + 2) env (Tree.assign x (.identifier y)) m =
      .ok v (m.setEach env [(x, v)]) := by
  rw [Tree.assign, Tree.identifier, Tree.new, Tree.new, evaluate_assignment, evaluate_identifier,
    bind_of_ok (readName_of_lookup? none known), bind_of_ok (writeName_bound binds none v)]
  rfl

/-- The arguments of a call `f(1, a = b)`. -/
def setsFirst : List Tree :=
  [Tree.new (.literal (.num .one)), Tree.assign "a" (.identifier "b")]

/-- An activation of a function with parameters `a` and `b`. -/
def pairActivation : Machine :=
  activationWith [("a", .string "first"), ("b", .string "second"), ("_tco_temp_a", .undefined),
    ("_tco_temp_b", .undefined)]

/-- In the call `f(1, a = b)` the last argument reads a parameter that it sets, and sets another. -/
theorem stagedAssignments_forM_setsFirst :
    needsTemporaries (changes ["a", "b"] setsFirst) = false ∧
      Activation 1 ["a", "b"] ["_tco_temp_a", "_tco_temp_b"] pairActivation ∧
      ∃ entries : List (Text × Value), (∀ e ∈ entries, e.1 ∈
        [Text.ofString "_tco_temp_a", "_tco_temp_b"]) ∧
        (stagedAssignments ["_tco_temp_a", "_tco_temp_b"] (changes ["a", "b"] setsFirst)).forM
            (execute 5 10 1) pairActivation =
          afterwards (·.setEach 1 entries)
            ((directAssignments (changes ["a", "b"] setsFirst)).forM (execute 5 10 1)
              pairActivation) := by
  -- Each hypothesis of the general statement, for two parameters and an argument that assigns.
  have direct : needsTemporaries (changes ["a", "b"] setsFirst) = false := by decide
  have activation : Activation 1 ["a", "b"] ["_tco_temp_a", "_tco_temp_b"] pairActivation := {
    chained := chained_activationWith _
    bindsParams := by unfold Store.Binds; decide
    bindsTemporaries := by unfold Store.Binds; decide
    distinct := by decide
    apart := by decide
    unnamed := by decide
    undefined := ⟨.undefined, rfl⟩ }
  have second : pairActivation.store.lookup? 1 "b" = some (.string "second") := rfl
  have last : (changes ["a", "b"] setsFirst).getLast? =
      some ⟨1, "b", Tree.assign "a" (.identifier "b")⟩ := rfl
  have binds : pairActivation.store.declares 1 "a" = true := by decide
  refine ⟨direct, activation, stagedAssignments_forM direct ?_ activation (by decide) (by decide)
    (fun c hc => ?_) fun c hc v m' done => ?_⟩
  · refine List.forall_mem_cons.mpr ⟨⟨true, {}, .literal rfl⟩, List.forall_mem_singleton.mpr ?_⟩
    exact ⟨true, {}, .assignment (by decide) rfl (.identifier (by decide)) rfl
      (.identifier (by decide))⟩
  · cases last.symm.trans hc
    exact ignores_assign activation.bindsTemporaries (by decide) (by decide)
  · cases last.symm.trans hc
    cases (evaluate_assign binds second).symm.trans done
    exact Store.lookup?_declare_ne binds (by decide) _ 1

/-- Whether an evaluation comes to an end where a name that is looked up in an environment has the
given value. -/
def holdsAfter (r : EStateM.Result Interrupt Machine Unit) (env : Nat) (x : Text)
    (v : Value) : Bool :=
  match r with
  | .ok _ m => (m.store.lookup? env x).any (Value.strictEquals v)
  | .error .. => false

/-- The arguments of a call `f(1, undefined, true)`. -/
def readsShadow : List Tree :=
  [Tree.new (.literal (.num .one)), Tree.undefined, Tree.new (.literal (.bool true))]

/-- An activation of a function with parameters `undefined`, `b` and `c`. -/
def shadowActivation : Machine :=
  activationWith [("undefined", .string "first"), ("b", .string "second"), ("c", .bool false),
    ("_tco_temp_undefined", .undefined), ("_tco_temp_b", .undefined), ("_tco_temp_c", .undefined)]

/-- A parameter with the name of the undefined value has been set when that name is read as a
constant, so that `b` is 1 after the direct assignments. It is what the first parameter was after
the staged ones. -/
theorem stagedAssignments_forM_readsShadow :
    let params : List Text := ["undefined", "b", "c"]
    let temporaries : List Text := ["_tco_temp_undefined", "_tco_temp_b", "_tco_temp_c"]
    needsTemporaries (changes params readsShadow) = false ∧
      Activation 1 params temporaries shadowActivation ∧
      (∀ c ∈ (changes params readsShadow).getLast?,
        Ignores temporaries 1 (evaluate 5 8 1 c.value) shadowActivation ∧
        evaluate 5 8 1 c.value shadowActivation = .ok (.bool true) shadowActivation) ∧
      ¬∃ entries : List (Text × Value), (∀ e ∈ entries, e.1 ∈ temporaries) ∧
        (stagedAssignments temporaries (changes params readsShadow)).forM (execute 5 10 1)
            shadowActivation =
          afterwards (·.setEach 1 entries)
            ((directAssignments (changes params readsShadow)).forM (execute 5 10 1)
              shadowActivation) := by
  intro params temporaries
  have binds : shadowActivation.store.Binds 1 temporaries := by
    unfold Store.Binds
    decide
  refine ⟨by decide, ?_, ?_, ?_⟩
  · exact {
      chained := chained_activationWith _
      bindsParams := by unfold Store.Binds; decide
      bindsTemporaries := binds
      distinct := by decide
      apart := by decide
      unnamed := by decide
      undefined := ⟨.string "first", rfl⟩ }
  · intro c hc
    have last : (changes params readsShadow).getLast? =
        some ⟨2, "c", Tree.new (.literal (.bool true))⟩ := rfl
    cases last.symm.trans hc
    have value (m : Machine) : evaluate 5 8 1 (Tree.new (.literal (.bool true))) m =
        .ok (.bool true) m := by
      rw [Tree.new, evaluate]
      rfl
    exact ⟨fun entries _ => by rw [value, value]; rfl, value _⟩
  -- Both orders set the parameter called `undefined`, but the staged one reads it before that.
  · rintro ⟨entries, among, same⟩
    have staged : holdsAfter ((stagedAssignments temporaries (changes params readsShadow)).forM
        (execute 5 10 1) shadowActivation) 1 "b" (.string "first") = true := by decide +kernel
    have direct : holdsAfter ((directAssignments (changes params readsShadow)).forM
        (execute 5 10 1) shadowActivation) 1 "b" (.string "first") = false := by decide +kernel
    have keeps : temporaries.all ((machineAfter ((directAssignments (changes params readsShadow)).forM
        (execute 5 10 1) shadowActivation)).store.declares 1) = true := by decide +kernel
    rw [same] at staged
    generalize (directAssignments (changes params readsShadow)).forM (execute 5 10 1)
      shadowActivation = r at staged direct keeps
    cases r with
    | error e m => cases staged
    | ok u m =>
      have binds : m.store.Binds 1 temporaries := List.all_eq_true.mp keeps
      have unset : Text.ofString "b" ∉ entries.map (·.1) := notMem_entries (by decide) among
      rw [afterwards, holdsAfter, Machine.setEach,
        Store.lookup?_setEach_of_notMem (binds_entries binds among) unset] at staged
      exact Bool.false_ne_true (direct.symm.trans staged)

end TailLoop.Simulation
