import TailLoop.Proofs.Simulation.Runs

/-!
# Operations that agree

The operations of an evaluation on names, properties and built-in functions do the same in two runs,
when they are given values that are no functions of the program, and give such values back. The
operations on what has an identity do so because it is the same in both stores; those on names
because the running activations are related.
-/

namespace TailLoop.Simulation

open Eval

/-- A text is the key that it is. -/
theorem keyOf_text (x : Text) : keyOf (.text x) = pure x := rfl

/-- Setting a name, as a change of the machine. -/
theorem writeName_eq {name : Tree} {x : Text} (key : name.key = .ok x) (env : Nat)
    (l : Option Location) (v : Value) (m : Machine) :
    writeName env name l v m =
      match m.store.resolve? env x with
      | some i => .ok () { m with store := m.store.declare i x v }
      | none =>
        if m.strict then .error (.failed (.notDefined name.inline l)) m
        else .ok () { m with store := m.store.declare (m.store.root env) x v } := by
  obtain ⟨store, depth, strict⟩ := m
  have keyed : keyOf name = pure x := by rw [keyOf, key]; rfl
  rw [writeName, keyed, pure_bind]
  -- A name is written where it is declared, or it becomes global unless the code is strict.
  cases found : store.resolve? env x with
  | some i =>
    have assigned : changeGet (fun s => s.assign env x v) ⟨store, depth, strict⟩ =
        .ok true ⟨store.declare i x v, depth, strict⟩ := by
      simp only [changeGet_eq, Store.assign, found]
    rw [bind_of_ok assigned]
    rfl
  | none =>
    have assigned : changeGet (fun s => s.assign env x v) ⟨store, depth, strict⟩ =
        .ok false ⟨store, depth, strict⟩ := by
      simp only [changeGet_eq, Store.assign, found]
    rw [bind_of_ok assigned]
    cases strict <;> rfl

section Found

variable {env : Nat} {m : Machine}

/-- A name that is found is read. -/
theorem readName_of_lookup? {x : Text} {v : Value} (l : Option Location)
    (found : m.store.lookup? env x = some v) : readName env (.text x) l m = .ok v m := by
  rw [readName, keyOf_text, pure_bind, get_bind, found]
  rfl

/-- A text is the key of itself. -/
theorem keyed (x : Text) : (Tree.text x).key = .ok x := rfl

/-- A name that resolves is set where it is bound. -/
theorem writeName_of_resolve? {name : Tree} {x : Text} {i : Nat} (l : Option Location) (v : Value)
    (key : name.key = .ok x) (found : m.store.resolve? env x = some i) :
    writeName env name l v m = .ok () { m with store := m.store.declare i x v } := by
  rw [writeName_eq key, found]

end Found

section Names

variable {w : World} {frames : List Frame} {f : Frame} {s s' : Store} {x : Text}

/-- A name of the program has the same value in both runs. -/
theorem Alike.lookup? (h : Alike w (f :: frames) s s') (hx : w.hides x = false) :
    s'.lookup? f.target x = s.lookup? f.source x := by
  obtain ⟨g, hg, hg', -⟩ := h.globals
  obtain ⟨hs, ht, b, b', hb, hb', binds⟩ := h.related f List.mem_cons_self
  rw [lookup?_activation x hs hb hg, lookup?_activation x ht hb' hg', binds.same x hx]

/-- What a name stands for is no function, unless a global variable for a function is meant. -/
theorem Alike.isData_lookup? {v : Value} (h : Alike w (f :: frames) s s')
    (hx : x ∈ f.names ∨ ¬w.IsFunction x) (found : s.lookup? f.source x = some v) :
    v.isData = true := by
  obtain ⟨g, hg, -, globals⟩ := h.globals
  obtain ⟨hs, -, b, b', hb, -, binds⟩ := h.related f List.mem_cons_self
  rw [lookup?_activation x hs hb hg] at found
  -- A name is a variable of the activation or a global one, and both hold data.
  cases here : b.lookup x with
  | some u =>
    rw [here] at found
    cases found
    exact binds.data x v here
  | none =>
    have unbound : x ∉ f.names := fun hm => by
      have := (binds.bound x).mpr hm
      rw [here] at this
      cases this
    rw [here] at found
    exact globals.data x v found (hx.resolve_left unbound)

/-- A name that the activation does not bind stands for the global variable. -/
theorem Alike.lookup?_function {ref : Nat} (h : Alike w (f :: frames) s s') (hx : x ∉ f.names)
    (hf : (x, ref) ∈ w.functions) : s.lookup? f.source x = some (.function ref) := by
  obtain ⟨g, hg, -, globals⟩ := h.globals
  obtain ⟨hs, -, b, b', hb, -, binds⟩ := h.related f List.mem_cons_self
  have unbound : b.lookup x = none := by
    rw [← Option.not_isSome_iff_eq_none, binds.bound x]
    exact hx
  rw [lookup?_activation x hs hb hg, unbound, Option.none_or]
  exact globals.functions _ hf

/-- A name that is not hidden is read alike: it holds data, unless it is that of a function. -/
theorem readName_sim (l : Option Location) (hx : w.hides x = false) :
    Sim w (f :: frames) (fun v => x ∈ f.names ∨ ¬w.IsFunction x → v.isData = true)
      (Fails w (f :: frames)) (readName f.source (.text x) l)
      fun _ => readName f.target (.text x) l := by
  simp only [readName, keyOf_text, pure_bind]
  refine Sim.get fun m m' hm => ?_
  simp only [hm.stores.lookup? hx]
  cases found : m.store.lookup? f.source x with
  | some v => exact Sim.pure (fun free => hm.stores.isData_lookup? free found) m m' hm
  | none => exact Sim.fail _ m m' hm

/-- A name of the program is bound in the same place in both runs. -/
theorem Alike.isNone_resolve? (h : Alike w (f :: frames) s s') (hx : w.hides x = false) :
    (s'.resolve? f.target x).isNone = (s.resolve? f.source x).isNone := by
  obtain ⟨g, hg, hg', -⟩ := h.globals
  obtain ⟨hs, ht, b, b', hb, hb', binds⟩ := h.related f List.mem_cons_self
  rw [resolve?_activation x hs hb hg, resolve?_activation x ht hb' hg', binds.same x hx]
  split_ifs <;> rfl

/-- A name that is not hidden is bound in both runs or in none. -/
theorem isUnbound_sim (t : Tree)
    (ht : ∀ l name, t = .node l (.identifier name) →
      ∃ x, name = .text x ∧ w.hides x = false) :
    Sim w (f :: frames) (fun _ => True) (Fails w (f :: frames)) (isUnbound f.source t)
      fun _ => isUnbound f.target t := by
  unfold isUnbound
  split
  · rename_i l name
    obtain ⟨x, rfl, hx⟩ := ht l name rfl
    simp only [keyOf_text, pure_bind]
    refine Sim.get fun m m' hm => ?_
    rw [hm.stores.isNone_resolve? hx]
    exact Sim.pure trivial m m' hm
  · exact .pure trivial

/-- Setting a name of the program. -/
theorem writeName_sim {v : Value} (l : Option Location) (free : f.held = none)
    (hx : w.hides x = false) (assignable : x ∈ f.names ∨ ¬w.IsFixed x) (settled : x ∉ f.unset)
    (hv : v.isData = true) :
    Sim w (f :: frames) (fun _ => True) (Fails w (f :: frames))
      (writeName f.source (.text x) l v) fun _ => writeName f.target (.text x) l v := by
  rintro ⟨s, depth, strict⟩ ⟨s', depth', strict'⟩ ⟨stores, rfl, mode, deep, exact⟩ _
  obtain ⟨g, hg, hg', -⟩ := stores.globals
  obtain ⟨hs, ht, b, b', hb, hb', binds⟩ := stores.related f List.mem_cons_self
  have here := resolve?_activation x hs hb hg
  have there := resolve?_activation x ht hb' hg'
  rw [binds.same x hx] at there
  refine ⟨0, _, fun _ _ => rfl, ?_⟩
  rw [writeName_eq (x := x) rfl, writeName_eq (x := x) rfl, here, there, root_activation hs hb hg,
    root_activation ht hb' hg']
  by_cases bound : (b.lookup x).isSome = true
  · -- a variable of the activation
    rw [if_pos bound, if_pos bound]
    have stores' := stores.setLocal free settled ((binds.bound x).mp bound) hv
    exact .ok trivial ⟨stores', rfl, mode, deep, exact⟩
  have loose : ¬w.IsFixed x := assignable.resolve_left fun h => bound ((binds.bound x).mpr h)
  have stores' := stores.setGlobal loose hv
  rw [if_neg bound, if_neg bound]
  by_cases global : (g.lookup x).isSome = true
  · rw [if_pos global]
    exact .ok trivial ⟨stores', rfl, mode, deep, exact⟩
  · -- a name that is not declared: strict code fails, other code makes a global variable
    rw [if_neg global]
    cases strict' with
    | true => exact .error ⟨rfl, ⟨_, rfl⟩, stores, rfl, mode, deep, exact⟩
    | false => exact .ok trivial ⟨stores', rfl, mode, deep, exact⟩

end Names

section Heap

variable {w : World} {frames : List Frame}

/-! ## Texts, numbers, arrays and objects -/

/-- What is made of equal values is equal. -/
theorem Sim.map {α β : Type} {P : α → Prop} {Q : β → Prop} {E : Ending} {x : Eval α}
    {y : Nat → Eval α} {f : α → β} (h : Sim w frames P E x y) (hf : ∀ a, P a → Q (f a)) :
    Sim w frames Q E (f <$> x) fun k => f <$> y k := by
  simp only [map_eq_pure_bind]
  exact .bind h fun a ha => .pure (hf a ha)

/-- The text of data is alike in stores that are. -/
theorem textOf_sim {v : Value} (hv : v.isData = true) :
    Sim w frames (fun _ => True) (Fails w frames) (textOf v) fun _ => textOf v :=
  .read (fun _ _ h => h.heap.text hv) fun _ _ _ _ _ => trivial

/-- The number of data is alike in stores that are. -/
theorem numberOf_sim {v : Value} (hv : v.isData = true) :
    Sim w frames (fun _ => True) (Fails w frames) (numberOf v) fun _ => numberOf v :=
  .read (fun _ _ h => h.heap.number hv) fun _ _ _ _ _ => trivial

/-- A new array of data gets the same number in both stores. -/
theorem newArray_sim {items : Array Value} {E : Ending} (h : ∀ v ∈ items, v.isData = true) :
    Sim w frames (·.isData = true) E (newArray items) fun _ => newArray items := by
  have made : Sim w frames (fun _ => True) E (changeGet fun s => s.newArray items)
      fun _ => changeGet fun s => s.newArray items := by
    refine .changeGet fun s s' alike => ⟨trivial, ?_, ?_⟩
    · simp only [Store.newArray, alike.heap.arrays]
    · refine alike.withHeap ?_ rfl rfl rfl rfl
      have heap := alike.heap
      refine ⟨?_, heap.objects, heap.natives, heap.foreigns, heap.constants, ?_, heap.dataProperties⟩
      · simp only [Store.newArray, heap.arrays]
      · intro items' hi
        rcases Array.mem_push.mp hi with hi | rfl
        · exact heap.dataItems items' hi
        · exact h
  exact made.map fun _ _ => rfl

/-- A new built-in function gets the same number in both stores. -/
theorem newNative_sim (action : NativeAction) {E : Ending} :
    Sim w frames (·.isData = true) E (newNative action) fun _ => newNative action := by
  have made : Sim w frames (fun _ => True) E (changeGet fun s => s.newNative action)
      fun _ => changeGet fun s => s.newNative action := by
    refine .changeGet fun s s' alike => ⟨trivial, ?_, ?_⟩
    · simp only [Store.newNative, alike.heap.natives]
    · have heap := alike.heap
      refine alike.withHeap ⟨heap.arrays, heap.objects, ?_, heap.foreigns, heap.constants,
        heap.dataItems, heap.dataProperties⟩ rfl rfl rfl rfl
      simp only [Store.newNative, heap.natives]
  exact made.map fun _ _ => rfl

/-- The items of an array are the same data in both stores. -/
theorem itemsOf_sim (ref : Nat) {E : Ending} :
    Sim w frames (fun items => ∀ v ∈ items, v.isData = true) E (itemsOf ref)
      fun _ => itemsOf ref := by
  refine Sim.get fun m m' hm => ?_
  simp only [hm.stores.heap.items ref]
  exact Sim.pure (fun v hv => hm.stores.heap.isData_items hv) m m' hm

/-- An array changes in both stores alike, if it keeps holding no functions. -/
theorem modifyArray_sim (ref : Nat) (f : Array Value → Array Value) {E : Ending}
    (hf : ∀ items : Array Value, (∀ v ∈ items, v.isData = true) → ∀ v ∈ f items, v.isData = true) :
    Sim w frames (fun _ => True) E (change fun s => s.modifyArray ref f)
      fun _ => change fun s => s.modifyArray ref f := by
  refine .change fun s s' alike => ?_
  have heap := alike.heap
  refine alike.withHeap ⟨?_, heap.objects, heap.natives, heap.foreigns, heap.constants, ?_,
    heap.dataProperties⟩ rfl rfl rfl rfl
  · simp only [Store.modifyArray, heap.arrays]
  · intro items hi
    obtain ⟨i, found⟩ := Array.getElem?_of_mem hi
    simp only [Store.modifyArray, Array.getElem?_modify] at found
    split at found
    · obtain ⟨old, hold, rfl⟩ := Option.map_eq_some_iff.mp found
      exact hf old (heap.dataItems old (Array.mem_of_getElem? hold))
    · exact heap.dataItems items (Array.mem_of_getElem? found)

/-- Data is stored into both arrays alike. -/
theorem putProperty_sim (ref : Nat) (key : Text) {v : Value} {E : Ending} (hv : v.isData = true) :
    Sim w frames (fun _ => True) E (change fun s => s.putProperty ref key v)
      fun _ => change fun s => s.putProperty ref key v := by
  refine .change fun s s' alike => ?_
  have heap := alike.heap
  refine alike.withHeap ⟨heap.arrays, ?_, heap.natives, heap.foreigns, heap.constants,
    heap.dataItems, ?_⟩ rfl rfl rfl rfl
  · simp only [Store.putProperty, heap.objects]
  · intro ps hps p hp
    obtain ⟨i, found⟩ := Array.getElem?_of_mem hps
    simp only [Store.putProperty, Array.getElem?_modify] at found
    split at found
    · obtain ⟨old, hold, rfl⟩ := Option.map_eq_some_iff.mp found
      rcases mem_putEntry hp with rfl | hp
      · exact hv
      · exact heap.dataProperties old (Array.mem_of_getElem? hold) p hp
    · exact heap.dataProperties ps (Array.mem_of_getElem? found) p hp

/-! ## Operators -/

/-- A computation whose results, if it has any, are no functions. -/
def YieldsData (x : Except RuntimeError Value) : Prop := ∀ v, x = .ok v → v.isData = true

/-- A value that is data is one. -/
theorem yieldsData_ok {v : Value} (h : v.isData = true) : YieldsData (.ok v) := by
  intro u hu
  cases hu
  exact h

/-- The steps before the last one may give anything. -/
theorem yieldsData_bind {α : Type} {x : Except RuntimeError α}
    {f : α → Except RuntimeError Value} (h : ∀ a, YieldsData (f a)) : YieldsData (x >>= f) := by
  cases x with
  | ok a => exact h a
  | error e => exact fun _ => nofun

/-- What is made of the value at the end is data. -/
theorem yieldsData_map {α : Type} {x : Except RuntimeError α} {f : α → Value}
    (h : ∀ a, (f a).isData = true) : YieldsData (x.map f) := by
  cases x with
  | ok a => exact yieldsData_ok (h a)
  | error e => exact fun _ => nofun

/-- An operator on numbers gives a number. -/
theorem yieldsData_onNumbers {s : Store} {f : Double → Double → Double} {a b : Value} :
    YieldsData (s.onNumbers f a b) :=
  yieldsData_bind fun _ => yieldsData_bind fun _ => yieldsData_ok rfl

/-- An operator on bits gives a number. -/
theorem yieldsData_onBits {s : Store} {f : Bool → Bool → Bool} {a b : Value} :
    YieldsData (s.onBits f a b) :=
  yieldsData_bind fun _ => yieldsData_bind fun _ => yieldsData_ok rfl

/-- A comparison gives a flag. -/
theorem yieldsData_ordered {s : Store} {texts : Text → Text → Bool}
    {numbers : Double → Double → Bool} {a b : Value} : YieldsData (s.ordered texts numbers a b) := by
  unfold Store.ordered
  split
  · exact yieldsData_ok rfl
  · exact yieldsData_bind fun _ => yieldsData_bind fun _ => yieldsData_ok rfl

/-- Every operator between two values gives data. -/
theorem yieldsData_operate (s : Store) (op : BinaryOperator) (a b : Value) :
    YieldsData (s.operate op a b) := by
  -- By the operator: everything but text put together is a number or a truth value.
  cases op with
  | add =>
    simp only [Store.operate]
    split
    · exact yieldsData_bind fun _ => yieldsData_bind fun _ => yieldsData_ok rfl
    · exact yieldsData_onNumbers
  | subtract => exact yieldsData_onNumbers
  | multiply => exact yieldsData_onNumbers
  | divide => exact yieldsData_onNumbers
  | remainder => exact yieldsData_onNumbers
  | shiftLeft => exact yieldsData_bind fun _ => yieldsData_bind fun _ => yieldsData_ok rfl
  | shiftRight => exact yieldsData_bind fun _ => yieldsData_bind fun _ => yieldsData_ok rfl
  | shiftRightUnsigned => exact yieldsData_bind fun _ => yieldsData_bind fun _ => yieldsData_ok rfl
  | bitAnd => exact yieldsData_onBits
  | bitOr => exact yieldsData_onBits
  | bitXor => exact yieldsData_onBits
  | looseEqual => exact yieldsData_map fun _ => rfl
  | looseUnequal => exact yieldsData_map fun _ => rfl
  | strictEqual => exact yieldsData_ok rfl
  | strictUnequal => exact yieldsData_ok rfl
  | less => exact yieldsData_ordered
  | greater => exact yieldsData_ordered
  | lessOrEqual => exact yieldsData_ordered
  | greaterOrEqual => exact yieldsData_ordered

/-- Every operator on one value gives data. -/
theorem yieldsData_operateUnary (s : Store) (op : Option UnaryOperator) (v : Value) :
    YieldsData (s.operateUnary op v) := by
  unfold Store.operateUnary
  split
  · exact yieldsData_ok rfl
  · exact yieldsData_map fun _ => rfl
  · exact yieldsData_map fun _ => rfl
  · exact yieldsData_map fun _ => rfl
  · exact yieldsData_ok rfl
  · exact yieldsData_ok rfl
  · exact yieldsData_ok rfl

/-- An operator between data gives the same data in both runs. -/
theorem operate_sim (op : BinaryOperator) {a b : Value} (ha : a.isData = true)
    (hb : b.isData = true) :
    Sim w frames (·.isData = true) (Fails w frames) (read fun s => s.operate op a b)
      fun _ => read fun s => s.operate op a b :=
  .read (fun _ _ h => h.heap.operate op ha hb) fun s _ v _ hv => yieldsData_operate s op a b v hv

/-- So does an operator on data. -/
theorem operateUnary_sim (op : Option UnaryOperator) {v : Value} (hv : v.isData = true) :
    Sim w frames (·.isData = true) (Fails w frames) (read fun s => s.operateUnary op v)
      fun _ => read fun s => s.operateUnary op v :=
  .read (fun _ _ h => h.heap.operateUnary op hv) fun s _ u _ hu =>
    yieldsData_operateUnary s op v u hu

/-! ## Properties -/

/-- A property with a name gives the same data in both runs. -/
theorem namedProperty_sim (length : Nat) (method? : Text → Option NativeAction) (name : Text) :
    Sim w frames (·.isData = true) (Fails w frames) (namedProperty length method? name)
      fun _ => namedProperty length method? name := by
  unfold namedProperty
  refine .ite (fun _ => .pure rfl) fun _ => ?_
  cases method? name with
  | some action => exact newNative_sim action
  | none => exact .pure rfl

/-- Reading a property gives the same data in both runs. -/
theorem getProperty_sim (l : Option Location) {owner key : Value} (hk : key.isData = true) :
    Sim w frames (·.isData = true) (Fails w frames) (getProperty l owner key)
      fun _ => getProperty l owner key := by
  -- By the owner: properties are read from arrays, texts, objects and what is built in.
  cases owner with
  | undefined =>
    exact .bind (textOf_sim hk) fun _ _ => .bind (textOf_sim rfl) fun _ _ => .fail _
  | null => exact .bind (textOf_sim hk) fun _ _ => .bind (textOf_sim rfl) fun _ _ => .fail _
  | array ref =>
    refine .bind (.ofExcept (P := fun _ => True) fun _ _ => trivial) fun index _ => ?_
    cases index with
    | some i =>
      refine .bind (itemsOf_sim ref) fun items data => .pure ?_
      cases found : items[i]? with
      | some v => exact data v (Array.mem_of_getElem? found)
      | none => rfl
    | none =>
      exact .bind (textOf_sim hk) fun _ _ => .bind (itemsOf_sim ref) fun _ _ =>
        namedProperty_sim _ _ _
  | string t =>
    refine .bind (.ofExcept (P := fun _ => True) fun _ _ => trivial) fun index _ => ?_
    cases index with
    | some i => refine .pure ?_; cases t[i]? <;> rfl
    | none => exact .bind (textOf_sim hk) fun _ _ => namedProperty_sim _ _ _
  | object ref =>
    refine .bind (textOf_sim hk) fun name _ => .get fun m m' hm => ?_
    simp only [hm.stores.heap.properties ref]
    refine Sim.pure ?_ m m' hm
    cases found : (m.store.properties ref).lookup name with
    | some v =>
      obtain ⟨before, after, split, -⟩ := List.lookup_eq_some_iff.mp found
      have inside : (name, v) ∈ m.store.properties ref := by
        rw [split]
        simp
      exact hm.stores.heap.isData_properties inside
    | none => rfl
  | native f =>
    exact .bind (textOf_sim hk) fun _ _ => .ite (fun _ => .pure rfl) fun _ => .pure rfl
  | bool b => exact .pure rfl
  | number d => exact .pure rfl
  | function ref => exact .pure rfl
  | foreign i => exact .pure rfl

/-- An array may grow in both runs or in none. -/
theorem checkGrowth_sim (count : Nat) :
    Sim w frames (fun _ => True) (Fails w frames) (checkGrowth count) fun _ => checkGrowth count :=
  .ite (fun _ => .fail _) fun _ => .ite (fun _ => .fail _) fun _ => .pure trivial

/-- An array of data with another item of data is one of data. -/
theorem isData_setItem {items : Array Value} {v : Value} (i : Nat) (hv : v.isData = true)
    (h : ∀ u ∈ items, u.isData = true) : ∀ u ∈ setItem items i v, u.isData = true := by
  intro u hu
  unfold setItem at hu
  split at hu
  · rcases Array.mem_or_eq_of_mem_setIfInBounds hu with hu | rfl
    · exact h u hu
    · exact hv
  · rcases Array.mem_push.mp hu with hu | rfl
    · rcases Array.mem_append.mp hu with hu | hu
      · exact h u hu
      · rw [Array.mem_replicate] at hu
        rw [hu.2]
        rfl
    · exact hv

/-- An item of a part of an array is one of the array. -/
theorem mem_of_mem_extract {items : Array Value} {u : Value} {i j : Nat}
    (h : u ∈ items.extract i j) : u ∈ items := by
  obtain ⟨k, hk, rfl⟩ := Array.mem_extract_iff_getElem.mp h
  exact Array.getElem_mem _

/-- An array of data stays one when it is cut or filled up. -/
theorem isData_resize {items : Array Value} (length : Nat) (h : ∀ u ∈ items, u.isData = true) :
    ∀ u ∈ resize items length, u.isData = true := by
  intro u hu
  rcases Array.mem_append.mp hu with hu | hu
  · refine h u ?_
    rw [Array.take_eq_extract] at hu
    exact mem_of_mem_extract hu
  · rw [Array.mem_replicate] at hu
    rw [hu.2]
    rfl

/-- Storing data as a property does the same in both runs. -/
theorem setProperty_sim (l : Option Location) {owner key v : Value} (hk : key.isData = true)
    (hv : v.isData = true) :
    Sim w frames (fun _ => True) (Fails w frames) (setProperty l owner key v)
      fun _ => setProperty l owner key v := by
  -- By the owner: only arrays and objects can be changed.
  cases owner with
  | undefined =>
    exact .bind (textOf_sim hk) fun _ _ => .bind (textOf_sim rfl) fun _ _ => .fail _
  | null => exact .bind (textOf_sim hk) fun _ _ => .bind (textOf_sim rfl) fun _ _ => .fail _
  | array ref =>
    refine .bind (.ofExcept (P := fun _ => True) fun _ _ => trivial) fun index _ => ?_
    cases index with
    | some i =>
      exact .bind (itemsOf_sim ref) fun _ _ => .bind (checkGrowth_sim _) fun _ _ =>
        modifyArray_sim ref _ fun items h => isData_setItem i hv h
    | none =>
      refine .bind (textOf_sim hk) fun name _ => .ite (fun _ => ?_) fun _ => .pure trivial
      refine .bind (.ofExcept (P := fun _ => True) fun _ _ => trivial) fun length _ => ?_
      cases length with
      | some n =>
        exact .bind (itemsOf_sim ref) fun _ _ => .bind (checkGrowth_sim _) fun _ _ =>
          modifyArray_sim ref _ fun items h => isData_resize n h
      | none => exact .fail _
  | object ref => exact .bind (textOf_sim hk) fun name _ => putProperty_sim ref name hv
  | string t => exact .pure trivial
  | native f => exact .pure trivial
  | bool b => exact .pure trivial
  | number d => exact .pure trivial
  | function ref => exact .pure trivial
  | foreign i => exact .pure trivial

/-- The keys that a loop goes through are the same in both runs. -/
theorem keysOf_sim (v : Value) {E : Ending} :
    Sim w frames (fun _ => True) E (keysOf v) fun _ => keysOf v := by
  cases v with
  | array ref => exact .bind (itemsOf_sim ref) fun _ _ => .pure trivial
  | object ref =>
    refine .get fun m m' hm => ?_
    simp only [hm.stores.heap.properties ref]
    exact Sim.pure trivial m m' hm
  | _ => exact .pure trivial

/-- The values that a loop goes through are the same data in both runs. -/
theorem valuesOf_sim {v : Value} (hv : v.isData = true) :
    Sim w frames (fun vs => ∀ u ∈ vs, u.isData = true) (Fails w frames) (valuesOf v)
      fun _ => valuesOf v := by
  cases v with
  | array ref =>
    exact .bind (itemsOf_sim ref) fun items h => .pure fun u hu => h u (Array.mem_toList_iff.mp hu)
  | string t =>
    refine .pure fun u hu => ?_
    obtain ⟨c, -, rfl⟩ := List.mem_map.mp hu
    rfl
  | function ref => cases hv
  | _ => exact .bind (textOf_sim rfl) fun _ _ => .fail _

/-! ## Built-in functions -/

/-- An argument is data, also one that was not given. -/
theorem isData_argument {args : List Value} (h : ∀ v ∈ args, v.isData = true) (i : Nat) :
    (argument args i).isData = true := by
  unfold argument
  cases found : args[i]? with
  | some v => exact h v (List.mem_of_getElem? found)
  | none => rfl

/-- A position among the arguments is the same in both runs. -/
theorem positionArgument_sim {args : List Value} (h : ∀ v ∈ args, v.isData = true)
    (i length default : Nat) :
    Sim w frames (fun _ => True) (Fails w frames) (positionArgument args i length default)
      fun _ => positionArgument args i length default := by
  have data := isData_argument h i
  unfold positionArgument
  cases found : argument args i with
  | undefined => exact .pure trivial
  | function ref =>
    rw [found] at data
    cases data
  | _ => exact .bind (numberOf_sim rfl) fun _ _ => .pure trivial

/-- The bounds of a slice are the same in both runs. -/
theorem sliceBounds_sim {args : List Value} (h : ∀ v ∈ args, v.isData = true) (length : Nat) :
    Sim w frames (fun _ => True) (Fails w frames) (sliceBounds args length)
      fun _ => sliceBounds args length :=
  .bind (positionArgument_sim h 0 length 0) fun _ _ =>
    .bind (positionArgument_sim h 1 length length) fun _ _ => .pure trivial

/-- The numbers of the arguments are the same in both runs. -/
theorem numbersOf_sim {args : List Value} (h : ∀ v ∈ args, v.isData = true) :
    Sim w frames (fun _ => True) (Fails w frames) (numbersOf args) fun _ => numbersOf args :=
  (Sim.mapM fun v hv => numberOf_sim (h v hv)).weaken fun _ _ => trivial

/-- The items of arrays that are joined are no functions. -/
theorem isData_joined {s s' : Store} (heap : HeapAlike s s') {args : List Value}
    (h : ∀ v ∈ args, v.isData = true) {items : Array Value} (hi : ∀ v ∈ items, v.isData = true) :
    ∀ v ∈ args.foldl (fun items v => items ++ joinedItems s v) items, v.isData = true := by
  induction args generalizing items with
  | nil => exact hi
  | cons a args ih =>
    rw [List.forall_mem_cons] at h
    refine ih h.2 fun v hv => ?_
    rcases Array.mem_append.mp hv with hv | hv
    · exact hi v hv
    · cases a with
      | array ref => exact heap.isData_items hv
      | function ref => exact absurd h.1 (by simp [Value.isData])
      | _ =>
        rw [Array.mem_singleton.mp hv]
        rfl

/-- The items that joining appends are the same in both stores. -/
theorem joined_eq {s s' : Store} (heap : HeapAlike s s') (args : List Value) (items : Array Value) :
    args.foldl (fun items v => items ++ joinedItems s' v) items =
      args.foldl (fun items v => items ++ joinedItems s v) items := by
  have same : joinedItems s' = joinedItems s := by
    funext v
    cases v with
    | array ref => exact heap.items ref
    | _ => rfl
  rw [same]

/-- A built-in function gives the same data in both runs. -/
theorem callNative_sim (action : NativeAction) {args : List Value}
    (h : ∀ v ∈ args, v.isData = true) :
    Sim w frames (·.isData = true) (Fails w frames) (callNative action args)
      fun _ => callNative action args := by
  have first := isData_argument h 0
  -- By the action: what is built in returns numbers, texts and arrays of data, whatever it was
  -- given.
  cases action with
  | floor => exact .bind (numberOf_sim first) fun _ _ => .pure rfl
  | abs => exact .bind (numberOf_sim first) fun _ _ => .pure rfl
  | largest => exact .bind (numbersOf_sim h) fun _ _ => .pure rfl
  | smallest => exact .bind (numbersOf_sim h) fun _ _ => .pure rfl
  | isNaN => exact .bind (numberOf_sim first) fun _ _ => .pure rfl
  | toText =>
    cases args with
    | nil => exact .pure rfl
    | cons v _ => exact .bind (textOf_sim (h v List.mem_cons_self)) fun _ _ => .pure rfl
  | toNumber =>
    cases args with
    | nil => exact .pure rfl
    | cons v _ => exact .bind (numberOf_sim (h v List.mem_cons_self)) fun _ _ => .pure rfl
  | toBoolean => exact .pure rfl
  | arraySlice ref =>
    exact .bind (itemsOf_sim ref) fun items data => .bind (sliceBounds_sim h _) fun _ _ =>
      newArray_sim fun v hv => data v (mem_of_mem_extract hv)
  | arrayPush ref =>
    refine .bind (modifyArray_sim ref _ fun items data v hv => ?_) fun _ _ =>
      .bind (itemsOf_sim ref) fun _ _ => .pure rfl
    rcases Array.mem_append.mp hv with hv | hv
    · exact data v hv
    · exact h v (List.mem_toArray.mp hv)
  | arrayPop ref =>
    refine .bind (itemsOf_sim ref) fun items data => .bind (modifyArray_sim ref _ ?_) fun _ _ =>
      .pure ?_
    · intro items data v hv
      rw [← Array.mem_toList_iff, Array.toList_pop] at hv
      exact data v (Array.mem_toList_iff.mp (List.dropLast_subset _ hv))
    · cases last : items.back? with
      | some v => exact data v (Array.mem_of_back? last)
      | none => rfl
  | arrayConcat ref =>
    refine .get fun m m' hm => ?_
    have heap := hm.stores.heap
    simp only [joined_eq heap, heap.items ref]
    exact newArray_sim (isData_joined heap h fun v hv => heap.isData_items hv) m m' hm
  | arrayIndexOf ref => exact .bind (itemsOf_sim ref) fun _ _ => .pure rfl
  | arrayJoin ref =>
    have joined (separator : Text) :
        Sim w frames (fun v : Value => v.isData = true) (Fails w frames)
          (do
            let items ← itemsOf ref
            let parts ← read fun s => s.itemTexts items.toList
            return Value.string (Text.join separator parts))
          fun _ => do
            let items ← itemsOf ref
            let parts ← read fun s => s.itemTexts items.toList
            return Value.string (Text.join separator parts) := by
      refine .bind (itemsOf_sim ref) fun items data => .bind (P := fun _ => True) ?_ fun _ _ =>
        .pure rfl
      refine .read (fun _ _ alike => ?_) fun _ _ _ _ _ => trivial
      exact alike.heap.itemTexts fun v hv => data v (Array.mem_toList_iff.mp hv)
    unfold callNative
    cases found : argument args 0 with
    | undefined => exact joined _
    | function ref => exact absurd (found ▸ first) (by simp [Value.isData])
    | _ => exact .bind (textOf_sim rfl) fun separator _ => joined separator
  | textCharAt t =>
    have char (i : Int) : Sim w frames (fun v : Value => v.isData = true) (Fails w frames)
        (if 0 ≤ i then return Value.string (t[i.toNat]?.toList) else return Value.string [])
        fun _ =>
          if 0 ≤ i then return Value.string (t[i.toNat]?.toList) else return Value.string [] :=
      .ite (fun _ => .pure rfl) fun _ => .pure rfl
    unfold callNative
    cases found : argument args 0 with
    | undefined => exact char 0
    | function ref => exact absurd (found ▸ first) (by simp [Value.isData])
    | _ =>
      exact .bind (numberOf_sim rfl) fun _ _ =>
        .bind (.ofExcept (P := fun _ => True) fun _ _ => trivial) fun i _ => char i
  | textSlice t => exact .bind (sliceBounds_sim h _) fun _ _ => .pure rfl
  | textIndexOf t =>
    refine .bind (textOf_sim first) fun part _ => ?_
    cases Text.find? part t with
    | some i => exact .pure rfl
    | none => exact .pure rfl

end Heap

end TailLoop.Simulation
