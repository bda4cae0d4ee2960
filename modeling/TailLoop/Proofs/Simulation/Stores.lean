import Mathlib.Tactic.Common
import TailLoop.Elimination.Scope
import TailLoop.Interpreter.Session

/-!
# Stores that are alike

Two runs are compared: one of a program and one of the program after its functions were rewritten.
The functions of both are made when the program starts, and no function is made later. `Alike` says
what the two stores have in common at any time. Arrays, objects and whatever else has an identity
are the same, since both runs make them in the same order. So are the global variables. The
functions differ in their bodies, and the environments in their number, so that the environments of
the activations under way are related one by one: a `Frame` is a pair of environments, one from each
store, that bind the same values to all names except those that only generated code uses.

A function can be told from its rewritten form by its text. The runs therefore keep functions apart
from other values: the value of a variable, an item or a property is never a function (`isData`),
except for the global variables that hold the functions of the program, which the program may only
call.

A frame can be held: its bindings are then known, and nothing may change them. The frames of the
callers are not held, but nothing changes them either; what a frame that is held adds is that the
code that runs in it does not change it. Of a frame that is not held, some variables can be known to
be undefined all the time, since nothing gives them values.
-/

namespace TailLoop

/-- Whether a value is no function of a program. -/
def Value.isData : Value → Bool
  | .function _ => false
  | _ => true

namespace Simulation

/-- Names with their values. -/
abbrev Bindings := List (Text × Value)

/-- What two runs have in common from the start to the end. -/
structure World where
  /-- The names that generated code uses. -/
  naming : Elimination.Naming
  /-- How many calls may be nested. -/
  limit : Nat
  /-- The functions of the program. -/
  source : Array Closure
  /-- The functions of the rewritten program. -/
  target : Array Closure
  /-- The global variables that hold functions, with the numbers of the functions. Nothing assigns
  to them. -/
  functions : List (Text × Nat)
  /-- Whether functions may have become loops. The rewritten program may then nest its calls less
  deep, and a run of the program that exceeds the limit is not compared; on the other hand, all
  jumps of the program are known to have targets. -/
  loops : Bool

namespace World

/-- Whether only generated code uses a name. -/
def hides (w : World) (x : Text) : Bool := w.loops && x.startsWith w.naming.temporary

/-- A global variable of the name holds a function. -/
def IsFunction (w : World) (x : Text) : Prop := x ∈ w.functions.map (·.1)

/-- Nothing assigns to the global variable of the name. -/
def IsFixed (w : World) (x : Text) : Prop := x = Tree.undefinedName ∨ w.IsFunction x

end World

/-- Two environments of activations, one from each store. -/
structure Frame where
  /-- The environment in the run of the program. -/
  source : Nat
  /-- The environment in the run of the rewritten program. -/
  target : Nat
  /-- The names that the environment of the program binds. -/
  names : List Text
  /-- Names of generated code that the other environment binds. -/
  spare : List Text
  /-- The name by which the function that runs calls itself, if it became a loop. -/
  own : Option Text
  /-- Whether the code of the function is strict. -/
  strict : Bool
  /-- The bindings of both, if nothing may change them. -/
  held : Option (Bindings × Bindings) := none
  /-- Variables that nothing may give a value. -/
  unset : List Text := []

/-- The bindings of the two environments of a frame. -/
structure Frame.Binds (w : World) (f : Frame) (b b' : Bindings) : Prop where
  /-- Names of the program have the same values. -/
  same : ∀ x, w.hides x = false → b'.lookup x = b.lookup x
  /-- No variable holds a function. -/
  data : ∀ x v, b.lookup x = some v → v.isData = true
  /-- The names are those of the frame. -/
  bound : ∀ x, (b.lookup x).isSome = true ↔ x ∈ f.names
  /-- The names of generated code are there. -/
  spared : ∀ x ∈ f.spare, (b'.lookup x).isSome = true
  /-- What is held of the bindings is what they are. -/
  kept : ∀ h ∈ f.held, h = (b, b')
  /-- What nothing gives a value is undefined. -/
  fresh : ∀ x ∈ f.unset, b.lookup x = some .undefined

/-- A frame in which these are the variables that nothing may give a value. -/
def Frame.leaving (f : Frame) (xs : List Text) : Frame := { f with unset := xs }

/-- Bindings in which some variables are undefined fit the frame in which nothing sets these. -/
theorem Frame.Binds.leaving {w : World} {f : Frame} {b b' : Bindings} {xs : List Text}
    (h : f.Binds w b b') (fresh : ∀ x ∈ xs, b.lookup x = some .undefined) :
    (f.leaving xs).Binds w b b' :=
  ⟨h.same, h.data, h.bound, h.spared, h.kept, fresh⟩

/-- The two environments of a frame stand in the stores, directly below the global ones. -/
def Frame.Alike (w : World) (s s' : Store) (f : Frame) : Prop :=
  0 < f.source ∧ 0 < f.target ∧ ∃ b b', s.environments[f.source]? = some ⟨some 0, b⟩ ∧
    s'.environments[f.target]? = some ⟨some 0, b'⟩ ∧ f.Binds w b b'

/-- The global variables of both runs. -/
structure GlobalsAlike (w : World) (g : Bindings) : Prop where
  /-- Only the variables for functions hold functions. -/
  data : ∀ x v, g.lookup x = some v → ¬w.IsFunction x → v.isData = true
  /-- The variables for functions hold their functions. -/
  functions : ∀ p ∈ w.functions, g.lookup p.1 = some (.function p.2)
  /-- The undefined value has its name. -/
  undefined : g.lookup Tree.undefinedName = some .undefined

/-- What has an identity is the same in both stores, and holds no functions. -/
structure HeapAlike (s s' : Store) : Prop where
  arrays : s'.arrays = s.arrays
  objects : s'.objects = s.objects
  natives : s'.natives = s.natives
  foreigns : s'.foreigns = s.foreigns
  constants : s'.constants = s.constants
  dataItems : ∀ items ∈ s.arrays, ∀ v ∈ items, v.isData = true
  dataProperties : ∀ ps ∈ s.objects, ∀ p ∈ ps, p.2.isData = true

/-- Two frames share no environment. -/
def Frame.Apart (f g : Frame) : Prop := f.source ≠ g.source ∧ f.target ≠ g.target

/-- The stores of the two runs. -/
structure Alike (w : World) (frames : List Frame) (s s' : Store) : Prop where
  heap : HeapAlike s s'
  source : s.closures = w.source
  target : s'.closures = w.target
  globals : ∃ g, s.environments[0]? = some ⟨none, g⟩ ∧ s'.environments[0]? = some ⟨none, g⟩ ∧
    GlobalsAlike w g
  related : ∀ f ∈ frames, f.Alike w s s'
  apart : frames.Pairwise Frame.Apart

/-- Stores stay alike if less is known of the variables that nothing may give a value. -/
theorem Alike.forget {w : World} {frames : List Frame} {f : Frame} {s s' : Store} {xs ys : List Text}
    (h : Alike w (f.leaving xs :: frames) s s') (fewer : ys ⊆ xs) :
    Alike w (f.leaving ys :: frames) s s' := by
  obtain ⟨hs, ht, b, b', here, there, binds⟩ := h.related _ List.mem_cons_self
  refine { h with related := ?_, apart := ?_ }
  · refine List.forall_mem_cons.mpr ⟨⟨hs, ht, b, b', here, there, ?_⟩, fun g hg => ?_⟩
    · exact ⟨binds.same, binds.data, binds.bound, binds.spared, binds.kept,
        fun x hx => binds.fresh x (fewer hx)⟩
    · exact h.related g (List.mem_cons_of_mem _ hg)
  · obtain ⟨first, rest⟩ := List.pairwise_cons.mp h.apart
    exact List.pairwise_cons.mpr ⟨first, rest⟩

/-! ## Entries -/

/-- An entry of another name does not matter. -/
theorem lookup_putEntry_ne {x y : Text} (h : x ≠ y) (v : Value) (b : List (Text × Value)) :
    (putEntry y v b).lookup x = b.lookup x := by
  have hb : (x == y) = false := beq_eq_false_iff_ne.mpr h
  induction b with
  | nil => rw [putEntry, List.lookup_cons, hb]
  | cons e rest ih =>
    obtain ⟨z, u⟩ := e
    rw [putEntry]
    split
    · rename_i hz
      subst hz
      rw [List.lookup_cons, List.lookup_cons, hb]
    · rw [List.lookup_cons, List.lookup_cons, ih]

/-- What is bound after an entry is the entry or was bound before. -/
theorem mem_putEntry {p : Text × Value} {y : Text} {v : Value} {b : List (Text × Value)}
    (h : p ∈ putEntry y v b) : p = (y, v) ∨ p ∈ b := by
  induction b with
  | nil => exact .inl (List.mem_singleton.mp h)
  | cons e rest ih =>
    rw [putEntry] at h
    split at h
    · rcases List.mem_cons.mp h with h | h
      · exact .inl h
      · exact .inr (List.mem_cons_of_mem e h)
    · rcases List.mem_cons.mp h with h | h
      · exact .inr (h ▸ List.mem_cons_self)
      · exact (ih h).imp id (List.mem_cons_of_mem e)

/-- The value of a name after some name was set. -/
theorem lookup_putEntry (x y : Text) (v : Value) (b : List (Text × Value)) :
    (putEntry y v b).lookup x = if x = y then some v else b.lookup x := by
  split
  · rename_i h
    rw [h, lookup_putEntry_self]
  · rename_i h
    exact lookup_putEntry_ne h v b

/-- An entry that is there already changes nothing. -/
theorem putEntry_self {x : Text} {v : Value} {b : Bindings} (h : b.lookup x = some v) :
    putEntry x v b = b := by
  induction b with
  | nil => cases h
  | cons e b ih =>
    obtain ⟨y, u⟩ := e
    rw [List.lookup_cons] at h
    rw [putEntry]
    by_cases hy : y = x
    · subst hy
      simp only [BEq.rfl] at h
      cases h
      simp
    · have : (x == y) = false := beq_eq_false_iff_ne.mpr (Ne.symm hy)
      rw [this] at h
      simp only at h
      rw [if_neg hy, ih h]

/-! ## Conversions of values that are no functions -/

/-- Two functions that agree on a list give the same outcomes along it. -/
theorem mapM_congr {ε α β : Type} {f g : α → Except ε β} {l : List α} (h : ∀ a ∈ l, f a = g a) :
    l.mapM f = l.mapM g := by
  induction l with
  | nil => rfl
  | cons a l ih =>
    rw [List.forall_mem_cons] at h
    rw [List.mapM_cons, List.mapM_cons, h.1, ih h.2]

namespace HeapAlike

variable {s s' : Store}

/-- Arrays of the same number have the same items. -/
theorem items (h : HeapAlike s s') (ref : Nat) : s'.items ref = s.items ref := by
  rw [Store.items, h.arrays, Store.items]

/-- They have the same other properties. -/
theorem properties (h : HeapAlike s s') (ref : Nat) : s'.properties ref = s.properties ref := by
  rw [Store.properties, h.objects, Store.properties]

/-- Their items are data. -/
theorem isData_items (h : HeapAlike s s') {ref : Nat} {v : Value} (hv : v ∈ s.items ref) :
    v.isData = true := by
  unfold Store.items at hv
  cases found : s.arrays[ref]? with
  | none => rw [found] at hv; simp at hv
  | some items =>
    rw [found] at hv
    exact h.dataItems items (Array.mem_of_getElem? found) v hv

/-- Their other properties are data. -/
theorem isData_properties (h : HeapAlike s s') {ref : Nat} {p : Text × Value}
    (hp : p ∈ s.properties ref) : p.2.isData = true := by
  unfold Store.properties at hp
  cases found : s.objects[ref]? with
  | none => rw [found] at hp; simp at hp
  | some ps =>
    rw [found] at hp
    exact h.dataProperties ps (Array.mem_of_getElem? found) p hp

/-- Data has the same text in both stores, with the same fuel. -/
theorem textWithin (h : HeapAlike s s') (fuel : Nat) {v : Value} (hv : v.isData = true) :
    s'.textWithin fuel v = s.textWithin fuel v := by
  -- By induction on the fuel: only arrays hold other values, and their items are the same.
  induction fuel generalizing v with
  | zero => cases v <;> first | rfl | cases hv
  | succ fuel ih =>
    cases v with
    | array ref =>
      simp only [Store.textWithin, h.items ref]
      have same : (s.items ref).toList.mapM
            (fun v => if v.isNullish then (.ok [] : Except RuntimeError Text)
              else s'.textWithin fuel v) =
          (s.items ref).toList.mapM
            (fun v => if v.isNullish then (.ok [] : Except RuntimeError Text)
              else s.textWithin fuel v) := by
        refine mapM_congr fun v hv => ?_
        rw [ih (h.isData_items (Array.mem_toList_iff.mp hv))]
      rw [same]
    | function ref => cases hv
    | _ => rfl

/-- Data has the same text in both stores. -/
theorem text (h : HeapAlike s s') {v : Value} (hv : v.isData = true) : s'.text v = s.text v := by
  rw [Store.text, Store.text, h.arrays, h.textWithin _ hv]

/-- Items of data have the same texts. -/
theorem itemTexts (h : HeapAlike s s') {vs : List Value} (hv : ∀ v ∈ vs, v.isData = true) :
    s'.itemTexts vs = s.itemTexts vs := by
  refine mapM_congr fun v hm => ?_
  rw [h.text (hv v hm)]

/-- Data has the same number in both stores. -/
theorem number (h : HeapAlike s s') {v : Value} (hv : v.isData = true) :
    s'.number v = s.number v := by
  cases v with
  | array ref => simp only [Store.number, h.text (v := .array ref) rfl]
  | function ref => cases hv
  | _ => rfl

/-- The same for the signed integer of 32 bits. -/
theorem signed32 (h : HeapAlike s s') {v : Value} (hv : v.isData = true) :
    s'.signed32 v = s.signed32 v := by
  rw [Store.signed32, h.number hv, Store.signed32]

/-- The same for the unsigned one. -/
theorem unsigned32 (h : HeapAlike s s') {v : Value} (hv : v.isData = true) :
    s'.unsigned32 v = s.unsigned32 v := by
  rw [Store.unsigned32, h.signed32 hv, Store.unsigned32]

/-- Two values are equal in both stores or in none. -/
theorem looseEquals (h : HeapAlike s s') (a b : Value) : s'.looseEquals a b = s.looseEquals a b :=
  Store.looseEquals_congr (fun _ => h.text rfl) a b

/-- An operator between data gives the same in both stores. -/
theorem operate (h : HeapAlike s s') (op : BinaryOperator) {a b : Value} (ha : a.isData = true)
    (hb : b.isData = true) : s'.operate op a b = s.operate op a b := by
  unfold Store.operate
  simp only [Store.onNumbers, Store.onBits, Store.ordered, Store.shiftCount, h.text ha,
    h.text hb, h.number ha, h.number hb, h.signed32 ha, h.signed32 hb, h.unsigned32 ha,
    h.unsigned32 hb, h.looseEquals]

/-- So does an operator on data. -/
theorem operateUnary (h : HeapAlike s s') (op : Option UnaryOperator) {v : Value}
    (hv : v.isData = true) : s'.operateUnary op v = s.operateUnary op v := by
  unfold Store.operateUnary
  simp only [h.number hv, h.signed32 hv]

end HeapAlike

/-! ## Names seen from an activation -/

section Names

variable {s : Store} {e : Nat} {b g : Bindings}

/-- A name is bound in the environment of the activation, or in the global one, or not at all. -/
theorem resolve?_activation (x : Text) (he : 0 < e) (hb : s.environments[e]? = some ⟨some 0, b⟩)
    (hg : s.environments[0]? = some ⟨none, g⟩) :
    s.resolve? e x =
      if (b.lookup x).isSome then some e else if (g.lookup x).isSome then some 0 else none := by
  obtain ⟨d, rfl⟩ : ∃ d, e = d + 1 := ⟨e - 1, by omega⟩
  have outer : s.resolveWithin x (d + 1) 0 = if (g.lookup x).isSome then some 0 else none := by
    rw [Store.resolveWithin, hg]
    rfl
  rw [Store.resolve?, Store.resolveWithin, hb]
  change (if (b.lookup x).isSome then _ else s.resolveWithin x (d + 1) 0) = _
  rw [outer]

/-- A name in the environment of a call is looked up there, and then in the global one. -/
theorem lookup?_activation (x : Text) (he : 0 < e) (hb : s.environments[e]? = some ⟨some 0, b⟩)
    (hg : s.environments[0]? = some ⟨none, g⟩) :
    s.lookup? e x = (b.lookup x).or (g.lookup x) := by
  rw [Store.lookup?, resolve?_activation x he hb hg]
  cases hx : b.lookup x with
  | some v => simp [hb, hx]
  | none =>
    cases hy : g.lookup x with
    | some v => simp [hg, hy]
    | none => simp

/-- The outermost environment around that of a call is the global one. -/
theorem root_activation (he : 0 < e) (hb : s.environments[e]? = some ⟨some 0, b⟩)
    (hg : s.environments[0]? = some ⟨none, g⟩) : s.root e = 0 := by
  obtain ⟨d, rfl⟩ : ∃ d, e = d + 1 := ⟨e - 1, by omega⟩
  rw [Store.root, Store.rootWithin, hb]
  simp only [Option.bind_some]
  rw [Store.rootWithin, hg]
  rfl

/-- A name in the global environment is looked up there only. -/
theorem lookup?_global (x : Text) (hg : s.environments[0]? = some ⟨none, g⟩) :
    s.lookup? 0 x = g.lookup x := by
  have found : s.resolve? 0 x = if (g.lookup x).isSome then some 0 else none := by
    rw [Store.resolve?, Store.resolveWithin, hg]
    rfl
  rw [Store.lookup?, found]
  cases hx : g.lookup x with
  | some v => simp [hg, hx]
  | none => simp

/-- The environments after a name was bound in one of them. -/
theorem environments_declare (s : Store) (i j : Nat) (x : Text) (v : Value) :
    (s.declare i x v).environments[j]? =
      if i = j then s.environments[j]?.map (·.bind x v) else s.environments[j]? :=
  Array.getElem?_modify

/-- Setting a variable to the value that it has changes nothing. -/
theorem declare_self {s : Store} {i : Nat} {x : Text} {v : Value} {e : Environment}
    (here : s.environments[i]? = some e) (found : e.bindings.lookup x = some v) :
    s.declare i x v = s := by
  have same : s.environments.modify i (·.bind x v) = s.environments := by
    apply Array.ext_getElem?
    intro j
    rw [Array.getElem?_modify]
    split
    · rename_i h
      subst h
      rw [here, Option.map_some, Environment.bind, putEntry_self found]
    · rfl
  rw [Store.declare, same]

end Names

/-! ## Changes to both stores -/

section Changes

variable {w : World} {frames : List Frame} {f : Frame} {s s' : Store}

/-- A change of what has an identity keeps the stores alike when it is made to both. -/
theorem Alike.withHeap {t t' : Store} (h : Alike w frames s s') (heap : HeapAlike t t')
    (source : t.closures = s.closures) (target : t'.closures = s'.closures)
    (here : t.environments = s.environments) (there : t'.environments = s'.environments) :
    Alike w frames t t' where
  heap := heap
  source := source.trans h.source
  target := target.trans h.target
  globals := by rw [here, there]; exact h.globals
  related f hf := by
    have found := h.related f hf
    unfold Frame.Alike at found ⊢
    rw [here, there]
    exact found
  apart := h.apart

/-- A frame keeps its environments when others change. -/
theorem Frame.Alike.declare_ne {x y : Text} {u v : Value} {i j : Nat} (h : f.Alike w s s')
    (hi : i ≠ f.source) (hj : j ≠ f.target) :
    f.Alike w (s.declare i x u) (s'.declare j y v) := by
  unfold Frame.Alike
  rw [environments_declare, environments_declare, if_neg hi, if_neg hj]
  exact h

/-- A frame keeps its environments when another one of the rewritten program changes. -/
theorem Frame.Alike.declare_right {y : Text} {v : Value} {j : Nat} (h : f.Alike w s s')
    (hj : j ≠ f.target) : f.Alike w s (s'.declare j y v) := by
  unfold Frame.Alike
  rw [environments_declare, if_neg hj]
  exact h

/-- Declaring names, whatever they are, leaves the arrays alike. -/
theorem HeapAlike.declare (h : HeapAlike s s') (i j : Nat) (x y : Text) (u v : Value) :
    HeapAlike (s.declare i x u) (s'.declare j y v) :=
  ⟨h.arrays, h.objects, h.natives, h.foreigns, h.constants, h.dataItems, h.dataProperties⟩

/-- So does declaring a name in the second store only. -/
theorem HeapAlike.declare_right (h : HeapAlike s s') (j : Nat) (y : Text) (v : Value) :
    HeapAlike s (s'.declare j y v) :=
  ⟨h.arrays, h.objects, h.natives, h.foreigns, h.constants, h.dataItems, h.dataProperties⟩

/-- The stores stay alike when the same global variable is set in both. -/
theorem Alike.setGlobal {x : Text} {v : Value} (h : Alike w frames s s') (hx : ¬w.IsFixed x)
    (hv : v.isData = true) : Alike w frames (s.declare 0 x v) (s'.declare 0 x v) where
  heap := h.heap.declare ..
  source := h.source
  target := h.target
  globals := by
    obtain ⟨g, hg, hg', alike⟩ := h.globals
    refine ⟨putEntry x v g, ?_, ?_, ?_⟩
    · rw [environments_declare, if_pos rfl, hg]
      rfl
    · rw [environments_declare, if_pos rfl, hg']
      rfl
    -- What is global stays data, and neither a function nor the undefined value was overwritten.
    · constructor
      · intro y u hy free
        rw [lookup_putEntry] at hy
        split at hy
        · cases hy
          exact hv
        · exact alike.data y u hy free
      · intro p hp
        have : p.1 ≠ x := fun e => hx (.inr (e ▸ List.mem_map_of_mem hp))
        rw [lookup_putEntry_ne this]
        exact alike.functions p hp
      · rw [lookup_putEntry_ne fun e => hx (.inl e.symm)]
        exact alike.undefined
  related f hf := by
    have found := h.related f hf
    have hs := found.1
    have ht := found.2.1
    exact found.declare_ne (by omega) (by omega)
  apart := h.apart

/-- The stores stay alike when the same variable of the running activation is set in both. -/
theorem Alike.setLocal {x : Text} {v : Value} (h : Alike w (f :: frames) s s')
    (free : f.held = none) (settled : x ∉ f.unset) (bound : x ∈ f.names) (hv : v.isData = true) :
    Alike w (f :: frames) (s.declare f.source x v) (s'.declare f.target x v) where
  heap := h.heap.declare ..
  source := h.source
  target := h.target
  globals := by
    obtain ⟨hs, ht, -⟩ := h.related f List.mem_cons_self
    rw [environments_declare, environments_declare, if_neg (by omega), if_neg (by omega)]
    exact h.globals
  related := by
    rw [List.forall_mem_cons]
    constructor
    · obtain ⟨hs, ht, b, b', hb, hb', binds⟩ := h.related f List.mem_cons_self
      refine ⟨hs, ht, putEntry x v b, putEntry x v b', ?_, ?_, ?_⟩
      · rw [environments_declare, if_pos rfl, hb]
        rfl
      · rw [environments_declare, if_pos rfl, hb']
        rfl
      -- The same value is set on both sides, so that the names that agreed still do.
      · constructor
        · intro y hy
          rw [lookup_putEntry, lookup_putEntry, binds.same y hy]
        · intro y u hy
          rw [lookup_putEntry] at hy
          split at hy
          · cases hy
            exact hv
          · exact binds.data y u hy
        · intro y
          rw [lookup_putEntry]
          split
          · rename_i e
            rw [e]
            exact ⟨fun _ => bound, fun _ => rfl⟩
          · exact binds.bound y
        · intro y hy
          rw [lookup_putEntry]
          split
          · rfl
          · exact binds.spared y hy
        · rw [free]
          simp
        · intro y hy
          have other : y ≠ x := fun same => settled (same ▸ hy)
          rw [lookup_putEntry_ne other]
          exact binds.fresh y hy
    · intro g hg
      have apart := List.rel_of_pairwise_cons h.apart hg
      exact (h.related g (List.mem_cons_of_mem f hg)).declare_ne apart.1 apart.2
  apart := h.apart

end Changes

end Simulation

end TailLoop
