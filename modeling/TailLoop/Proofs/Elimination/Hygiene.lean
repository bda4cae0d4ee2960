import TailLoop.Proofs.Elimination.Functions

/-!
# Names that elimination binds

A function binds its parameters and what its body declares outside of other functions. Elimination
declares the variables of a body again at its top, and the temporaries that stage parameters beside
them. So a function binds afterwards what it bound before, and temporaries of its parameters; a name
that is none of these stays free (`eliminateTailCalls_binds`).

A program may not declare a name that starts like a temporary, but it may use one that it does not
declare. Such a name is captured where the function comes to use the temporary
(`eliminateTailCalls_binds_capture`).
-/

namespace TailLoop

namespace Tree

/-- A function binds a name: it is a parameter, or the body declares it outside of other
functions. -/
inductive Binds : Tree → Text → Prop where
  | param {f : Tree} {x : Text} (mem : x ∈ f.paramNames) : Binds f x
  | declared {l : Option Location} {form : FunctionForm} {id params body : Tree}
      {names : List Text} {x : Text} (found : body.declaredNames = .ok names) (mem : x ∈ names) :
    Binds (.node l (.function form id params body)) x

/-- The rules that list the names which are read or assigned to. -/
def useRules : Rules (List Text) where
  atom _ := []
  tuple := List.flatten
  list _ _ := []
  dict _ _ := []
  node t shape :=
    match t, shape with
    | .node _ (.identifier (.text x)), _ => [x]
    | .node _ (.member _ _ (.bool false)), .member object _ _ => object
    | _, .jump .. => []
    | _, .labeled _ body => body
    | _, .function _ _ _ body => body
    | _, .variableDeclarator _ init => init
    | _, shape => shape.parts.flatten

/-- The names that a tree reads or assigns to, those in functions included. -/
def usedNames (t : Tree) : List Text := fold useRules t

end Tree

namespace Elimination

open Tree Validity

/-- What a function and what takes its place bind. -/
def KeepsFree (n : Naming) (f f' : Tree) : Prop :=
  (∃ checked c, WellFormed checked c f) →
    ∀ x, (∀ p ∈ f.paramNames, x ≠ n.temporary ++ p) → Binds f' x → Binds f x

/-- The names that a finished body declares: those of the statements, parameters, and temporaries. -/
theorem Finishes.names {n : Naming} {R : Tree → Tree → Prop} {a : Scope} {ps ss ss' : List Tree}
    (h : Finishes n R a ss ss') (starts : a.Starts n ps) {x : Text}
    (hx : x ∈ ss'.flatMap ownNames) : x ∈ ss.flatMap ownNames ∨ x ∈ a.params ∨
      ∃ p ∈ a.params, x = n.temporary ++ p := by
  obtain @⟨stats, s1, ss1, walked, tracks, finished⟩ := h
  have strict := strict_of_start walked starts.directive
  -- A local of the scope was declared in the body or is a parameter.
  have kept (known : x ∈ s1.scope.locals ∨ x ∈ ss1.flatMap ownNames ∨ x ∈ a.params) :
      x ∈ ss.flatMap ownNames ∨ x ∈ a.params := by
    rcases (tracks.names x).mp known with none | own | param
    · rw [starts.locals] at none
      cases none
    · exact .inl own
    · exact .inr param
  -- The temporaries stay those of the start: the prefix before a parameter.
  have start : a.Staged a.temporaries a.params := ⟨rfl, rfl, by rw [starts.used]; exact nofun⟩
  have staged := staged_of_start walked (by rw [starts.temporaries, List.length_map]) start
  rcases ((scopes_finishBody strict walked.plain finished).2 x).mp hx with
    declared | ⟨-, temporary⟩ | own
  · rcases kept (.inl declared) with own | param
    · exact .inl own
    · exact .inr (.inl param)
  · have known := staged.used x temporary
    rw [starts.temporaries] at known
    obtain ⟨p, hp, rfl⟩ := List.mem_map.mp known
    exact .inr (.inr ⟨p, hp, rfl⟩)
  · rcases kept (.inr (.inl own)) with own | param
    · exact .inl own
    · exact .inr (.inl param)

/-- Each function binds as before nothing but its temporaries. -/
theorem keepsFree {n : Naming} : FollowsFromWalks n (KeepsFree n) := by
  rintro l form id ps lb ss ss' scope starts inner ⟨checked, c, wf⟩ x free binds
  have declared := wf
  cases wf with
  | function named name params kinds parts =>
    have names := eq_of_declaredNames params starts.params
    have body : (Tree.node lb (.block (.tuple ss))).declaredNames =
        .ok (ss.flatMap ownNames) := by
      have block : WellFormed checked {} (.node lb (.block (.tuple ss))) := .block kinds parts
      rw [block.declaredNames, ownNames_block]
    cases binds with
    -- A parameter is kept with the head.
    | param mem => exact .param mem
    | declared found mem =>
      rw [eq_ownNames found, ownNames_block] at mem
      -- A new name is a temporary, and the name in question is none.
      rcases inner.names starts mem with own | param | ⟨p, hp, same⟩
      · exact .declared body own
      · rw [names] at param
        exact .param param
      · rw [names] at hp
        exact (free p hp same).elim

/-- Elimination binds no names in a function that it did not bind, temporaries of its parameters
aside. -/
theorem eliminateTailCalls_binds {n : Naming} {checked : Bool} {c : Targets}
    {l : Option Location} {ss : List Tree} {t' : Tree} {stats : Stats}
    (wf : WellFormed checked c (.node l (.program (.tuple ss))))
    (eliminated : (Tree.node l (.program (.tuple ss))).eliminateTailCalls n = .ok (t', stats)) :
    List.Forall₂ (fun f f' => ∀ x, ¬ Binds f x → (∀ p ∈ f.paramNames, x ≠ n.temporary ++ p) →
        ¬ Binds f' x)
      (Tree.node l (.program (.tuple ss))).scopes t'.scopes := by
  have related := (eliminates_of_ok wf eliminated).scopes keepsFree (by
    rintro l ss ss' scope - - - x - ⟨mem⟩
    cases mem)
  have valid : ∀ f ∈ (Tree.node l (.program (.tuple ss))).scopes, ∃ c, WellFormed checked c f :=
    wf.scopes
  refine ((List.forall₂_and_left _ _).mpr ⟨valid, related⟩).imp ?_
  rintro f f' ⟨⟨c, wf⟩, keeps⟩ x free apart binds
  exact free (keeps ⟨checked, c, wf⟩ x apart binds)

/-- A program of the function `f` of `a`, `b` and `c`, which returns `b` if `c` holds and otherwise
calls itself with `b`, the given argument and `true`. -/
def shifting (second : Tree) : Tree :=
  Tree.new (.program (.tuple [Tree.new (.function .declaration (.identifier "f")
    (.tuple [.identifier "a", .identifier "b", .identifier "c"])
    (.block [
      Tree.new (.ifStatement (.identifier "c") (Tree.new (.returnStatement (.identifier "b")))
        .null),
      Tree.new (.returnStatement (Tree.new (.call (.identifier "f")
        (.tuple [.identifier "b", second, Tree.new (.literal (.bool true))]))))]))]))

/-- A function that exchanges its parameters comes to declare temporaries, while the name `d` which
it passes stays free. -/
theorem eliminateTailCalls_binds_exchange :
    ∃ t' stats,
      (shifting (Tree.new (.sequence (.tuple [.identifier "d", .identifier "a"])))).eliminateTailCalls
        {} = .ok (t', stats) ∧ stats.calls = 1 ∧
      List.Forall₂ (fun f f' => ∀ x, ¬ Binds f x →
          (∀ p ∈ f.paramNames, x ≠ ({} : Naming).temporary ++ p) → ¬ Binds f' x)
        (shifting (Tree.new (.sequence (.tuple [.identifier "d", .identifier "a"])))).scopes
        t'.scopes := by
  refine ⟨_, _, rfl, rfl, ?_⟩
  exact eliminateTailCalls_binds (n := {}) (wellFormed_of_validate rfl (by decide)) rfl

/-- A function that passes a name which starts like a temporary without declaring it comes to
declare it. -/
theorem eliminateTailCalls_binds_capture :
    ¬ ∀ (n : Naming) (t t' : Tree) (stats : Stats), WellFormed true {} t →
      t.hasKind .program = true → t.eliminateTailCalls n = .ok (t', stats) →
      List.Forall₂ (fun f f' => ∀ x ∈ f.usedNames, ¬ Binds f x → ¬ Binds f' x)
        t.scopes t'.scopes := by
  -- The rewritten function declares `_tco_temp_a`, which it only reads before.
  intro claim
  have kept := claim {} (shifting (.identifier "_tco_temp_a")) _ _
    (wellFormed_of_validate rfl (by decide)) rfl rfl
  cases kept with
  | cons _ rest =>
    cases rest with
    | cons free _ =>
      refine free "_tco_temp_a" (by decide) ?_ (.declared rfl (by decide))
      intro bound
      cases bound with
      | param mem => exact absurd mem (by decide)
      | declared found mem =>
        cases found
        exact absurd mem (by decide)

end Elimination

end TailLoop
