import TailLoop.Proofs.Reading.Survey

/-!
# The reader never has to choose

The sets of the survey hold what they should: what can follow a phrase in a state is among what the
survey says (`testBit_of_canFollow`), and sites that are in one state are among those that it says
can meet (`meets_of_meet`). So a production that has been read to its end is reduced before any
terminal that can follow it (`action_of_finished`). There is one exception, the `if` before an
`else`, where the `else` is read.
-/

namespace TailLoop.Grammar.Automaton

attribute [local irreducible] sites productions

/-! ## What the sets hold -/

/-- The set of one number. -/
theorem testBit_one_shiftLeft {i j : Nat} : (1 <<< i).testBit j = true ↔ i = j := by
  rw [Nat.one_shiftLeft, Nat.testBit_two_pow, decide_eq_true_eq]

/-- A union over some phrases of a set. -/
theorem testBit_unionOver {f : Phrase → Nat} {set i : Nat} {Bs : List Phrase} :
    (unionOver f set Bs).testBit i = true ↔
      ∃ B ∈ Bs, set.testBit B.ctorIdx = true ∧ (f B).testBit i = true := by
  induction Bs with
  | nil => simp [unionOver]
  | cons B Bs ih =>
    rw [unionOver, List.exists_mem_cons_iff]
    cases inside : set.testBit B.ctorIdx with
    | true => rw [cond_true, Nat.testBit_or, Bool.or_eq_true, ih]; simp
    | false => rw [cond_false, ih]; simp

/-- The number of a phrase is its own. -/
theorem phrase_beq (A : Phrase) : A.ctorIdx.beq A.ctorIdx = true := Nat.beq_refl _

/-- A phrase that begins a production is found on the left. -/
theorem testBit_leftOf {A B : Phrase} {ps : List Production} {p : Production} {rest : List Symbol}
    (hp : p ∈ ps) (phrase : p.phrase = A) (begins : p.symbols = .phrase B :: rest) :
    (leftOf A ps).testBit B.ctorIdx = true := by
  induction ps with
  | nil => cases hp
  | cons d ps ih =>
    rw [leftOf]
    rcases List.mem_cons.mp hp with rfl | hp
    · rw [begins]
      dsimp only
      rw [phrase, phrase_beq, cond_true, Nat.testBit_or, testBit_one_shiftLeft.2 rfl, Bool.true_or]
    · have later := ih hp
      split
      · cases d.phrase.ctorIdx.beq A.ctorIdx with
        | true => rw [cond_true, Nat.testBit_or, later, Bool.or_true]
        | false => exact later
      · exact later

/-- A terminal that begins a production is found first. -/
theorem testBit_directFirst {A : Phrase} {t : Terminal} {ps : List Production} {p : Production}
    {rest : List Symbol} (hp : p ∈ ps) (phrase : p.phrase = A)
    (begins : p.symbols = .terminal t :: rest) : (directFirst A ps).testBit t.ctorIdx = true := by
  induction ps with
  | nil => cases hp
  | cons d ps ih =>
    rw [directFirst]
    rcases List.mem_cons.mp hp with rfl | hp
    · rw [begins]
      dsimp only
      rw [phrase, phrase_beq, cond_true, Nat.testBit_or, testBit_one_shiftLeft.2 rfl, Bool.true_or]
    · have later := ih hp
      split
      · cases d.phrase.ctorIdx.beq A.ctorIdx with
        | true => rw [cond_true, Nat.testBit_or, later, Bool.or_true]
        | false => exact later
      · exact later

attribute [local irreducible] reachable follow meets

/-! ## What the survey has found -/

/-- The survey found that nothing more is reached and nothing more follows. -/
theorem settled_all (A : Phrase) : settled A = true := by
  have found := survey
  rw [surveyed, Bool.and_eq_true, List.all_eq_true] at found
  exact found.1 A (mem_all A)

/-- What begins with a phrase that is begun is begun. -/
theorem reachable_closed {A B C : Phrase} (h : (reachable A).testBit B.ctorIdx = true)
    (step : (reach 0 B).testBit C.ctorIdx = true) : (reachable A).testBit C.ctorIdx = true := by
  have found := settled_all A
  rw [settled, Bool.and_eq_true] at found
  rw [← Nat.eq_of_beq_eq_true found.1]
  exact testBit_unionOver.2 ⟨B, mem_all B, h, step⟩

/-- A phrase begins with itself. -/
theorem reach_self (d : Nat) (A : Phrase) : (reach d A).testBit A.ctorIdx = true := by
  induction d with
  | zero => rw [reach, Nat.testBit_or, testBit_one_shiftLeft.2 rfl, Bool.true_or]
  | succ d ih =>
    rw [reach]
    exact testBit_unionOver.2 ⟨A, mem_all A, ih, ih⟩

/-- What follows is found at the depth that is looked at. -/
theorem follow_settled (marked : Bool) (A : Phrase) : follow 19 marked A = followOf marked A := by
  have found := settled_all A
  rw [settled, Bool.and_eq_true, Bool.and_eq_true] at found
  cases marked with
  | false => exact Nat.eq_of_beq_eq_true found.2.1
  | true => exact Nat.eq_of_beq_eq_true found.2.2

/-- A colon does not follow an expression beside a label. -/
theorem no_colon : (followOf true .primary).testBit (Terminal.ctorIdx .colon) = false := by
  have found := survey
  rw [surveyed, Bool.and_eq_true, Bool.and_eq_true, Bool.not_eq_true'] at found
  exact found.2.1

/-- No site has a conflict. -/
theorem conflictFree_all {e : Site × List Symbol} (h : e ∈ sites) : conflictFree e = true := by
  have found := survey
  rw [surveyed, Bool.and_eq_true, Bool.and_eq_true] at found
  exact List.all_eq_true.mp found.2.2 e h

/-- The rules for what is reached are in the set. -/
theorem reachable_of_reaches {Q A : Phrase} (h : Reaches Q A) :
    (reachable Q).testBit A.ctorIdx = true := by
  induction h with
  | refl =>
    unfold reachable
    exact reach_self 5 Q
  | @step A B n rest _ begins ih =>
    obtain ⟨p, of, phrase, symbols⟩ := production_of_site begins
    have left : (leftOf A productions).testBit B.ctorIdx = true :=
      testBit_leftOf (List.mem_of_getElem? of) phrase symbols
    refine reachable_closed ih ?_
    rw [reach, Nat.testBit_or, left, Bool.or_true]

/-- A terminal with which a production of a phrase begins that a symbol reaches. -/
theorem testBit_firstOf {Q A : Phrase} {n : Nat} {t : Terminal} {rest : List Symbol}
    (h : Reaches Q A) (begins : (Site.start n A, .terminal t :: rest) ∈ sites) :
    (firstOf (.phrase Q)).testBit t.ctorIdx = true := by
  obtain ⟨p, of, phrase, symbols⟩ := production_of_site begins
  exact testBit_unionOver.2 ⟨A, mem_all A, reachable_of_reaches h,
    testBit_directFirst (List.mem_of_getElem? of) phrase symbols⟩

/-! ## Sites that meet are found -/

/-- A site after a symbol is found. -/
theorem mem_sitesAfter {X : Symbol} {s : Site} {rest : List Symbol}
    {l : List (Site × List Symbol)} (h : (s.read X, rest) ∈ l) : (s, rest) ∈ sitesAfter X l := by
  induction l with
  | nil => cases h
  | cons e l ih =>
    rcases List.mem_cons.mp h with rfl | mem
    · rw [sitesAfter, Nat.beq_refl, cond_true]
      exact List.mem_cons_self
    · have later := ih mem
      obtain ⟨s', rest'⟩ := e
      cases s' with
      | start n A => exact later
      | read s' Y =>
        rw [sitesAfter]
        cases (code X).beq (code Y) with
        | true => exact List.mem_cons_of_mem _ later
        | false => exact later

/-- A site that opens a phrase after a symbol is found. -/
theorem mem_openers {X : Symbol} {s : Site} {A : Phrase} {rest : List Symbol}
    {l : List (Site × List Symbol)} (h : (s.read X, .phrase A :: rest) ∈ l) :
    (s, X, A) ∈ openers l := by
  -- By induction on the list, along the recursion of `openers`.
  induction l with
  | nil => cases h
  | cons e l ih =>
    rcases List.mem_cons.mp h with rfl | h
    · exact List.mem_cons_self
    · have later := ih h
      rw [openers.eq_def]
      split
      · cases ‹_ :: _ = []›
      · rename_i same
        cases same
        exact List.mem_cons_of_mem _ later
      · rename_i same
        cases same
        exact later

/-- What is begun with a phrase at some site is found. -/
theorem testBit_begunWith {begins : Site → Symbol → Nat} {A B P : Phrase} {s : Site} {X : Symbol}
    {l : List (Site × Symbol × Phrase)} (h : (s, X, P) ∈ l)
    (hA : (reachable P).testBit A.ctorIdx = true) (hB : (begins s X).testBit B.ctorIdx = true) :
    (begunWith begins A l).testBit B.ctorIdx = true := by
  induction l with
  | nil => cases h
  | cons e l ih =>
    rw [begunWith]
    rcases List.mem_cons.mp h with rfl | h
    · rw [hA, cond_true, Nat.testBit_or, hB, Bool.true_or]
    · have later := ih h
      cases (reachable e.2.2).testBit A.ctorIdx with
      | true => rw [cond_true, Nat.testBit_or, later, Bool.or_true]
      | false => exact later

/-- What is begun with a phrase at the start of the text is found. -/
theorem testBit_begunWith_root {begins : Site → Symbol → Nat} {A B : Phrase}
    (l : List (Site × Symbol × Phrase)) (hA : (reachable .root).testBit A.ctorIdx = true)
    (hB : (reachable .root).testBit B.ctorIdx = true) :
    (begunWith begins A l).testBit B.ctorIdx = true := by
  induction l with
  | nil => rw [begunWith, hA, cond_true, hB]
  | cons e l ih =>
    rw [begunWith]
    cases (reachable e.2.2).testBit A.ctorIdx with
    | true => rw [cond_true, Nat.testBit_or, ih, Bool.or_true]
    | false => exact ih

/-- What a site opens is found, if the site is met. -/
theorem testBit_openedBy {meets : Site → Bool} {A B : Phrase} {s : Site} {rest : List Symbol}
    {l : List (Site × List Symbol)} (h : (s, .phrase A :: rest) ∈ l) (met : meets s = true)
    (hB : (reachable A).testBit B.ctorIdx = true) :
    (openedBy meets l).testBit B.ctorIdx = true := by
  -- By induction on the list: one entry that is met is enough to set the bit.
  induction l with
  | nil => cases h
  | cons e l ih =>
    rcases List.mem_cons.mp h with rfl | h
    · rw [openedBy, met, cond_true, Nat.testBit_or, hB, Bool.true_or]
    · have later := ih h
      rw [openedBy.eq_def]
      split
      · cases ‹_ :: _ = []›
      · rename_i s' A' rest' more same
        cases same
        cases meets s' with
        | true => rw [cond_true, Nat.testBit_or, later, Bool.or_true]
        | false => exact later
      · rename_i same
        cases same
        exact later

/-- The set of all phrases holds each. -/
theorem testBit_everyPhrase (A : Phrase) : everyPhrase.testBit A.ctorIdx = true := by
  cases A <;> decide

/-- The phrases that are begun after a site are found, if the sites that meet it are. -/
theorem testBit_begins {d : Nat} {s s' : Site} {X : Symbol} {Q B : Phrase} {rest : List Symbol}
    (met : ∀ d, meetsBy (begins d) s s' = true) (opens : (s'.read X, .phrase Q :: rest) ∈ sites)
    (hB : Reaches Q B) : (begins d s X).testBit B.ctorIdx = true := by
  cases d with
  | zero => exact testBit_everyPhrase B
  | succ d => exact testBit_openedBy (mem_sitesAfter opens) (met d) (reachable_of_reaches hB)

/-- Sites that can be in the same state are found to meet, whatever the depth, and whichever comes
first. -/
theorem meetsBy_of_meet {s s' : Site} (h : Meet s s') :
    (∀ d, meetsBy (begins d) s s' = true) ∧ ∀ d, meetsBy (begins d) s' s = true := by
  -- By induction on how the sites meet: what one reads, the other does, and what one opens, both
  -- begin with.
  induction h with
  | first hA hB =>
    have hA := reachable_of_reaches hA
    have hB := reachable_of_reaches hB
    exact ⟨fun d => testBit_begunWith_root _ hA hB, fun d => testBit_begunWith_root _ hB hA⟩
  -- Both sites read the same symbol, so that they meet by it.
  | @read s s' X _ ih =>
    have one (d : Nat) : meetsBy (begins d) (s.read X) (s'.read X) = meetsBy (begins d) s s' := by
      rw [meetsBy, Nat.beq_refl, cond_true]
    have other (d : Nat) : meetsBy (begins d) (s'.read X) (s.read X) = meetsBy (begins d) s' s := by
      rw [meetsBy, Nat.beq_refl, cond_true]
    exact ⟨fun d => (one d).trans (ih.1 d), fun d => (other d).trans (ih.2 d)⟩
  -- The second site opens a phrase where the first one stands.
  | @right s s' X Q B n rest _ opens hB ih =>
    have met (d : Nat) : meetsBy (begins d) s s' = true := by
      have both := ih.1 d
      rwa [meetsBy, Nat.beq_refl, cond_true] at both
    exact ⟨fun d => testBit_begins met opens hB, fun d => testBit_begins met opens hB⟩
  | @left s s' X P A m rest _ opens hA ih =>
    have met (d : Nat) : meetsBy (begins d) s' s = true := by
      have both := ih.2 d
      rwa [meetsBy, Nat.beq_refl, cond_true] at both
    exact ⟨fun d => testBit_begins met opens hA, fun d => testBit_begins met opens hA⟩
  -- Both sites open a phrase at the same symbol.
  | @both s s' X P Q A B m n rest rest' _ opens opens' hA hB ih =>
    have met (d : Nat) : meetsBy (begins d) s s' = true := by
      have both := ih.1 d
      rwa [meetsBy, Nat.beq_refl, cond_true] at both
    have met' (d : Nat) : meetsBy (begins d) s' s = true := by
      have both := ih.2 d
      rwa [meetsBy, Nat.beq_refl, cond_true] at both
    exact ⟨fun d => testBit_begunWith (mem_openers opens) (reachable_of_reaches hA)
        (testBit_begins met opens' hB),
      fun d => testBit_begunWith (mem_openers opens') (reachable_of_reaches hB)
        (testBit_begins met' opens hA)⟩

/-! ## What follows is found -/

/-- Sites that can be in the same state are found to meet. -/
theorem meets_of_meet {s s' : Site} (h : Meet s s') (d : Nat) : meets d s s' = true := by
  unfold meets
  exact (meetsBy_of_meet h).1 d

/-- A site before a phrase is found. -/
theorem mem_sitesBefore {A : Phrase} {s : Site} {rest : List Symbol}
    {l : List (Site × List Symbol)} (h : (s, .phrase A :: rest) ∈ l) :
    (s, .phrase A :: rest) ∈ sitesBefore A l := by
  -- By induction on the list, whose sites are kept if they are before the phrase.
  induction l with
  | nil => cases h
  | cons e l ih =>
    rcases List.mem_cons.mp h with rfl | mem
    · rw [sitesBefore, phrase_beq, cond_true]
      exact List.mem_cons_self
    · have later := ih mem
      rw [sitesBefore.eq_def]
      split
      · cases ‹_ :: _ = []›
      · rename_i s' B rest' more same
        cases same
        cases A.ctorIdx.beq B.ctorIdx with
        | true => exact List.mem_cons_of_mem _ later
        | false => exact later
      · rename_i same
        cases same
        exact later

/-- What follows a phrase at some site is found. -/
theorem testBit_followAfter {marked : Bool} {f : Bool → Phrase → Nat} {s : Site}
    {rest : List Symbol} {i : Nat} {l : List (Site × List Symbol)} (h : (s, rest) ∈ l)
    (beside : marked = true → besideLabel s = true)
    (bit : (followAt marked f s rest).testBit i = true) :
    (followAfter marked f l).testBit i = true := by
  -- By induction on the list: one site that counts is enough to set the bit.
  induction l with
  | nil => cases h
  | cons e l ih =>
    rw [followAfter]
    rcases List.mem_cons.mp h with rfl | mem
    · have counts : (!marked || besideLabel s) = true := by
        cases marked with
        | false => rfl
        | true => exact beside rfl
      rw [counts, cond_true, Nat.testBit_or, bit, Bool.true_or]
    · have later := ih mem
      cases (!marked || besideLabel e.1) with
      | true => rw [cond_true, Nat.testBit_or, later, Bool.or_true]
      | false => exact later

/-- What follows the phrase after a site is part of what follows the phrase, with a mark only if the
site is beside a label. -/
theorem testBit_followOf {marked : Bool} {A : Phrase} {s : Site} {rest : List Symbol} {i : Nat}
    (h : (s, .phrase A :: rest) ∈ sites) (beside : marked = true → besideLabel s = true)
    (bit : (followAt marked followOf s (.phrase A :: rest)).testBit i = true) :
    (followOf marked A).testBit i = true := by
  have after : (followAfter marked followOf (sitesBefore A sites)).testBit i = true :=
    testBit_followAfter (mem_sitesBefore h) beside bit
  have step : follow 19 marked A =
      followAfter marked followOf (sitesBefore A sites) ||| followRoot A := by
    rw [follow]
    rfl
  rw [← follow_settled, step, Nat.testBit_or, after, Bool.true_or]

/-- A label can begin in a state. -/
def Beside (q : Nat) : Prop :=
  ∃ kernel n rest, graph.kernels[q]? = some kernel ∧
    Inside kernel (.start n .labeledStatement) rest

/-- A site in a state in which a label can begin is beside one. -/
theorem besideLabel_of_inside {q kernel : Nat} {s : Site} {rest : List Symbol} (h : Beside q)
    (found : graph.kernels[q]? = some kernel) (inside : Inside kernel s rest) :
    besideLabel s = true := by
  obtain ⟨kernel', n, rest', found', label⟩ := h
  cases found.symm.trans found'
  have met := meet_of_inside kernel (Array.mem_of_getElem? found) _ _ _ _ label inside
  have same : meets 1 (.start 0 .labeledStatement) s = meets 1 (.start n .labeledStatement) s := by
    unfold meets
    cases s <;> rfl
  rw [besideLabel, same]
  exact meets_of_meet met 1

/-- A symbol that leads on is read at a site of the state. -/
theorem inside_of_leads {q r : Nat} {X : Symbol} (h : Leads q X r) :
    ∃ kernel, graph.kernels[q]? = some kernel ∧ ∃ s rest, Inside kernel s (X :: rest) := by
  obtain ⟨kernel, arrows, hk, hc, ha⟩ := (visited_of_leads h).spec
  obtain ⟨arrows', ha', arrow⟩ := h
  cases ha.symm.trans ha'
  obtain ⟨mask, hm, meets, -⟩ := (sound_graph).arrow q _ arrows hc ha _ arrow
  rw [mem_before.1 hm] at meets
  obtain ⟨j, here, stands⟩ := and_ne_zero.1 meets
  obtain ⟨it, found, next⟩ := testBit_beforeSymbol.1 stands
  obtain ⟨s, rest, found', rfl⟩ := getElem?_items found
  obtain ⟨more, rfl⟩ := List.head?_eq_some_iff.mp next
  exact ⟨kernel, hk, s, more, j, here, found'⟩

/-- Where a terminal leads on after a symbol, it is the next symbol of a site that has read the
symbol, or the next symbol of such a site can begin with it. -/
theorem next_of_leads {q r u : Nat} {X : Symbol} {t : Terminal} (h : Leads q X r)
    (read : Leads r (.terminal t) u) : ∃ kernel, graph.kernels[q]? = some kernel ∧
      ∃ s Y more, Inside kernel s (X :: Y :: more) ∧ (firstOf Y).testBit t.ctorIdx = true ∧
        (Y = .terminal t ∨ ∃ Q, Y = .phrase Q) := by
  obtain ⟨kernel, hk, target⟩ := kernel_of_leads h
  obtain ⟨kernel', hk', s, rest, inside⟩ := inside_of_leads read
  cases target.symm.trans hk'
  rcases inside_next inside with ⟨s', rfl, old⟩ | ⟨n, A, s', Q, more, rfl, old, reaches⟩
  · exact ⟨kernel, hk, s', _, rest, old, testBit_one_shiftLeft.2 rfl, .inl rfl⟩
  · exact ⟨kernel, hk, s', _, more, old, testBit_firstOf reaches inside.mem, .inr ⟨Q, rfl⟩⟩

/-- The start of a production is a site of each state in which its phrase is begun. -/
theorem inside_of_begun {q number : Nat} {p : Production} (visited : Visited q)
    (of : productions[number]? = some p) (begun : Begun q p.phrase) :
    ∃ kernel, graph.kernels[q]? = some kernel ∧ Inside kernel (.start number p.phrase) p.symbols := by
  obtain ⟨j, ⟨kernel, hk, here⟩, found⟩ :=
    here_of_mem_begun visited of ((mem_begun visited).mpr begun)
  obtain ⟨s, rest, found', same⟩ := getElem?_items found
  have number' : number = s.number := congrArg Item.production same
  have count : 0 = s.count := congrArg Item.read same
  obtain ⟨p', of', phrase, symbols⟩ := production_of_site (List.mem_of_getElem? found')
  rw [← number'] at of'
  cases of.symm.trans of'
  have start := Site.eq_start count.symm
  rw [start] at symbols found'
  rw [symbols, phrase, number']
  exact ⟨kernel, hk, j, here, found'⟩

/-- The site that has read the given symbols. -/
def Site.reads (s : Site) : List Symbol → Site
  | [] => s
  | X :: Xs => (s.read X).reads Xs

/-- Reading symbols leaves the number of the production. -/
theorem Site.number_reads (s : Site) (Xs : List Symbol) : (s.reads Xs).number = s.number := by
  induction Xs generalizing s with
  | nil => rfl
  | cons X Xs ih => exact ih (s.read X)

/-- Reading symbols leaves the phrase. -/
theorem Site.phrase_reads (s : Site) (Xs : List Symbol) : (s.reads Xs).phrase = s.phrase := by
  induction Xs generalizing s with
  | nil => rfl
  | cons X Xs ih => exact ih (s.read X)

/-- Reading one more symbol. -/
theorem Site.reads_concat (s : Site) (Xs : List Symbol) (X : Symbol) :
    s.reads (Xs ++ [X]) = (s.reads Xs).read X := by
  induction Xs generalizing s with
  | nil => rfl
  | cons Y Xs ih => exact ih (s.read Y)

/-- Where symbols lead, the site that has read them is one of the state. -/
theorem inside_of_path {q r kernel : Nat} {Xs rest : List Symbol} {s : Site}
    (found : graph.kernels[q]? = some kernel) (inside : Inside kernel s (Xs ++ rest))
    (path : Path q Xs r) :
    ∃ kernel, graph.kernels[r]? = some kernel ∧ Inside kernel (s.reads Xs) rest := by
  induction Xs generalizing q kernel s with
  | nil => exact path ▸ ⟨kernel, found, inside⟩
  | cons X Xs ih =>
    obtain ⟨u, led, more⟩ := path
    obtain ⟨j, bit, at_⟩ := inside
    obtain ⟨kernel', hk, target⟩ := kernel_of_leads led
    cases found.symm.trans hk
    have here : Here q j := ⟨kernel, found, bit⟩
    obtain ⟨kernel'', hk', bit'⟩ := here_of_leads led here (getElem?_of_sites at_) rfl
    exact ih hk' ⟨j + 1, bit', sites_succ at_⟩ more

/-- What can follow a phrase in a state is found, with a mark if a label can begin there. -/
theorem testBit_of_canFollow {q : Nat} {A : Phrase} {t : Terminal} (h : CanFollow q A t)
    {marked : Bool} (beside : marked = true → Beside q) :
    (followOf marked A).testBit t.ctorIdx = true := by
  -- By induction on what can follow: the bit is set by the root, by the next symbol, or handed on
  -- from the production around it.
  induction h generalizing marked with
  | root =>
    have step : follow 19 marked .root =
        followAfter marked followOf (sitesBefore .root sites) ||| followRoot .root := by
      rw [follow]
      rfl
    have bit : (followRoot .root).testBit (Terminal.ctorIdx .endOfInput) = true := by decide
    rw [← follow_settled, step, Nat.testBit_or, bit, Bool.or_true]
  | @next q r u A t led read =>
    obtain ⟨kernel, hk, s, Y, more, inside, first, -⟩ := next_of_leads led read
    refine testBit_followOf inside.mem (fun mark => ?_) first
    exact besideLabel_of_inside (beside mark) hk inside
  | @last q r u number p Xs B t of ends visited begun path led h ih =>
    obtain ⟨kernel, hk, inside⟩ := inside_of_begun visited of begun
    rw [ends] at inside
    obtain ⟨kernel', hk', inside'⟩ := inside_of_path hk inside path
    -- The site is before the last symbol, so that what follows its production follows the symbol.
    refine testBit_followOf inside'.mem (fun mark => ?_) ?_
    · exact besideLabel_of_inside (beside mark) hk' inside'
    · rcases List.eq_nil_or_concat Xs with rfl | ⟨Ys, Y, rfl⟩
      · cases path
        exact ih beside
      · rw [List.concat_eq_append, Site.reads_concat]
        have phrase : ((Site.start number p.phrase).reads Ys).phrase = p.phrase :=
          Site.phrase_reads _ _
        change (followOf false ((Site.start number p.phrase).reads Ys).phrase).testBit _ = true
        rw [phrase]
        exact ih (fun mark => by cases mark)

/-! ## No conflicts -/

/-- Whether a production is that of an `if` without an `else`. -/
def isShortIf (p : Production) : Bool := p.phrase == .ifStatement && p.symbols.length == 5

/-- The last symbol of a production that is read to its end, and the site before it. -/
theorem site_of_finishes {r number : Nat} {t : Terminal} {p : Production} (h : Finishes r number t)
    (of : productions[number]? = some p) (some : p.symbols ≠ []) :
    ∃ q Xs X u kernel, p.symbols = Xs ++ [X] ∧ Path q Xs u ∧ Leads u X r ∧
      graph.kernels[u]? = .some kernel ∧ Inside kernel ((Site.start number p.phrase).reads Xs) [X] ∧
      CanFollow q p.phrase t := by
  obtain ⟨q, p', visited, of', begun, path, follows⟩ := h
  cases of.symm.trans of'
  -- Only the start of a production is labelled, and this site is inside.
  obtain ⟨Xs, X, ends⟩ := (List.eq_nil_or_concat' p.symbols).resolve_left some
  obtain ⟨kernel, hk, inside⟩ := inside_of_begun visited of begun
  rw [ends] at path inside
  obtain ⟨u, before, r', led, rfl⟩ := path.split
  obtain ⟨kernel', hk', inside'⟩ := inside_of_path hk inside before
  exact ⟨q, Xs, X, u, kernel', ends, before, led, hk', inside', follows⟩

/-- Two sites of a state whose next symbol is the same do not clash, if the first one is at its last
symbol. -/
theorem clash_of_inside {u kernel : Nat} {X : Symbol} {s s' : Site} {rest : List Symbol}
    (found : graph.kernels[u]? = some kernel) (inside : Inside kernel s [X])
    (inside' : Inside kernel s' (X :: rest)) : clash s s' rest = 0 := by
  have free := conflictFree_all (mem_sites_read inside.mem)
  have known := List.all_eq_true.mp free _ (mem_sitesAfter (mem_sites_read inside'.mem))
  have met := meet_of_inside kernel (Array.mem_of_getElem? found) _ _ _ _ inside inside'
  rw [meets_of_meet met, Bool.not_true, Bool.or_false] at known
  exact Nat.eq_of_beq_eq_true known

/-- Terminals with one number are one. -/
theorem terminal_of_ctorIdx {t t' : Terminal} (h : t.ctorIdx.beq t'.ctorIdx = true) : t = t' := by
  rw [← Terminal.ofNat_ctorIdx t, Nat.eq_of_beq_eq_true h, Terminal.ofNat_ctorIdx]

/-- Phrases with one number are one. -/
theorem phrase_of_ctorIdx {A B : Phrase} (h : A.ctorIdx.beq B.ctorIdx = true) : A = B := by
  rw [← Phrase.ofNat_ctorIdx A, Nat.eq_of_beq_eq_true h, Phrase.ofNat_ctorIdx]

/-- Reading symbols counts them. -/
theorem Site.count_reads (s : Site) (Xs : List Symbol) :
    (s.reads Xs).count = s.count + Xs.length := by
  induction Xs generalizing s with
  | nil => rfl
  | cons X Xs ih =>
    rw [Site.reads, ih, Site.count, List.length_cons]
    omega

/-- A symbol that is one of the two excepted terminals is a terminal. -/
theorem eq_of_code {Y : Symbol} {t : Terminal} (h : (code Y).beq (code (.terminal t)) = true)
    (small : t.ctorIdx < 100) : Y = .terminal t := by
  cases Y with
  | terminal u => rw [terminal_of_ctorIdx h]
  | phrase A =>
    have same : 100 + A.ctorIdx = t.ctorIdx := Nat.eq_of_beq_eq_true h
    omega

/-- The colon of a label comes after its name. -/
theorem start_of_colon {s : Site} {X : Symbol} {rest : List Symbol}
    (h : (s, X :: .terminal .colon :: rest) ∈ sites) (labeled : s.phrase = .labeledStatement) :
    s = .start s.number .labeledStatement := by
  obtain ⟨p, of, phrase, symbols⟩ := production_of_site h
  rw [(regular of).labeled (phrase.trans labeled)] at symbols
  have first : s.symbols = [] := by
    match empty : s.symbols with
    | [] => rfl
    | [_] => rw [empty] at symbols; cases symbols
    | _ :: _ :: _ =>
      rw [empty] at symbols
      have length := congrArg List.length symbols
      simp only [List.length_cons, List.length_append, List.length_nil] at length
      omega
  have start := Site.eq_start (s := s) (by rw [← Site.length_symbols, first]; rfl)
  rwa [labeled] at start

/-- Where a terminal can be read although a production can be reduced before it, the terminal is an
`else` after an `if`. -/
theorem excepted_of_leads {r v number : Nat} {t : Terminal} {p : Production}
    (h : Finishes r number t) (of : productions[number]? = some p) (some : p.symbols ≠ [])
    (read : Leads r (.terminal t) v) : isShortIf p = true ∧ t = .else_ := by
  obtain ⟨q, Xs, X, u, kernel, ends, path, led, hk, inside, follows⟩ := site_of_finishes h of some
  obtain ⟨kernel', hk', s', Y, more, inside', first, next⟩ := next_of_leads led read
  cases hk.symm.trans hk'
  have phrase : ((Site.start number p.phrase).reads Xs).phrase = p.phrase := Site.phrase_reads _ _
  have count : ((Site.start number p.phrase).reads Xs).count = Xs.length :=
    (Site.count_reads _ _).trans (Nat.zero_add _)
  have apart : (if excepted ((Site.start number p.phrase).reads Xs) s' Y then 0
      else firstOf Y &&& followOf false p.phrase) = 0 := by
    have apart := clash_of_inside hk inside inside'
    rwa [clash, phrase, Bool.cond_eq_ite] at apart
  -- The terminal is in both sets, so that this is one of the excepted places.
  have common : firstOf Y &&& followOf false p.phrase ≠ 0 :=
    and_ne_zero.2 ⟨_, first, testBit_of_canFollow follows (fun mark => by cases mark)⟩
  have exception : excepted ((Site.start number p.phrase).reads Xs) s' Y = true := by
    by_contra other
    rw [if_neg other] at apart
    exact common apart
  rw [excepted, Bool.or_eq_true, Bool.and_eq_true, Bool.and_eq_true, Bool.and_eq_true,
    Bool.and_eq_true, Bool.and_eq_true, phrase, count] at exception
  rcases exception with ⟨isElse, isIf, four⟩ | ⟨isColon, none, isPrimary, isLabeled⟩
  · have same := eq_of_code isElse (by decide)
    have ifs := phrase_of_ctorIdx isIf
    have length : Xs.length = 4 := Nat.eq_of_beq_eq_true four
    refine ⟨?_, ?_⟩
    · simp [isShortIf, ifs, ends, length]
    · subst same
      rcases next with same | ⟨Q, same⟩ <;> cases same
      rfl
  · -- A label can begin where the name was read, and there no colon follows the name.
    have same := eq_of_code isColon (by decide)
    subst same
    have start := start_of_colon inside'.mem (phrase_of_ctorIdx isLabeled)
    have beside : Beside u := ⟨kernel, s'.number, _, hk, start ▸ inside'⟩
    rcases next with same | ⟨Q, same⟩
    · cases same
      cases List.length_eq_zero_iff.mp (Nat.eq_of_beq_eq_true none)
      cases path
      have colon : (followOf true _).testBit (Terminal.ctorIdx .colon) = true :=
        testBit_of_canFollow follows fun _ => beside
      rw [phrase_of_ctorIdx isPrimary, no_colon] at colon
      cases colon
    · cases same

/-- Two productions that can be reduced before the same terminal in a state are the same. -/
theorem Finishes.unique {r number number' : Nat} {t : Terminal} {p p' : Production}
    (h : Finishes r number t) (h' : Finishes r number' t) (of : productions[number]? = some p)
    (of' : productions[number']? = some p') (some : p.symbols ≠ []) (some' : p'.symbols ≠ []) :
    number' = number := by
  obtain ⟨q, Xs, X, u, kernel, ends, path, led, hk, inside, follows⟩ := site_of_finishes h of some
  obtain ⟨q', Xs', X', u', kernel', ends', path', led', hk', inside', follows'⟩ :=
    site_of_finishes h' of' some'
  -- Both symbols lead to the same state, so that the second site also stands before the first one.
  have second : Inside kernel ((Site.start number' p'.phrase).reads Xs') [X] ∧ X = X' := by
    obtain ⟨j, bit, found⟩ := inside'
    obtain ⟨kernel1, hk1, bit1⟩ :=
      here_of_leads led' ⟨kernel', hk', bit⟩ (getElem?_of_sites found) rfl
    obtain ⟨kernel2, hk2, target⟩ := kernel_of_leads led
    cases hk.symm.trans hk2
    cases target.symm.trans hk1
    rcases inside_next ⟨j + 1, bit1, sites_succ found⟩ with ⟨s, same, old⟩ | ⟨_, _, _, _, _, same, _⟩
    · cases same
      exact ⟨old, rfl⟩
    · cases same
  obtain ⟨second, rfl⟩ := second
  have apart := clash_of_inside hk inside second
  by_contra other
  rw [clash, Site.number_reads, Site.number_reads, Site.phrase_reads, Site.phrase_reads] at apart
  have different : number.beq number' = false :=
    Bool.eq_false_iff.mpr fun same => other (Nat.eq_of_beq_eq_true same).symm
  change (bif number.beq number' then 0
    else followOf false p.phrase &&& followOf false p'.phrase) = 0 at apart
  rw [different, cond_false] at apart
  exact and_ne_zero.2 ⟨_, testBit_of_canFollow follows (fun mark => by cases mark),
    testBit_of_canFollow follows' (fun mark => by cases mark)⟩ apart

/-! ## Empty programs -/

/-- The root is reached by itself only. -/
theorem Reaches.root {Q : Phrase} (h : Reaches Q .root) : Q = .root := by
  cases h with
  | refl => rfl
  | step h begins =>
    obtain ⟨p, of, phrase, symbols⟩ := production_of_site begins
    refine ((regular of).root ?_).elim
    rw [symbols]
    exact List.mem_append_right _ List.mem_cons_self

/-- A program is begun in the first state only. -/
theorem not_leads_program {u r s : Nat} {X : Symbol} (h : Leads u X r) :
    ¬Leads r (.phrase .program) s := by
  intro program
  obtain ⟨kernel, hk, site, rest, inside⟩ := inside_of_leads program
  obtain ⟨kernel', hk', target⟩ := kernel_of_leads h
  cases hk.symm.trans target
  -- The program is the only symbol of the root's production.
  have known {site : Site} {rest : List Symbol} (h : (site, .phrase .program :: rest) ∈ sites) :
      site.phrase = .root ∧ site.symbols = [] := by
    obtain ⟨p, of, phrase, symbols⟩ := production_of_site h
    obtain ⟨root, only⟩ := (regular of).program (by rw [symbols]; simp)
    refine ⟨phrase.symm.trans root, ?_⟩
    have length := congrArg List.length (symbols.symm.trans only)
    simp only [List.length_append, List.length_cons, List.length_nil] at length
    exact List.length_eq_zero_iff.mp (by omega)
  obtain ⟨root, none⟩ := known inside.mem
  -- The site before it was opened, as nothing of the production is read.
  rcases inside_next inside with ⟨site', rfl, old⟩ | ⟨n, A, site', Q, more, rfl, old, reaches⟩
  · exact List.append_ne_nil_of_right_ne_nil _ (List.cons_ne_nil _ _) none
  · cases root
    obtain rfl := reaches.root
    obtain ⟨p, of, -, symbols⟩ := production_of_site old.mem
    refine (regular of).root ?_
    rw [symbols]
    simp

/-- A production that is read to its end is reduced before a terminal that can follow it, unless it
is that of an `if` before an `else`. -/
theorem action_of_finished {r number : Nat} {t : Terminal} {p : Production}
    (h : Finishes r number t) (of : productions[number]? = some p) (some : p.symbols ≠ [])
    (closed : isShortIf p = true → t ≠ .else_) :
    action? automaton r t = .some (if number = 0 then .accept else .reduce number) := by
  obtain ⟨q, Xs, X, u, kernel, ends, path, led, hk, inside, follows⟩ := site_of_finishes h of some
  refine action_of_finishes h (fun v read => ?_) fun number' h' => ?_
  · obtain ⟨short, same⟩ := excepted_of_leads h of some read
    exact closed short same
  -- A production without symbols is the empty program, which does not begin here.
  · obtain ⟨q', p', visited, of', begun, path', follows'⟩ := id h'
    by_cases empty : p'.symbols = []
    · have program := ((regular of').empty empty).1
      rw [empty] at path'
      cases path'
      rw [program] at begun
      rcases begun with ⟨-, other⟩ | ⟨s, begun⟩
      · cases other
      · exact (not_leads_program led begun).elim
    · exact h.unique h' of of' some empty

end TailLoop.Grammar.Automaton
