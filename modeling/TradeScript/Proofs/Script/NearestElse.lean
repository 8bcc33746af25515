import TradeScript.Proofs.Script.Lookahead
import TradeScript.Proofs.Tree.Decision
import TradeScript.Proofs.Tree.Soundness
import TradeScript.Proofs.Tree.Uniqueness

/-!
# Every else belongs to the nearest if

In a reading of a script every else belongs to the nearest if (`Script.NearestElse`) when no if
statement with an empty else clause stands before an else. The matcher returns such readings
(`Script.nearestElse_of_firstFit`), and tokens have at most one (`Script.nearestElse_unique`).

Inside an induction it is simpler to speak of the else clauses themselves
(`Script.ClausesTakeElse`), which are always the last parts of if statements.
-/

open Computability

namespace TradeScript

namespace Script

open Grammar

/-- Whether an else comes next. -/
def ElseNext (tokens : List Token) : Prop :=
  tokens.head?.map Token.kind = some (.keyword .else)

/-- An if statement with an empty else clause is not followed by an else. -/
def NearestElse : PhraseCondition
  | .node .ifStatement _ _ children, _, rest =>
    ∀ choice start, .node .elseClause choice start [] ∈ children → ¬ ElseNext rest
  | _, _, _ => True

/-- An empty else clause is not followed by an else. -/
def ClausesTakeElse : PhraseCondition
  | .node .elseClause _ _ [], _, rest => ¬ ElseNext rest
  | _, _, _ => True

/-! ## Where else clauses stand -/

/-- Else clauses stand once, at the end of if statements. -/
theorem elseClause_places : ∀ place ∈ grammar.places,
    place.2.1.symbol = .nonTerminal .elseClause →
      place = (.ifStatement, phrase .elseClause, []) := by
  decide +kernel

/-- In a goal an else clause can only come last. -/
def ElseLast : Goal → Prop
  | .symbol _ => True
  | .part p => p.symbol = .nonTerminal .elseClause → p.repeated = .once
  | .parts ps => ∀ p others, p :: others <:+ ps → p.symbol = .nonTerminal .elseClause →
      p.repeated = .once ∧ others = []
  | .many s => s ≠ .nonTerminal .elseClause
  | .further s => s ≠ .nonTerminal .elseClause

theorem elseLast_alternative {n : NonTerminal} {a : Alternative}
    (mem : a ∈ grammar.alternatives n) : ElseLast (.parts a) := by
  intro p others place is_else
  have only := elseClause_places _ (mem_places mem place) is_else
  simp only [Prod.mk.injEq] at only
  obtain ⟨-, rfl, rfl⟩ := only
  exact ⟨rfl, rfl⟩

theorem eq_ifStatement_of_mentions {n : NonTerminal} {a : Alternative}
    (mem : a ∈ grammar.alternatives n) (h : (Goal.parts a).Mentions .elseClause) :
    n = .ifStatement := by
  obtain ⟨p, mem_p, is_else⟩ := h
  obtain ⟨before, others, rfl⟩ := List.append_of_mem mem_p
  have only := elseClause_places _ (mem_places mem (List.suffix_append before _)) is_else
  exact (Prod.mk.inj only).1

theorem ElseLast.part {p : Part} {ps : List Part} (h : ElseLast (.parts (p :: ps))) :
    ElseLast (.part p) :=
  fun is_else => (h p ps (List.suffix_refl _) is_else).1

theorem ElseLast.tail {p : Part} {ps : List Part} (h : ElseLast (.parts (p :: ps))) :
    ElseLast (.parts ps) :=
  fun q others place => h q others (place.trans (List.suffix_cons p ps))

theorem ElseLast.ne_elseClause {s : Symbol} {repeated : Repeat}
    (h : ElseLast (.part ⟨s, repeated⟩)) (loose : repeated ≠ .once) :
    s ≠ .nonTerminal .elseClause :=
  fun is_else => loose (h is_else)

/-- Nothing is read after an else clause. -/
theorem ElseLast.rest_eq {keep : PhraseCondition} {p : Part} {ps : List Part}
    (h : ElseLast (.parts (p :: ps))) {tokens middle rest : List Token} {front back : List Tree}
    (first : grammar.Reads keep (.part p) tokens front middle)
    (others : grammar.Reads keep (.parts ps) middle back rest) {choice : Nat} {start : Position}
    {children : List Tree} (mem : .node .elseClause choice start children ∈ front) :
    middle = rest := by
  obtain ⟨-, rfl⟩ := h p ps (List.suffix_refl _) (first.mentions mem)
  cases others
  rfl

/-! ## The two conditions agree -/

theorem not_elseNext_of_clause {goal : Goal} {tokens rest : List Token} {trees : List Tree}
    (h : grammar.Reads ClausesTakeElse goal tokens trees rest) (last : ElseLast goal)
    {choice : Nat} {start : Position} (mem : .node .elseClause choice start [] ∈ trees) :
    ¬ ElseNext rest := by
  induction h with
  | token t rest => simp at mem
  | phrase chosen body kept ih =>
    rw [List.mem_singleton] at mem
    cases mem
    exact kept
  | nil => cases mem
  | cons first others ih₁ ih₂ =>
    rcases List.mem_append.1 mem with front | back
    · rw [← last.rest_eq first others front]
      exact ih₁ last.part front
    · exact ih₂ last.tail back
  | once _ ih => exact ih trivial mem
  | omitted s => cases mem
  | present _ ih => exact ih trivial mem
  | repeated _ ih => exact ih (last.ne_elseClause (by decide)) mem
  | noElement s => cases mem
  | separated first others ih₁ ih₂ =>
    have other := last.ne_elseClause (by decide)
    rcases List.mem_append.1 mem with front | back
    · exact absurd (first.mentions front) other
    · exact ih₂ other back
  | manyNil s => cases mem
  | manyCons first others ih₁ ih₂ =>
    rcases List.mem_append.1 mem with front | back
    · exact absurd (first.mentions front) last
    · exact ih₂ last back
  | furtherNil s => cases mem
  | furtherCons kind first others ih₁ ih₂ =>
    rcases List.mem_append.1 mem with front | back
    · exact absurd (first.mentions front) last
    · exact ih₂ last back

theorem nearestElse_of_clauses {goal : Goal} {tokens rest : List Token} {trees : List Tree}
    (h : grammar.Reads ClausesTakeElse goal tokens trees rest) :
    grammar.Reads NearestElse goal tokens trees rest := by
  refine h.imp ?_
  intro n choice a tokens rest children chosen body kept
  unfold NearestElse
  split
  · next is_if =>
    cases is_if
    intro choice start mem
    have last := elseLast_alternative (List.mem_of_getElem? chosen)
    exact not_elseNext_of_clause body last mem
  · trivial

/-- What holds of the else clauses inside a reading holds of those on its top if nothing is read
after them. -/
theorem clauses_of_nearestElse {goal : Goal} {tokens rest : List Token} {trees : List Tree}
    (h : grammar.Reads NearestElse goal tokens trees rest) (last : ElseLast goal)
    (top : ∀ choice start, .node .elseClause choice start [] ∈ trees → ¬ ElseNext rest) :
    grammar.Reads ClausesTakeElse goal tokens trees rest := by
  induction h with
  | token t rest => exact .token t rest
  | @phrase n choice a tokens rest children chosen body kept ih =>
    have mem := List.mem_of_getElem? chosen
    refine .phrase chosen (ih (elseLast_alternative mem) ?_) ?_
    · intro choice' start inside
      obtain rfl := eq_ifStatement_of_mentions mem (body.mentions inside)
      exact kept choice' start inside
    · unfold ClausesTakeElse
      split
      · next is_else =>
        cases is_else
        exact top _ _ (List.mem_singleton.2 rfl)
      · trivial
  | nil => exact .nil _
  | cons first others ih₁ ih₂ =>
    refine .cons (ih₁ last.part fun choice start mem => ?_)
      (ih₂ last.tail fun choice start mem => ?_)
    · rw [last.rest_eq first others mem]
      exact top choice start (List.mem_append_left _ mem)
    · exact top choice start (List.mem_append_right _ mem)
  | once _ ih => exact .once (ih trivial top)
  | omitted s => exact .omitted s _
  | present _ ih => exact .present (ih trivial top)
  | repeated _ ih => exact .repeated (ih (last.ne_elseClause (by decide)) top)
  | noElement s => exact .noElement s _
  | separated first others ih₁ ih₂ =>
    have other := last.ne_elseClause (by decide)
    refine .separated (ih₁ trivial fun choice start mem => ?_)
      (ih₂ other fun choice start mem => ?_)
    · exact absurd (first.mentions mem) other
    · exact top choice start (List.mem_append_right _ mem)
  | manyNil s => exact .manyNil s _
  | manyCons first others ih₁ ih₂ =>
    refine .manyCons (ih₁ trivial fun choice start mem => ?_) (ih₂ last fun choice start mem => ?_)
    · exact absurd (first.mentions mem) last
    · exact top choice start (List.mem_append_right _ mem)
  | furtherNil s => exact .furtherNil s _
  | furtherCons kind first others ih₁ ih₂ =>
    refine .furtherCons kind (ih₁ trivial fun choice start mem => ?_)
      (ih₂ last fun choice start mem => ?_)
    · exact absurd (first.mentions mem) last
    · exact top choice start (List.mem_append_right _ mem)

/-! ## The matcher and the nearest if -/

/-- The alternative with an else is not passed over before an else: the matcher takes the else, and
is committed from there on. -/
theorem not_elseNext_of_passesOver {tokens : List Token}
    (h : grammar.PassesOver elseBranch tokens) : ¬ ElseNext tokens := by
  obtain ⟨entered, rejected⟩ := h
  intro next
  cases tokens with
  | nil => cases next
  | cons t rest =>
    have kind : t.kind = .keyword .else := Option.some.inj next
    have mem : elseBranch ∈ grammar.alternatives .elseClause := by simp [alternatives_elseClause]
    have decides := Matching.parts_decides decisive [] true [phrase .statement] rest
      (Context.whole _) mem (List.suffix_cons _ _) (by simp)
    have fresh : Matching.enteredAfter true entered = [] := rfl
    rw [elseBranch, Matching.parts, keyword, token, Matching.part,
      Matching.symbol.eq_def] at rejected
    simp only [kind, if_true, fresh, Bool.or_true] at rejected
    cases outcome : Matching.parts grammar [] true [phrase .statement] rest with
    | rejected =>
      rw [outcome] at decides
      cases decides.1
    | failed misfit rest' => simp [outcome] at rejected
    | matched trees rest' moved le => simp [outcome] at rejected

theorem not_empty_elseBranch : [] ∉ grammar.language (.parts elseBranch) := by
  intro empty
  cases empty.skips checked.surveyed rfl

theorem ne_nil_of_elseBranch {keep : PhraseCondition} {tokens rest : List Token}
    {trees : List Tree} (h : grammar.Reads keep (.parts elseBranch) tokens trees rest) :
    trees ≠ [] := by
  obtain ⟨front, middle, back, rfl, first, -⟩ := h.split
  cases first with
  | once one =>
    obtain ⟨t, rfl⟩ := one.single
    simp

/-- What the matcher returns gives every else to the nearest if. -/
theorem nearestElse_of_firstFit {goal : Goal} {tokens rest : List Token} {trees : List Tree}
    (h : grammar.Reads grammar.FirstFit goal tokens trees rest) :
    grammar.Reads NearestElse goal tokens trees rest := by
  refine nearestElse_of_clauses (h.imp ?_)
  intro n choice a tokens rest children chosen body kept
  unfold ClausesTakeElse
  split
  · next is_else =>
    cases is_else
    rw [alternatives_elseClause] at chosen
    match choice, chosen with
    | 0, chosen =>
      cases chosen
      exact absurd rfl (ne_nil_of_elseBranch body)
    | 1, chosen =>
      cases chosen
      cases body
      have passed := kept 0 Nat.zero_lt_one elseBranch (by rw [alternatives_elseClause]; rfl)
      exact not_elseNext_of_passesOver passed
  · trivial

theorem clausesTakeElse_greedy : PhraseCondition.Greedy ClausesTakeElse grammar := by
  intro n after a b choice t ks tokens children context mem_a here chosen body follow kept
  obtain ⟨taken, split, yields⟩ := body.yields
  obtain rfl : taken = [] := by simpa using split
  obtain ⟨rfl, rfl, kind⟩ := elseClause_of_conflict context mem_a (List.mem_of_getElem? chosen)
    here yields follow
  rw [alternatives_elseClause] at chosen
  match choice, chosen with
  | 0, chosen =>
    cases chosen
    exact absurd yields not_empty_elseBranch
  | 1, chosen =>
    cases chosen
    cases body
    exact kept (by simp [ElseNext, kind])

/-- Two readings of the same tokens that give every else to the nearest if are the same. -/
theorem nearestElse_unique {n : NonTerminal} {tokens : List Token} {t t' : Tree}
    (h : grammar.Reads NearestElse (.symbol (.nonTerminal n)) tokens [t] [])
    (h' : grammar.Reads NearestElse (.symbol (.nonTerminal n)) tokens [t'] []) : t = t' := by
  have top : ∀ {u : Tree} (choice : Nat) (start : Position),
      .node .elseClause choice start [] ∈ [u] → ¬ ElseNext [] := by
    simp [ElseNext]
  have clauses := clauses_of_nearestElse h trivial top
  have clauses' := clauses_of_nearestElse h' trivial top
  have same := (clauses.unique decisive definite clausesTakeElse_greedy clauses'
    (Context.whole _) rfl rfl).1
  exact List.singleton_inj.1 same

end Script

end TradeScript
