import TradeScript.Proofs.Grammar.Context
import TradeScript.Proofs.Tree.Reading

/-!
# At most one reading

On a decisive grammar there is at most one reading of given tokens among those that leave no phrase
empty where it could take the next token (`Reads.unique`). Two readings from the same place agree as
long as what is left over by each of them may follow there.
-/

open Computability

namespace TradeScript

open Grammar

variable {g : Grammar} {keep : PhraseCondition}

/-- A condition under which no phrase is left empty where it could take the next token. -/
def PhraseCondition.Greedy (keep : PhraseCondition) (g : Grammar) : Prop :=
  ∀ {n : NonTerminal} {after : Language Terminal} {a b : Alternative} {choice : Nat} {t : Token}
    {ks : List Terminal} {tokens : List Token} {children : List Tree},
    g.Context (.nonTerminal n) after → a ∈ g.alternatives n → t.kind :: ks ∈ g.language (.parts a) →
    (g.alternatives n)[choice]? = some b →
    g.Reads keep (.parts b) (t :: tokens) children (t :: tokens) →
    (t :: tokens).map Token.kind ∈ after →
    ¬ keep (.node n choice (Position.ofTokens (t :: tokens)) children) (t :: tokens) (t :: tokens)

namespace Grammar

/-- What is derived from a goal can stand before the sequences of a language. -/
def Precedes (g : Grammar) : Goal → Language Terminal → Prop
  | .symbol s, after => g.Context s after
  | .part p, after => ∃ n a others outer, g.Context (.nonTerminal n) outer ∧
      a ∈ g.alternatives n ∧ p :: others <:+ a ∧ after = g.language (.parts others) * outer
  | .parts ps, after => ∃ n a, g.Context (.nonTerminal n) after ∧ a ∈ g.alternatives n ∧ ps <:+ a
  | .many s, after => g.Context s (g.language (.many s) * after) ∧
      [] ∉ g.language (.symbol s) ∧ ∀ k ks ls, k :: ks ∈ g.language (.symbol s) → k :: ls ∉ after
  | .further s, after => g.Context s (g.language (.further s) * after) ∧
      ∀ ls, .mark .comma :: ls ∉ after

/-! ## What is left over -/

theorem Reads.mem_mul {goal : Goal} {tokens rest : List Token} {trees : List Tree}
    {after : Language Terminal} (h : g.Reads keep goal tokens trees rest)
    (mem : rest.map Token.kind ∈ after) : tokens.map Token.kind ∈ g.language goal * after := by
  obtain ⟨taken, rfl, yields⟩ := h.yields
  rw [List.map_append]
  exact Language.append_mem_mul yields mem

theorem Reads.begins {goal : Goal} {tokens rest : List Token} {trees : List Tree}
    (h : g.Reads keep goal tokens trees rest) (nonempty : [] ∉ g.language goal) :
    ∃ t behind ks, tokens = t :: behind ∧ t.kind :: ks ∈ g.language goal := by
  obtain ⟨taken, rfl, yields⟩ := h.yields
  cases taken with
  | nil => exact absurd yields nonempty
  | cons t taken => exact ⟨t, taken ++ rest, taken.map Token.kind, rfl, yields⟩

/-- Tokens that may follow are not the beginning of a symbol that may be missing before them. -/
theorem Reads.not_missing {s : Symbol} {tokens rest : List Token} {trees : List Tree}
    {after : Language Terminal} (h : g.Reads keep (.symbol s) tokens trees rest)
    (nonempty : [] ∉ g.language (.symbol s))
    (apart : ∀ k ks ls, k :: ks ∈ g.language (.symbol s) → k :: ls ∉ after) :
    tokens.map Token.kind ∉ after := by
  obtain ⟨t, behind, ks, rfl, yields⟩ := h.begins nonempty
  exact apart _ _ _ yields

/-! ## Where goals stand -/

theorem Precedes.symbol {s : Symbol} {repeated : Repeat} {after : Language Terminal}
    (h : g.Precedes (.part ⟨s, repeated⟩) after) :
    g.Context s (g.again ⟨s, repeated⟩ * after) := by
  obtain ⟨n, a, others, outer, context, mem, place, rfl⟩ := h
  exact .within context mem place

theorem Precedes.apart (hg : g.Decisive) {s : Symbol} {repeated : Repeat}
    {after : Language Terminal} (h : g.Precedes (.part ⟨s, repeated⟩) after)
    (loose : repeated ≠ .once) (k : Terminal) (ks ls : List Terminal)
    (here : k :: ks ∈ g.language (.symbol s)) : k :: ls ∉ after := by
  obtain ⟨n, a, others, outer, context, mem, place, rfl⟩ := h
  exact hg.apart context mem place loose here

theorem Precedes.nonempty (hg : g.Decisive) (definite : g.Definite) {s : Symbol}
    {repeated : Repeat} {after : Language Terminal}
    (h : g.Precedes (.part ⟨s, repeated⟩) after) (loose : repeated ≠ .once) :
    [] ∉ g.language (.symbol s) := by
  obtain ⟨n, a, others, outer, context, mem, place, rfl⟩ := h
  have mem_p := place.subset List.mem_cons_self
  cases repeated with
  | once => exact absurd rfl loose
  | optional => exact definite mem mem_p rfl
  | many => exact hg.element mem mem_p (.inl rfl)
  | separated => exact hg.element mem mem_p (.inr rfl)

/-- What may follow is not the beginning of a part that may be missing. -/
theorem Precedes.not_missing (hg : g.Decisive) (definite : g.Definite) {s : Symbol}
    {repeated : Repeat} {after : Language Terminal} {tokens rest : List Token} {trees : List Tree}
    (h : g.Precedes (.part ⟨s, repeated⟩) after) (loose : repeated ≠ .once)
    (one : g.Reads keep (.symbol s) tokens trees rest) : tokens.map Token.kind ∉ after :=
  one.not_missing (h.nonempty hg definite loose) (h.apart hg loose)

theorem Precedes.many (hg : g.Decisive) (definite : g.Definite) {s : Symbol}
    {after : Language Terminal} (h : g.Precedes (.part ⟨s, .many⟩) after) :
    g.Precedes (.many s) after :=
  ⟨h.symbol, h.nonempty hg definite (by decide), h.apart hg (by decide)⟩

theorem Precedes.further (hg : g.Decisive) {s : Symbol} {after : Language Terminal}
    (h : g.Precedes (.part ⟨s, .separated⟩) after) : g.Precedes (.further s) after := by
  refine ⟨h.symbol, ?_⟩
  obtain ⟨n, a, others, outer, context, mem, place, rfl⟩ := h
  exact fun ls => hg.comma context mem place rfl

theorem Precedes.part {p : Part} {ps : List Part} {after : Language Terminal}
    (h : g.Precedes (.parts (p :: ps)) after) :
    g.Precedes (.part p) (g.language (.parts ps) * after) := by
  obtain ⟨n, a, context, mem, place⟩ := h
  exact ⟨n, a, ps, after, context, mem, place, rfl⟩

theorem Precedes.tail {p : Part} {ps : List Part} {after : Language Terminal}
    (h : g.Precedes (.parts (p :: ps)) after) : g.Precedes (.parts ps) after := by
  obtain ⟨n, a, context, mem, place⟩ := h
  exact ⟨n, a, context, mem, (List.suffix_cons p ps).trans place⟩

/-! ## Two readings -/

/-- An alternative is not left empty where another one can take the next token. -/
theorem Reads.taken_of_taken (greedy : keep.Greedy g) {n : NonTerminal} {choice : Nat}
    {a b : Alternative} {after : Language Terminal} {tokens rest rest' : List Token}
    {children children' : List Tree} (context : g.Context (.nonTerminal n) after)
    (chosen : (g.alternatives n)[choice]? = some a) (mem_b : b ∈ g.alternatives n)
    (body : g.Reads keep (.parts a) tokens children rest)
    (body' : g.Reads keep (.parts b) tokens children' rest')
    (kept : keep (.node n choice (Position.ofTokens tokens) children) tokens rest)
    (follow : rest.map Token.kind ∈ after) (more : tokens ≠ rest') : tokens ≠ rest := by
  rintro rfl
  obtain ⟨taken, split, yields⟩ := body'.yields
  cases taken with
  | nil => exact more split
  | cons t taken =>
    subst split
    exact greedy context mem_b yields chosen body follow kept

/-- Two readings of the same phrase take the same alternative. -/
theorem Reads.same_choice (hg : g.Decisive) (greedy : keep.Greedy g) {n : NonTerminal}
    {choice choice' : Nat} {a b : Alternative} {after : Language Terminal}
    {tokens rest rest' : List Token} {children children' : List Tree}
    (context : g.Context (.nonTerminal n) after)
    (chosen : (g.alternatives n)[choice]? = some a)
    (chosen' : (g.alternatives n)[choice']? = some b)
    (body : g.Reads keep (.parts a) tokens children rest)
    (body' : g.Reads keep (.parts b) tokens children' rest')
    (kept : keep (.node n choice (Position.ofTokens tokens) children) tokens rest)
    (kept' : keep (.node n choice' (Position.ofTokens tokens) children') tokens rest')
    (follow : rest.map Token.kind ∈ after) (follow' : rest'.map Token.kind ∈ after) :
    choice = choice' := by
  have mem_a := List.mem_of_getElem? chosen
  have mem_b := List.mem_of_getElem? chosen'
  by_cases still : tokens = rest
  · have still' : tokens = rest' := by
      by_contra moved'
      exact body.taken_of_taken greedy context chosen mem_b body' kept follow moved' still
    obtain ⟨taken, split, yields⟩ := body.yields
    obtain ⟨taken', split', yields'⟩ := body'.yields
    obtain rfl : taken = [] := by simpa [← still] using split
    obtain rfl : taken' = [] := by simpa [← still'] using split'
    have last := hg.emptyLast chosen yields
    have last' := hg.emptyLast chosen' yields'
    omega
  · have moved' := body'.taken_of_taken greedy context chosen' mem_a body kept' follow' still
    obtain ⟨taken, split, yields⟩ := body.yields
    obtain ⟨taken', split', yields'⟩ := body'.yields
    cases taken with
    | nil => exact absurd split still
    | cons t taken =>
      cases taken' with
      | nil => exact absurd split' moved'
      | cons t' taken' =>
        subst split
        obtain ⟨rfl, -⟩ := List.cons.inj split'
        exact hg.disjoint chosen chosen' yields yields'

theorem Reads.unique (hg : g.Decisive) (definite : g.Definite) (greedy : keep.Greedy g)
    {goal : Goal} {tokens rest rest' : List Token} {trees trees' : List Tree}
    {after : Language Terminal} (h : g.Reads keep goal tokens trees rest)
    (h' : g.Reads keep goal tokens trees' rest') (place : g.Precedes goal after)
    (follow : rest.map Token.kind ∈ after) (follow' : rest'.map Token.kind ∈ after) :
    trees = trees' ∧ rest = rest' := by
  induction h generalizing trees' rest' after with
  | token t rest =>
    obtain ⟨t', -, split, rfl⟩ := h'.leaf
    obtain ⟨rfl, rfl⟩ := List.cons.inj split
    exact ⟨rfl, rfl⟩
  | phrase chosen body kept ih =>
    cases h' with
    | phrase chosen' body' kept' =>
      obtain rfl := body.same_choice hg greedy place chosen chosen' body' kept kept' follow follow'
      obtain rfl := Option.some.inj (chosen.symm.trans chosen')
      have inside : g.Precedes (.parts _) after :=
        ⟨_, _, place, List.mem_of_getElem? chosen, List.suffix_refl _⟩
      obtain ⟨rfl, rfl⟩ := ih body' inside follow follow'
      exact ⟨rfl, rfl⟩
  | nil tokens =>
    cases h' with
    | nil => exact ⟨rfl, rfl⟩
  | cons first others ih₁ ih₂ =>
    cases h' with
    | cons first' others' =>
      obtain ⟨rfl, rfl⟩ := ih₁ first' place.part (others.mem_mul follow) (others'.mem_mul follow')
      obtain ⟨rfl, rfl⟩ := ih₂ others' place.tail follow follow'
      exact ⟨rfl, rfl⟩
  | once one ih =>
    cases h' with
    | once one' => exact ih one' place.symbol (by simpa [again]) (by simpa [again])
  | omitted s tokens =>
    cases h' with
    | omitted => exact ⟨rfl, rfl⟩
    | present one' =>
      have apart := place.not_missing hg definite (by decide) one'
      exact absurd follow apart
  | present one ih =>
    cases h' with
    | omitted =>
      have apart := place.not_missing hg definite (by decide) one
      exact absurd follow' apart
    | present one' => exact ih one' place.symbol (by simpa [again]) (by simpa [again])
  | repeated some ih =>
    cases h' with
    | repeated some' => exact ih some' (place.many hg definite) follow follow'
  | noElement s tokens =>
    cases h' with
    | noElement => exact ⟨rfl, rfl⟩
    | separated first' others' =>
      have apart := place.not_missing hg definite (by decide) first'
      exact absurd follow apart
  | separated first others ih₁ ih₂ =>
    cases h' with
    | noElement =>
      have apart := place.not_missing hg definite (by decide) first
      exact absurd follow' apart
    | separated first' others' =>
      obtain ⟨rfl, rfl⟩ := ih₁ first' place.symbol (others.mem_mul follow)
        (others'.mem_mul follow')
      obtain ⟨rfl, rfl⟩ := ih₂ others' (place.further hg) follow follow'
      exact ⟨rfl, rfl⟩
  | manyNil s tokens =>
    cases h' with
    | manyNil => exact ⟨rfl, rfl⟩
    | manyCons first' others' => exact absurd follow (first'.not_missing place.2.1 place.2.2)
  | manyCons first others ih₁ ih₂ =>
    cases h' with
    | manyNil => exact absurd follow' (first.not_missing place.2.1 place.2.2)
    | manyCons first' others' =>
      obtain ⟨rfl, rfl⟩ := ih₁ first' place.1 (others.mem_mul follow) (others'.mem_mul follow')
      obtain ⟨rfl, rfl⟩ := ih₂ others' place follow follow'
      exact ⟨rfl, rfl⟩
  | furtherNil s tokens =>
    cases h' with
    | furtherNil => exact ⟨rfl, rfl⟩
    | furtherCons kind first' others' =>
      rw [List.map_cons, kind] at follow
      exact absurd follow (place.2 _)
  | furtherCons kind first others ih₁ ih₂ =>
    cases h' with
    | furtherNil =>
      rw [List.map_cons, kind] at follow'
      exact absurd follow' (place.2 _)
    | furtherCons kind' first' others' =>
      obtain ⟨rfl, rfl⟩ := ih₁ first' place.1 (others.mem_mul follow) (others'.mem_mul follow')
      obtain ⟨rfl, rfl⟩ := ih₂ others' place follow follow'
      exact ⟨rfl, rfl⟩

end Grammar

end TradeScript
