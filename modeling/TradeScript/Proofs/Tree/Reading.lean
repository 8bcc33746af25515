import TradeScript.Proofs.Grammar.Derivation
import TradeScript.Tree.Parsing

/-!
# Readings

A reading of tokens from a goal is a derivation together with its tree: `Grammar.Reads` says that
tokens are read as some trees up to a rest. Every phrase of the tree satisfies a condition on the
tokens from its start and on those after it, so that readings can be narrowed to those that take,
say, the first alternative that fits (`Grammar.FirstFit`).

What is read can be derived (`Reads.yields`).
-/

namespace TradeScript

/-- A condition on a phrase, the tokens from its start on and the tokens after it. -/
abbrev PhraseCondition := Tree → List Token → List Token → Prop

/-- Whether phrases of a non-terminal can stand at the top of what is read from a goal. -/
def Goal.Mentions (n : NonTerminal) : Goal → Prop
  | .symbol s => s = .nonTerminal n
  | .part p => p.symbol = .nonTerminal n
  | .parts ps => ∃ p ∈ ps, p.symbol = .nonTerminal n
  | .many s => s = .nonTerminal n
  | .further s => s = .nonTerminal n

namespace Grammar

/-- `g.Reads keep goal tokens trees rest`: the tokens before `rest` are derived from `goal`, `trees`
are the trees of that derivation, and every phrase of them satisfies `keep`. -/
inductive Reads (g : Grammar) (keep : PhraseCondition) :
    Goal → List Token → List Tree → List Token → Prop
  | token (t : Token) (rest : List Token) :
      Reads g keep (.symbol (.terminal t.kind)) (t :: rest) [.leaf t] rest
  | phrase {n : NonTerminal} {choice : Nat} {a : Alternative} {tokens rest : List Token}
      {children : List Tree} (chosen : (g.alternatives n)[choice]? = some a)
      (body : Reads g keep (.parts a) tokens children rest)
      (kept : keep (.node n choice (Position.ofTokens tokens) children) tokens rest) :
      Reads g keep (.symbol (.nonTerminal n)) tokens
        [.node n choice (Position.ofTokens tokens) children] rest
  | nil (tokens : List Token) : Reads g keep (.parts []) tokens [] tokens
  | cons {p : Part} {ps : List Part} {tokens middle rest : List Token} {front back : List Tree}
      (first : Reads g keep (.part p) tokens front middle)
      (others : Reads g keep (.parts ps) middle back rest) :
      Reads g keep (.parts (p :: ps)) tokens (front ++ back) rest
  | once {s : Symbol} {tokens rest : List Token} {trees : List Tree}
      (one : Reads g keep (.symbol s) tokens trees rest) :
      Reads g keep (.part ⟨s, .once⟩) tokens trees rest
  | omitted (s : Symbol) (tokens : List Token) :
      Reads g keep (.part ⟨s, .optional⟩) tokens [] tokens
  | present {s : Symbol} {tokens rest : List Token} {trees : List Tree}
      (one : Reads g keep (.symbol s) tokens trees rest) :
      Reads g keep (.part ⟨s, .optional⟩) tokens trees rest
  | repeated {s : Symbol} {tokens rest : List Token} {trees : List Tree}
      (some : Reads g keep (.many s) tokens trees rest) :
      Reads g keep (.part ⟨s, .many⟩) tokens trees rest
  | noElement (s : Symbol) (tokens : List Token) :
      Reads g keep (.part ⟨s, .separated⟩) tokens [] tokens
  | separated {s : Symbol} {tokens middle rest : List Token} {front back : List Tree}
      (first : Reads g keep (.symbol s) tokens front middle)
      (others : Reads g keep (.further s) middle back rest) :
      Reads g keep (.part ⟨s, .separated⟩) tokens (front ++ back) rest
  | manyNil (s : Symbol) (tokens : List Token) : Reads g keep (.many s) tokens [] tokens
  | manyCons {s : Symbol} {tokens middle rest : List Token} {front back : List Tree}
      (first : Reads g keep (.symbol s) tokens front middle)
      (others : Reads g keep (.many s) middle back rest) :
      Reads g keep (.many s) tokens (front ++ back) rest
  | furtherNil (s : Symbol) (tokens : List Token) : Reads g keep (.further s) tokens [] tokens
  | furtherCons {s : Symbol} {comma : Token} {tokens middle rest : List Token}
      {front back : List Tree} (kind : comma.kind = .mark .comma)
      (first : Reads g keep (.symbol s) tokens front middle)
      (others : Reads g keep (.further s) middle back rest) :
      Reads g keep (.further s) (comma :: tokens) (front ++ back) rest

variable {g : Grammar} {keep : PhraseCondition}

theorem Reads.leaf {k : Terminal} {tokens rest : List Token} {trees : List Tree}
    (h : g.Reads keep (.symbol (.terminal k)) tokens trees rest) :
    ∃ t, t.kind = k ∧ tokens = t :: rest ∧ trees = [.leaf t] := by
  generalize goal_eq : Goal.symbol (.terminal k) = goal at h
  cases h with
  | token t rest =>
    cases goal_eq
    exact ⟨t, rfl, rfl, rfl⟩
  | _ => cases goal_eq

theorem Reads.split {p : Part} {ps : List Part} {tokens rest : List Token} {trees : List Tree}
    (h : g.Reads keep (.parts (p :: ps)) tokens trees rest) :
    ∃ front middle back, trees = front ++ back ∧ g.Reads keep (.part p) tokens front middle ∧
      g.Reads keep (.parts ps) middle back rest := by
  cases h with
  | cons first others => exact ⟨_, _, _, rfl, first, others⟩

/-- The parts of an alternative are read one after the other. -/
theorem Reads.parts_append {ps qs : List Part} {tokens rest : List Token} {trees : List Tree}
    (h : g.Reads keep (.parts (ps ++ qs)) tokens trees rest) :
    ∃ front middle back, trees = front ++ back ∧ g.Reads keep (.parts ps) tokens front middle ∧
      g.Reads keep (.parts qs) middle back rest := by
  induction ps generalizing tokens trees with
  | nil => exact ⟨[], tokens, trees, rfl, .nil tokens, h⟩
  | cons p ps ih =>
    obtain ⟨first, middle, others, rfl, of_p, more⟩ := h.split
    obtain ⟨front, middle', back, rfl, of_ps, of_qs⟩ := ih more
    exact ⟨first ++ front, middle', back, (List.append_assoc _ _ _).symm, .cons of_p of_ps, of_qs⟩

theorem Reads.single {s : Symbol} {tokens rest : List Token} {trees : List Tree}
    (h : g.Reads keep (.symbol s) tokens trees rest) : ∃ t, trees = [t] := by
  cases h with
  | token t rest => exact ⟨.leaf t, rfl⟩
  | phrase chosen body kept => exact ⟨_, rfl⟩

/-- The tokens before the rest of a reading can be derived from its goal. -/
theorem Reads.yields {goal : Goal} {tokens rest : List Token} {trees : List Tree}
    (h : g.Reads keep goal tokens trees rest) :
    ∃ taken, tokens = taken ++ rest ∧ g.Yields goal (taken.map Token.kind) := by
  induction h with
  | token t rest => exact ⟨[t], rfl, .terminal _⟩
  | phrase chosen _ _ ih =>
    obtain ⟨taken, rfl, yields⟩ := ih
    exact ⟨taken, rfl, .phrase (List.mem_of_getElem? chosen) yields⟩
  | nil => exact ⟨[], rfl, .nil⟩
  | cons _ _ ih₁ ih₂ =>
    obtain ⟨front, rfl, yields₁⟩ := ih₁
    obtain ⟨back, rfl, yields₂⟩ := ih₂
    exact ⟨front ++ back, by simp, by simpa using yields₁.cons yields₂⟩
  | once _ ih =>
    obtain ⟨taken, rfl, yields⟩ := ih
    exact ⟨taken, rfl, .once yields⟩
  | omitted s => exact ⟨[], rfl, .omitted s⟩
  | present _ ih =>
    obtain ⟨taken, rfl, yields⟩ := ih
    exact ⟨taken, rfl, .present yields⟩
  | repeated _ ih =>
    obtain ⟨taken, rfl, yields⟩ := ih
    exact ⟨taken, rfl, .repeated yields⟩
  | noElement s => exact ⟨[], rfl, .noElement s⟩
  | separated _ _ ih₁ ih₂ =>
    obtain ⟨front, rfl, yields₁⟩ := ih₁
    obtain ⟨back, rfl, yields₂⟩ := ih₂
    exact ⟨front ++ back, by simp, by simpa using yields₁.separated yields₂⟩
  | manyNil s => exact ⟨[], rfl, .manyNil s⟩
  | manyCons _ _ ih₁ ih₂ =>
    obtain ⟨front, rfl, yields₁⟩ := ih₁
    obtain ⟨back, rfl, yields₂⟩ := ih₂
    exact ⟨front ++ back, by simp, by simpa using yields₁.manyCons yields₂⟩
  | furtherNil s => exact ⟨[], rfl, .furtherNil s⟩
  | @furtherCons _ comma _ _ _ _ _ kind _ _ ih₁ ih₂ =>
    obtain ⟨front, rfl, yields₁⟩ := ih₁
    obtain ⟨back, rfl, yields₂⟩ := ih₂
    exact ⟨comma :: (front ++ back), by simp, by simpa [kind] using yields₁.furtherCons yields₂⟩

/-- Readings satisfy another condition that follows for each phrase. -/
theorem Reads.imp {keep' : PhraseCondition} {goal : Goal} {tokens rest : List Token}
    {trees : List Tree} (h : g.Reads keep goal tokens trees rest)
    (imp : ∀ {n : NonTerminal} {choice : Nat} {a : Alternative} {tokens rest : List Token}
      {children : List Tree}, (g.alternatives n)[choice]? = some a →
      g.Reads keep (.parts a) tokens children rest →
      keep (.node n choice (Position.ofTokens tokens) children) tokens rest →
      keep' (.node n choice (Position.ofTokens tokens) children) tokens rest) :
    g.Reads keep' goal tokens trees rest := by
  induction h with
  | token t rest => exact .token t rest
  | phrase chosen body kept ih => exact .phrase chosen ih (imp chosen body kept)
  | nil => exact .nil _
  | cons _ _ ih₁ ih₂ => exact .cons ih₁ ih₂
  | once _ ih => exact .once ih
  | omitted s => exact .omitted s _
  | present _ ih => exact .present ih
  | repeated _ ih => exact .repeated ih
  | noElement s => exact .noElement s _
  | separated _ _ ih₁ ih₂ => exact .separated ih₁ ih₂
  | manyNil s => exact .manyNil s _
  | manyCons _ _ ih₁ ih₂ => exact .manyCons ih₁ ih₂
  | furtherNil s => exact .furtherNil s _
  | furtherCons kind _ _ ih₁ ih₂ => exact .furtherCons kind ih₁ ih₂

theorem Reads.mentions {goal : Goal} {tokens rest : List Token} {trees : List Tree}
    (h : g.Reads keep goal tokens trees rest) {n : NonTerminal} {choice : Nat} {start : Position}
    {children : List Tree} (mem : .node n choice start children ∈ trees) : goal.Mentions n := by
  induction h with
  | token t rest => simp at mem
  | phrase chosen body kept ih =>
    rw [List.mem_singleton] at mem
    cases mem
    rfl
  | nil => cases mem
  | cons _ _ ih₁ ih₂ =>
    rcases List.mem_append.1 mem with front | back
    · exact ⟨_, List.mem_cons_self, ih₁ front⟩
    · obtain ⟨p, mem_p, is_n⟩ := ih₂ back
      exact ⟨p, List.mem_cons_of_mem _ mem_p, is_n⟩
  | once _ ih => exact ih mem
  | omitted s => cases mem
  | present _ ih => exact ih mem
  | repeated _ ih => exact ih mem
  | noElement s => cases mem
  | separated _ _ ih₁ ih₂ => exact (List.mem_append.1 mem).elim ih₁ ih₂
  | manyNil s => cases mem
  | manyCons _ _ ih₁ ih₂ => exact (List.mem_append.1 mem).elim ih₁ ih₂
  | furtherNil s => cases mem
  | furtherCons kind _ _ ih₁ ih₂ => exact (List.mem_append.1 mem).elim ih₁ ih₂

end Grammar

end TradeScript
