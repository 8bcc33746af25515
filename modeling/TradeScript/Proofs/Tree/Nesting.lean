import Mathlib.Data.List.Perm.Subperm
import TradeScript.Proofs.Grammar.Checked
import TradeScript.Proofs.Tree.Soundness

/-!
# Phrases within phrases

To match a phrase the matcher calls itself for the phrases that its alternatives mention.
`Matching.Calls` says which calls one call makes, by what the parts before them have matched.

On a checked grammar a call at the place of its caller is for a phrase that can stand at the front
of the caller's (`Calls.advances`). Such phrases never lead back to the caller, so in a chain of
nested calls no phrase occurs twice at one place, and the chain is not longer than there are phrases
and places (`nested_calls_bounded`). Neither the check for phrases entered before nor the end of a
repetition at an empty element is ever used then.
-/

namespace TradeScript

open Grammar

/-- A phrase can stand at the front of what is matched to a goal, before any token. -/
def Goal.Opens (g : Grammar) (n : NonTerminal) : Goal → Prop
  | .symbol s => s = .nonTerminal n
  | .part p => p.symbol = .nonTerminal n
  | .parts ps => g.Opens n ps
  | .many s => s = .nonTerminal n
  | .further _ => False

namespace Matching

/-- A call for a phrase at the front of some tokens, and the phrases entered there before. -/
structure Call where
  entered : List NonTerminal
  phrase : NonTerminal
  tokens : List Token

/-- The phrase of a call and its place, which is told by the number of tokens from there on. -/
def Call.place (c : Call) : NonTerminal × Nat :=
  (c.phrase, c.tokens.length)

/-- The calls that are made to match a goal, apart from those that other calls make. -/
inductive Asks (g : Grammar) : List NonTerminal → Goal → List Token → Call → Prop
  | phrase (entered : List NonTerminal) (n : NonTerminal) (tokens : List Token) :
      Asks g entered (.symbol (.nonTerminal n)) tokens ⟨entered, n, tokens⟩
  | first {entered : List NonTerminal} {p : Part} {ps : List Part} {tokens : List Token} {c : Call}
      (one : Asks g entered (.part p) tokens c) : Asks g entered (.parts (p :: ps)) tokens c
  | others {entered : List NonTerminal} {committed moved : Bool} {p : Part} {ps : List Part}
      {tokens rest : List Token} {front : List Tree}
      {le : rest.length + moved.toNat ≤ tokens.length} {c : Call}
      (matched : part g entered committed p tokens = .matched front rest moved le)
      (more : Asks g (enteredAfter moved entered) (.parts ps) rest c) :
      Asks g entered (.parts (p :: ps)) tokens c
  | element {entered : List NonTerminal} {s : Symbol} {repeated : Repeat} {tokens : List Token}
      {c : Call} (one : Asks g entered (.symbol s) tokens c) :
      Asks g entered (.part ⟨s, repeated⟩) tokens c
  | again {entered : List NonTerminal} {s : Symbol} {tokens rest : List Token} {t : Tree}
      {le : rest.length + true.toNat ≤ tokens.length} {c : Call}
      (matched : symbol g entered s tokens = .matched t rest true le)
      (more : Asks g [] (.part ⟨s, .many⟩) rest c) : Asks g entered (.part ⟨s, .many⟩) tokens c
  | listed {entered : List NonTerminal} {s : Symbol} {moved : Bool} {tokens rest : List Token}
      {t : Tree} {le : rest.length + moved.toNat ≤ tokens.length} {c : Call}
      (matched : symbol g entered s tokens = .matched t rest moved le)
      (more : Asks g [] (.further s) rest c) : Asks g entered (.part ⟨s, .separated⟩) tokens c
  | next {entered : List NonTerminal} {s : Symbol} {comma : Token} {tokens : List Token} {c : Call}
      (kind : comma.kind = .mark .comma) (one : Asks g [] (.symbol s) tokens c) :
      Asks g entered (.further s) (comma :: tokens) c
  | beyond {entered : List NonTerminal} {s : Symbol} {comma : Token} {moved : Bool}
      {tokens rest : List Token} {t : Tree} {le : rest.length + moved.toNat ≤ tokens.length}
      {c : Call} (kind : comma.kind = .mark .comma)
      (matched : symbol g [] s tokens = .matched t rest moved le)
      (more : Asks g [] (.further s) rest c) : Asks g entered (.further s) (comma :: tokens) c

/-- The calls that a call makes itself: those of its first alternative, and those of another one if
the alternatives before it are passed over. -/
inductive Calls (g : Grammar) : Call → Call → Prop
  | intro {c d : Call} {tried others : List Alternative} {a : Alternative}
      (all : g.alternatives c.phrase = tried ++ a :: others)
      (past : ∀ b ∈ tried, parts g (c.phrase :: c.entered) false b c.tokens = .rejected)
      (asks : Asks g (c.phrase :: c.entered) (.parts a) c.tokens d) : Calls g c d

variable {g : Grammar}

/-! ## What one call does -/

/-- A call either comes after a token, with no phrase entered, or it is made at the first token for a
phrase that can stand there. -/
theorem Asks.advances {entered : List NonTerminal} {goal : Goal} {tokens : List Token} {c : Call}
    (h : Asks g entered goal tokens c) :
    c.tokens.length < tokens.length ∧ c.entered = [] ∨
      c.tokens = tokens ∧ c.entered = entered ∧ goal.Opens g c.phrase := by
  induction h with
  | phrase entered n tokens => exact .inr ⟨rfl, rfl, rfl⟩
  | first one ih => exact ih.imp_right fun ⟨same, kept, opens⟩ => ⟨same, kept, .inl opens⟩
  | @others entered committed moved p ps tokens rest front le c matched more ih =>
    cases moved with
    | true =>
      have shorter : rest.length < tokens.length := le
      rcases ih with ⟨later, none_entered⟩ | ⟨same, none_entered, -⟩
      · exact .inl ⟨by omega, none_entered⟩
      · exact .inl ⟨by rw [same]; exact shorter, none_entered⟩
    | false =>
      obtain ⟨rfl, empty⟩ := yields_part_of_still matched
      exact ih.imp_right fun ⟨same, kept, opens⟩ => ⟨same, kept, .inr ⟨empty, opens⟩⟩
  | element one ih => exact ih
  | @again entered s tokens rest t le c matched more ih =>
    have shorter : rest.length < tokens.length := le
    rcases ih with ⟨later, none_entered⟩ | ⟨same, none_entered, -⟩
    · exact .inl ⟨by omega, none_entered⟩
    · exact .inl ⟨by rw [same]; exact shorter, none_entered⟩
  | @listed entered s moved tokens rest t le c matched more ih =>
    rcases ih with ⟨later, none_entered⟩ | ⟨-, -, absurd⟩
    · exact .inl ⟨by have := length_le_of_matched le; omega, none_entered⟩
    · exact absurd.elim
  | next kind one ih =>
    rw [List.length_cons]
    rcases ih with ⟨later, none_entered⟩ | ⟨same, none_entered, -⟩
    · exact .inl ⟨by omega, none_entered⟩
    · exact .inl ⟨by rw [same]; omega, none_entered⟩
  | @beyond entered s comma moved tokens rest t le c kind matched more ih =>
    rw [List.length_cons]
    rcases ih with ⟨later, none_entered⟩ | ⟨-, -, absurd⟩
    · exact .inl ⟨by have := length_le_of_matched le; omega, none_entered⟩
    · exact absurd.elim

theorem Calls.advances {c d : Call} (h : Calls g c d) :
    d.tokens.length < c.tokens.length ∧ d.entered = [] ∨
      d.tokens = c.tokens ∧ d.entered = c.phrase :: c.entered ∧ g.Front c.phrase d.phrase := by
  cases h with
  | @intro tried others a all past asks =>
    have mem : a ∈ g.alternatives c.phrase := by simp [all]
    exact asks.advances.imp_right fun ⟨same, kept, opens⟩ => ⟨same, kept, a, mem, opens⟩

theorem Asks.mentions {entered : List NonTerminal} {goal : Goal} {tokens : List Token} {c : Call}
    (h : Asks g entered goal tokens c) : goal.Mentions c.phrase := by
  induction h with
  | phrase entered n tokens => rfl
  | first one ih => exact ⟨_, List.mem_cons_self, ih⟩
  | others matched more ih =>
    obtain ⟨p, mem, is_phrase⟩ := ih
    exact ⟨p, List.mem_cons_of_mem _ mem, is_phrase⟩
  | element one ih => exact ih
  | again matched more ih => exact ih
  | listed matched more ih => exact ih
  | next kind one ih => exact ih
  | beyond kind matched more ih => exact ih

/-! ## Chains of calls -/

/-- A later call in a chain stands behind an earlier one, or at the same place for a phrase that can
stand at the front of the earlier one's. -/
def Call.Before (g : Grammar) (c d : Call) : Prop :=
  d.tokens.length < c.tokens.length ∨
    d.tokens = c.tokens ∧ Relation.TransGen g.Front c.phrase d.phrase

theorem Calls.before {c d : Call} (h : Calls g c d) : c.Before g d := by
  rcases h.advances with ⟨later, -⟩ | ⟨same, -, front⟩
  · exact .inl later
  · exact .inr ⟨same, .single front⟩

instance (g : Grammar) : IsTrans Call (Call.Before g) where
  trans c d e := by
    rintro (later | ⟨same, front⟩) (later' | ⟨same', front'⟩)
    · exact .inl (later'.trans later)
    · exact .inl (by rw [same']; exact later)
    · exact .inl (by rw [← same]; exact later')
    · exact .inr ⟨same'.trans same, front.trans front'⟩

theorem Call.Before.place_ne (hg : g.Checked) {c d : Call} (h : c.Before g d) :
    c.place ≠ d.place := by
  intro same
  obtain ⟨phrase, length⟩ := Prod.mk.inj same
  rcases h with later | ⟨-, front⟩
  · omega
  · rw [← phrase] at front
    exact hg.acyclic _ front

/-- The phrases entered at the place of a call can have its phrase at their front. -/
def Call.Proper (g : Grammar) (c : Call) : Prop :=
  ∀ e ∈ c.entered, Relation.TransGen g.Front e c.phrase

theorem Calls.proper {c d : Call} (h : Calls g c d) (hc : c.Proper g) : d.Proper g := by
  rcases h.advances with ⟨-, none_entered⟩ | ⟨-, entered, front⟩
  · intro e mem
    rw [none_entered] at mem
    cases mem
  · intro e mem
    rw [entered] at mem
    rcases List.mem_cons.1 mem with rfl | mem
    · exact .single front
    · exact (hc e mem).tail front

theorem proper_of_chain {c : Call} {chain : List Call} (hc : c.Proper g)
    (nested : (c :: chain).IsChain (Calls g)) : ∀ d ∈ c :: chain, d.Proper g := by
  induction chain generalizing c with
  | nil => simpa using hc
  | cons d chain ih =>
    obtain ⟨call, nested⟩ := List.isChain_cons_cons.1 nested
    rw [List.forall_mem_cons]
    exact ⟨hc, ih (call.proper hc) nested⟩

/-! ### How long a chain can be -/

theorem mem_heads {n : NonTerminal} {a : Alternative} (h : a ∈ g.alternatives n) :
    n ∈ g.rules.map Prod.fst :=
  List.mem_map_of_mem (rule_of_mem_alternatives h)

theorem mem_heads_of_hasRule {n : NonTerminal} (h : g.hasRule n = true) :
    n ∈ g.rules.map Prod.fst := by
  obtain ⟨own, found⟩ := Option.isSome_iff_exists.1 h
  obtain ⟨before, behind, split, -⟩ := List.lookup_eq_some_iff.1 found
  simp [split]

/-- Every phrase that a rule mentions has a rule. -/
theorem mem_heads_of_mentions (hg : g.Checked) {m n : NonTerminal} {a : Alternative}
    (mem : a ∈ g.alternatives m) (h : (Goal.parts a).Mentions n) : n ∈ g.rules.map Prod.fst := by
  obtain ⟨p, mem_p, is_phrase⟩ := h
  obtain ⟨check, -⟩ := checks_of_flaw? hg.flawless
  have none_found := List.findSome?_eq_none_iff.1 (check _ (rule_of_mem_alternatives mem)) p
    (List.mem_flatten.2 ⟨a, mem, mem_p⟩)
  rw [is_phrase] at none_found
  by_cases has_rule : g.hasRule n = true
  · exact mem_heads_of_hasRule has_rule
  · simp [has_rule] at none_found

theorem rules_length_pos (hg : g.Checked) : 0 < g.rules.length := by
  have root : g.hasRule g.root = true := by
    have check := hg.flawless
    unfold flaw? at check
    split at check
    · cases check
    · next has_rule => simpa using has_rule
  have mem := mem_heads_of_hasRule root
  simpa using List.length_pos_of_mem mem

theorem Calls.mem_heads {c d : Call} (hg : g.Checked) (h : Calls g c d) :
    c.phrase ∈ g.rules.map Prod.fst ∧ d.phrase ∈ g.rules.map Prod.fst := by
  cases h with
  | @intro tried others a all past asks =>
    have mem : a ∈ g.alternatives c.phrase := by simp [all]
    exact ⟨Matching.mem_heads mem, mem_heads_of_mentions hg mem asks.mentions⟩

theorem place_mem_of_chain (hg : g.Checked) {bound : Nat} {c : Call} {chain : List Call}
    (known : c.phrase ∈ g.rules.map Prod.fst) (within : c.tokens.length < bound)
    (nested : (c :: chain).IsChain (Calls g)) :
    ∀ d ∈ c :: chain, d.place ∈ g.rules.map Prod.fst ×ˢ List.range bound := by
  induction chain generalizing c with
  | nil => simpa [Call.place] using ⟨by simpa using known, within⟩
  | cons d chain ih =>
    obtain ⟨call, nested⟩ := List.isChain_cons_cons.1 nested
    rw [List.forall_mem_cons]
    refine ⟨List.mem_product.2 ⟨known, List.mem_range.2 within⟩, ih (call.mem_heads hg).2 ?_ nested⟩
    rcases call.advances with ⟨later, -⟩ | ⟨same, -⟩
    · omega
    · rw [same]
      exact within

/-- In a chain of nested calls no phrase occurs twice at one place, so the chain has at most as many
calls as there are phrases with a rule and places. No phrase is entered again, and every element of
a repetition takes a token. -/
theorem nested_calls_bounded {root : NonTerminal} {rules : List Rule}
    (checked : ofRules root rules = .ok g) {n : NonTerminal} {tokens : List Token}
    {chain : List Call} (start : chain.head? = some ⟨[], n, tokens⟩)
    (nested : chain.IsChain (Calls g)) :
    (chain.map Call.place).Nodup ∧ chain.length ≤ g.rules.length * (tokens.length + 1) ∧
      (∀ c ∈ chain, c.phrase ∉ c.entered) ∧
      ∀ (m : NonTerminal) (a : Alternative) (p : Part), a ∈ g.alternatives m → p ∈ a →
        p.repeated = .many ∨ p.repeated = .separated →
        ∀ (entered : List NonTerminal) (here rest : List Token) (t : Tree) (moved : Bool) le,
          symbol g entered p.symbol here = .matched t rest moved le →
            moved = true ∧ rest.length < here.length := by
  have hg := checked_of_ofRules checked
  obtain ⟨others, rfl⟩ : ∃ others, chain = ⟨[], n, tokens⟩ :: others := by
    cases chain with
    | nil => cases start
    | cons c others => exact ⟨others, by rw [Option.some.inj start]⟩
  have distinct : ((⟨[], n, tokens⟩ :: others).map Call.place).Nodup := by
    have ordered := (nested.imp fun _ _ => Calls.before).pairwise
    exact List.pairwise_map.2 (ordered.imp fun before => before.place_ne hg)
  refine ⟨distinct, ?_, ?_, ?_⟩
  · cases others with
    | nil => exact Nat.mul_pos (rules_length_pos hg) (Nat.succ_pos _)
    | cons d others =>
      have known := ((List.isChain_cons_cons.1 nested).1.mem_heads hg).1
      have places := place_mem_of_chain hg known (Nat.lt_succ_self tokens.length) nested
      have sub : (((⟨[], n, tokens⟩ : Call) :: d :: others).map Call.place) ⊆
          g.rules.map Prod.fst ×ˢ List.range (tokens.length + 1) := by
        intro place mem
        obtain ⟨c, mem_c, rfl⟩ := List.mem_map.1 mem
        exact places c mem_c
      have le := (distinct.subperm sub).length_le
      rwa [List.length_map, List.length_product, List.length_map, List.length_range] at le
  · intro c mem entered
    have none_entered : Call.Proper g ⟨[], n, tokens⟩ := fun e absent => by cases absent
    exact hg.acyclic _ (proper_of_chain none_entered nested c mem _ entered)
  · intro m a p mem mem_p loop entered here rest t moved le matched
    cases moved with
    | false => exact absurd (yields_symbol_of_still matched) (hg.element mem mem_p loop)
    | true => exact ⟨rfl, le⟩

/-! ### An empty block -/

/-- The brace that opens a block at the start of a script. -/
def openingBrace : Token :=
  ⟨.mark .leftBrace, "\x7b", ⟨"a.dts", 1, 1⟩⟩

/-- The tokens of a script with an empty block. -/
def emptyBlock : List Token :=
  [openingBrace, ⟨.mark .rightBrace, "\x7d", ⟨"a.dts", 1, 2⟩⟩]

/-- The calls that lead to the first statement in an empty block, which is not there. -/
def callsInBlock : List Call :=
  [⟨[], .program, emptyBlock⟩, ⟨[.program], .item, emptyBlock⟩,
    ⟨[.item, .program], .statement, emptyBlock⟩,
    ⟨[.statement, .item, .program], .block, emptyBlock⟩, ⟨[], .statement, emptyBlock.tail⟩]

theorem rejected_indicatorDeclaration : parts Script.grammar [.item, .program] false
    [Script.phrase .indicatorDeclaration] emptyBlock = .rejected := by
  have own : Script.grammar.alternatives .indicatorDeclaration =
      [[Script.token .indicatorName, Script.mark .less, Script.phrase .initializerList,
        Script.mark .greater, Script.token .identifier, Script.mark .semicolon]] := by
    decide +kernel
  simp [parts, part, symbol, phrase, alternatives, own, Script.phrase, Script.token, emptyBlock,
    openingBrace]

theorem matched_leftBrace : part Script.grammar [.block, .statement, .item, .program] false
    (Script.mark .leftBrace) emptyBlock =
      .matched [.leaf openingBrace] emptyBlock.tail true (Nat.le_refl _) := by
  simp [part, symbol, Script.mark, Script.token, emptyBlock, openingBrace]

theorem isChain_callsInBlock : callsInBlock.IsChain (Calls Script.grammar) := by
  have program : Script.grammar.alternatives .program = [] ++ [Script.many .item] :: [] := by
    decide +kernel
  have item : Script.grammar.alternatives .item =
      [[Script.phrase .indicatorDeclaration]] ++ [Script.phrase .statement] :: [] := by
    decide +kernel
  have statement : Script.grammar.alternatives .statement =
      [] ++ [Script.phrase .block] :: (Script.grammar.alternatives .statement).tail := by
    decide +kernel
  have block : Script.grammar.alternatives .block =
      [] ++ [Script.mark .leftBrace, Script.many .statement, Script.mark .rightBrace] :: [] := by
    decide +kernel
  refine .cons_cons ?_ (.cons_cons ?_ (.cons_cons ?_ (.cons_cons ?_ (.singleton _))))
  · exact .intro program (by simp) (.first (.element (.phrase _ _ _)))
  · refine .intro item (fun b mem => ?_) (.first (.element (.phrase _ _ _)))
    rw [List.mem_singleton.1 mem]
    exact rejected_indicatorDeclaration
  · exact .intro statement (by simp) (.first (.element (.phrase _ _ _)))
  · exact .intro block (by simp) (.others matched_leftBrace (.first (.element (.phrase _ _ _))))

/-- A statement is tried at both places of an empty block, but only once at each. -/
theorem nested_calls_bounded_block :
    callsInBlock.head? = some ⟨[], .program, emptyBlock⟩ ∧
      callsInBlock.IsChain (Calls Script.grammar) ∧
      [(NonTerminal.program, 2), (.item, 2), (.statement, 2), (.block, 2), (.statement, 1)].Nodup ∧
      5 ≤ Script.grammar.rules.length * 3 ∧ ∀ c ∈ callsInBlock, c.phrase ∉ c.entered :=
  have start : callsInBlock.head? = some ⟨[], .program, emptyBlock⟩ := rfl
  have bounded := nested_calls_bounded Script.grammar?_eq_ok start isChain_callsInBlock
  ⟨start, isChain_callsInBlock, bounded.1, bounded.2.1, bounded.2.2.1⟩

end Matching

end TradeScript
