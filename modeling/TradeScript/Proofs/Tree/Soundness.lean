import TradeScript.Proofs.Tree.Reading

/-!
# The matcher returns readings

What the matcher returns is a reading of the tokens that it takes, on every grammar
(`Matching.phrase_fulfils`), and each phrase of it took the first of its alternatives that is not
passed over (`Grammar.FirstFit`). The theorems follow the functions of the matcher one by one.

A match that takes no token comes from a derivation of the empty sequence.
-/

namespace TradeScript

namespace Outcome

/-- A match fulfils `p` of its result and its rest, and takes tokens if it says so. -/
def Fulfils {α : Type} {tokens : List Token} (p : α → List Token → Prop) : Outcome α tokens → Prop
  | rejected => True
  | failed _ _ => True
  | matched result rest moved _ => p result rest ∧ (moved = false → rest = tokens)

end Outcome

namespace Grammar

/-- An alternative was passed over at the given tokens. -/
def PassesOver (g : Grammar) (a : Alternative) (tokens : List Token) : Prop :=
  ∃ entered, Matching.parts g entered false a tokens = .rejected

/-- A phrase took the first of its alternatives that is not passed over. -/
def FirstFit (g : Grammar) : PhraseCondition
  | .leaf _, _, _ => True
  | .node n choice _ _, tokens, _ => ∀ i < choice, ∀ a, (g.alternatives n)[i]? = some a →
      g.PassesOver a tokens

end Grammar

namespace Matching

variable (g : Grammar)

mutual

theorem phrase_fulfils (entered : List NonTerminal) (n : NonTerminal) (tokens : List Token) :
    (phrase g entered n tokens).Fulfils fun t rest =>
      g.Reads g.FirstFit (.symbol (.nonTerminal n)) tokens [t] rest := by
  rw [phrase]
  split
  · trivial
  · exact alternatives_fulfils (n :: entered) n [] (g.alternatives n) tokens rfl (by simp)
  termination_by (tokens.length, unentered entered, 0, 0)
  decreasing_by
    exact Prod.Lex.right _ (Prod.Lex.left _ _ (unentered_cons_lt ‹_›))

theorem alternatives_fulfils (entered : List NonTerminal) (n : NonTerminal)
    (tried untried : List Alternative) (tokens : List Token)
    (all : g.alternatives n = tried ++ untried) (past : ∀ a ∈ tried, g.PassesOver a tokens) :
    (alternatives g entered n tried.length untried tokens).Fulfils fun t rest =>
      g.Reads g.FirstFit (.symbol (.nonTerminal n)) tokens [t] rest := by
  cases untried with
  | nil =>
    rw [alternatives]
    trivial
  | cons a others =>
    rw [alternatives]
    have body := parts_fulfils entered false a tokens
    cases outcome : parts g entered false a tokens with
    | rejected =>
      have next := alternatives_fulfils entered n (tried ++ [a]) others tokens (by simp [all])
        (by simpa [or_imp, forall_and] using ⟨past, entered, outcome⟩)
      simpa using next
    | failed misfit rest => trivial
    | matched children rest moved le =>
      rw [outcome] at body
      refine ⟨.phrase (a := a) (by simp [all]) body.1 ?_, body.2⟩
      intro i before b at_i
      rw [all, List.getElem?_append_left before] at at_i
      exact past b (List.mem_of_getElem? at_i)
  termination_by (tokens.length, unentered entered, 5, untried.length)

theorem parts_fulfils (entered : List NonTerminal) (committed : Bool) (remaining : List Part)
    (tokens : List Token) :
    (parts g entered committed remaining tokens).Fulfils fun trees rest =>
      g.Reads g.FirstFit (.parts remaining) tokens trees rest := by
  cases remaining with
  | nil =>
    rw [parts]
    exact ⟨.nil tokens, fun _ => rfl⟩
  | cons p others =>
    rw [parts]
    have first := part_fulfils entered committed p tokens
    cases outcome : part g entered committed p tokens with
    | rejected => trivial
    | failed misfit rest => trivial
    | matched front middle moved le =>
      rw [outcome] at first
      have second := parts_fulfils (enteredAfter moved entered) (committed || moved) others middle
      dsimp only
      cases outcome' : parts g (enteredAfter moved entered) (committed || moved) others middle with
      | rejected => trivial
      | failed misfit rest => trivial
      | matched back rest moved' le' =>
        rw [outcome'] at second
        refine ⟨.cons first.1 second.1, fun still => ?_⟩
        rw [Bool.or_eq_false_iff] at still
        rw [second.2 still.2, first.2 still.1]
  termination_by (tokens.length, unentered entered, 4, remaining.length)
  decreasing_by
    · exact before_of_phase (by decide)
    · cases moved
      · exact before_of_le le (Nat.le_refl _) (.inr ⟨rfl, Nat.lt_succ_self _⟩)
      · exact before_of_lt le

theorem part_fulfils (entered : List NonTerminal) (committed : Bool) (p : Part)
    (tokens : List Token) :
    (part g entered committed p tokens).Fulfils fun trees rest =>
      g.Reads g.FirstFit (.part p) tokens trees rest := by
  obtain ⟨s, repeated⟩ := p
  rw [part]
  cases repeated with
  | once =>
    have one := symbol_fulfils entered s tokens
    cases outcome : symbol g entered s tokens with
    | rejected => cases committed <;> trivial
    | failed misfit rest => trivial
    | matched t rest moved le =>
      rw [outcome] at one
      exact ⟨.once one.1, one.2⟩
  | optional =>
    have one := symbol_fulfils entered s tokens
    cases outcome : symbol g entered s tokens with
    | rejected => exact ⟨.omitted s tokens, fun _ => rfl⟩
    | failed misfit rest => trivial
    | matched t rest moved le =>
      rw [outcome] at one
      exact ⟨.present one.1, one.2⟩
  | many =>
    have some := many_fulfils entered s tokens
    cases outcome : many g entered s tokens with
    | rejected => trivial
    | failed misfit rest => trivial
    | matched trees rest moved le =>
      rw [outcome] at some
      exact ⟨.repeated some.1, some.2⟩
  | separated =>
    have first := symbol_fulfils entered s tokens
    cases outcome : symbol g entered s tokens with
    | rejected => exact ⟨.noElement s tokens, fun _ => rfl⟩
    | failed misfit rest => trivial
    | matched t middle moved le =>
      rw [outcome] at first
      have second := further_fulfils s middle
      dsimp only
      cases outcome' : further g s middle with
      | rejected => trivial
      | failed misfit rest => trivial
      | matched others rest moved' le' =>
        rw [outcome'] at second
        refine ⟨.separated first.1 second.1, fun still => ?_⟩
        rw [Bool.or_eq_false_iff] at still
        rw [second.2 still.2, first.2 still.1]
  termination_by (tokens.length, unentered entered, 3, 0)
  decreasing_by
    all_goals first
      | exact before_of_phase (by decide)
      | exact before_of_le (length_le_of_matched ‹_›) (Nat.zero_le _) (.inl (by decide))

theorem symbol_fulfils (entered : List NonTerminal) (s : Symbol) (tokens : List Token) :
    (symbol g entered s tokens).Fulfils fun t rest =>
      g.Reads g.FirstFit (.symbol s) tokens [t] rest := by
  rw [symbol.eq_def]
  cases s with
  | nonTerminal n => exact phrase_fulfils entered n tokens
  | terminal k =>
    cases tokens with
    | nil => trivial
    | cons t rest =>
      dsimp only
      split
      · next kind =>
        subst kind
        exact ⟨.token t rest, fun still => by cases still⟩
      · trivial
  termination_by (tokens.length, unentered entered, 1, 0)
  decreasing_by exact before_of_phase (by decide)

theorem many_fulfils (entered : List NonTerminal) (s : Symbol) (tokens : List Token) :
    (many g entered s tokens).Fulfils fun trees rest =>
      g.Reads g.FirstFit (.many s) tokens trees rest := by
  rw [many]
  have first := symbol_fulfils entered s tokens
  cases outcome : symbol g entered s tokens with
  | rejected => exact ⟨.manyNil s tokens, fun _ => rfl⟩
  | failed misfit rest => trivial
  | matched t middle moved le =>
    rw [outcome] at first
    cases moved with
    | false => exact ⟨.manyCons first.1 (.manyNil s middle), first.2⟩
    | true =>
      have second := many_fulfils [] s middle
      dsimp only
      cases outcome' : many g [] s middle with
      | rejected => trivial
      | failed misfit rest => trivial
      | matched others rest moved' le' =>
        rw [outcome'] at second
        exact ⟨.manyCons first.1 second.1, fun still => by cases still⟩
  termination_by (tokens.length, unentered entered, 2, 0)
  decreasing_by
    · exact before_of_phase (by decide)
    · exact before_of_lt le

theorem further_fulfils (s : Symbol) (tokens : List Token) :
    (further g s tokens).Fulfils fun trees rest =>
      g.Reads g.FirstFit (.further s) tokens trees rest := by
  rw [further.eq_def]
  cases tokens with
  | nil => exact ⟨.furtherNil s [], fun _ => rfl⟩
  | cons comma tokens =>
    dsimp only
    split
    · next kind =>
      have first := symbol_fulfils [] s tokens
      cases outcome : symbol g [] s tokens with
      | rejected => trivial
      | failed misfit rest => trivial
      | matched t middle moved le =>
        rw [outcome] at first
        have second := further_fulfils s middle
        dsimp only
        cases outcome' : further g s middle with
        | rejected => trivial
        | failed misfit rest => trivial
        | matched others rest moved' le' =>
          rw [outcome'] at second
          exact ⟨.furtherCons kind first.1 second.1, fun still => by cases still⟩
    · exact ⟨.furtherNil s _, fun _ => rfl⟩
  termination_by (tokens.length, 0, 0, 0)
  decreasing_by
    · exact before_of_lt (Nat.lt_succ_self _)
    · exact before_of_lt (Nat.lt_succ_of_le (length_le_of_matched le))

end

/-! ## Matches that take no token -/

variable {g}

theorem yields_part_of_still {entered : List NonTerminal} {committed : Bool} {p : Part}
    {tokens rest : List Token} {trees : List Tree}
    {le : rest.length + false.toNat ≤ tokens.length}
    (matched : part g entered committed p tokens = .matched trees rest false le) :
    rest = tokens ∧ g.Yields (.part p) [] := by
  have sound := part_fulfils g entered committed p tokens
  rw [matched] at sound
  obtain ⟨reads, still⟩ := sound
  obtain rfl := still rfl
  obtain ⟨taken, split, yields⟩ := reads.yields
  obtain rfl : taken = [] := by simpa using split
  exact ⟨rfl, yields⟩

theorem yields_symbol_of_still {entered : List NonTerminal} {s : Symbol}
    {tokens rest : List Token} {t : Tree} {le : rest.length + false.toNat ≤ tokens.length}
    (matched : symbol g entered s tokens = .matched t rest false le) :
    g.Yields (.symbol s) [] := by
  have sound := symbol_fulfils g entered s tokens
  rw [matched] at sound
  obtain ⟨reads, still⟩ := sound
  obtain rfl := still rfl
  obtain ⟨taken, split, yields⟩ := reads.yields
  obtain rfl : taken = [] := by simpa using split
  exact yields

end Matching
end TradeScript
