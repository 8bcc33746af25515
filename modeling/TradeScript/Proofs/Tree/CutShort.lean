import TradeScript.Proofs.Tree.Choice

/-!
# Tokens that are cut short

Tokens that can be read are cut off before a token whose kind only closes what other tokens have
opened (`Grammar.Closing`). The matcher then goes the same way as on the whole up to the cut: what
could still follow there is left out as if nothing came, and the first part that has to stand is the
one that the missing token matches. So reading fails at the end of the input, and expects the kind of
that token (`Tree.parse_cutShort`).

The theorems follow the functions of the matcher one by one and compare the outcome on the whole with
the outcome on the tokens before the cut (`Outcome.CutShort`).
-/

namespace TradeScript

open Grammar

/-- A part that is matched by exactly one token. -/
def Part.isToken : Part → Bool
  | ⟨.terminal _, .once⟩ => true
  | _ => false

/-- A terminal stands in the remaining parts of an alternative only where the alternative has taken
a token, and only once in its place. -/
def Alternative.closes (k : Terminal) (committed : Bool) : Alternative → Bool
  | [] => true
  | p :: others =>
    (p.symbol ≠ .terminal k || committed && p.repeated = .once) &&
      closes k (committed || p.isToken) others

theorem Alternative.closes_true {k : Terminal} {committed : Bool} {ps : Alternative}
    (h : closes k committed ps = true) : closes k true ps = true := by
  induction ps generalizing committed with
  | nil => rfl
  | cons p others ih =>
    simp only [closes, Bool.and_eq_true, Bool.or_eq_true, Bool.true_or, true_and] at h ⊢
    exact ⟨h.1.imp_right And.right, ih h.2⟩

/-- A terminal only closes what another terminal of the same alternative has opened. -/
structure Grammar.Closing (g : Grammar) (k : Terminal) : Prop where
  ne_comma : k ≠ .mark .comma
  closes : ∀ r ∈ g.rules, ∀ a ∈ r.2, Alternative.closes k false a = true

/-- An outcome on some tokens and an outcome on the tokens before `next`, behind which `after`
stands: they agree unless a match takes `next`, and then the other attempt expects it at its end. -/
def Outcome.CutShort {α : Type} {whole short : List Token} (next : Token) (after : List Token) :
    Outcome α whole → Outcome α short → Prop
  | rejected, o => o = rejected
  | failed _ _, _ => True
  | matched _ rest moved _, o =>
    (∃ before result le, rest = before ++ next :: after ∧ o = matched result before moved le) ∨
      moved = true ∧ rest.length ≤ after.length ∧ o = failed (.expected (.terminal next.kind)) []

namespace Matching

variable {g : Grammar} {next : Token} {after : List Token}

/-- A terminal that is not the one of the next token is matched before it or not at all. -/
theorem terminal_cutShort {k : Terminal} (other : k ≠ next.kind) (entered : List NonTerminal)
    (front : List Token) : (symbol g entered (.terminal k) (front ++ next :: after)).CutShort
      next after (symbol g entered (.terminal k) front) := by
  rw [symbol.eq_def, symbol.eq_def]
  cases front with
  | nil =>
    simp only [List.nil_append, if_neg (Ne.symm other)]
    rfl
  | cons t front =>
    simp only [List.cons_append]
    split
    · exact .inl ⟨front, .leaf t, _, rfl, rfl⟩
    · rfl

/-- The terminal of the next token is matched before it, or by it, and then expected at the cut. -/
theorem next_cutShort (entered : List NonTerminal) (front : List Token) :
    (part g entered true ⟨.terminal next.kind, .once⟩ (front ++ next :: after)).CutShort next after
      (part g entered true ⟨.terminal next.kind, .once⟩ front) := by
  rw [part, part]
  dsimp only
  rw [symbol.eq_def, symbol.eq_def]
  cases front with
  | nil =>
    simp only [List.nil_append, if_true]
    exact .inr ⟨rfl, Nat.le_refl _, rfl⟩
  | cons t front =>
    simp only [List.cons_append]
    by_cases kind : t.kind = next.kind
    · simp only [if_pos kind]
      exact .inl ⟨front, [.leaf t], _, rfl, rfl⟩
    · simp only [if_neg kind]
      trivial

theorem moved_of_isToken {entered : List NonTerminal} {committed moved : Bool} {p : Part}
    {tokens rest : List Token} {trees : List Tree} {le : rest.length + moved.toNat ≤ tokens.length}
    (token : p.isToken = true)
    (matched : part g entered committed p tokens = .matched trees rest moved le) :
    moved = true := by
  obtain ⟨s, repeated⟩ := p
  cases s with
  | nonTerminal n => cases token
  | terminal k =>
    cases repeated with
    | once =>
      rw [part, symbol.eq_def] at matched
      cases tokens with
      | nil => cases committed <;> cases matched
      | cons t tokens =>
        by_cases kind : t.kind = k
        · simp only [if_pos kind] at matched
          cases matched
          rfl
        · simp only [if_neg kind] at matched
          cases committed <;> cases matched
    | optional => cases token
    | many => cases token
    | separated => cases token

mutual

theorem phrase_cutShort (closing : g.Closing next.kind) (entered : List NonTerminal)
    (n : NonTerminal) (front : List Token) :
    (phrase g entered n (front ++ next :: after)).CutShort next after
      (phrase g entered n front) := by
  rw [phrase, phrase]
  split
  · rfl
  · exact alternatives_cutShort closing (n :: entered) n 0 (g.alternatives n) front
      fun a mem => closing.closes _ (rule_of_mem_alternatives mem) a mem
  termination_by (front.length, unentered entered, 0, 0)
  decreasing_by
    exact Prod.Lex.right _ (Prod.Lex.left _ _ (unentered_cons_lt ‹_›))

theorem alternatives_cutShort (closing : g.Closing next.kind) (entered : List NonTerminal)
    (n : NonTerminal) (choice : Nat) (untried : List Alternative) (front : List Token)
    (closes : ∀ a ∈ untried, Alternative.closes next.kind false a = true) :
    (alternatives g entered n choice untried (front ++ next :: after)).CutShort next after
      (alternatives g entered n choice untried front) := by
  cases untried with
  | nil =>
    rw [alternatives, alternatives]
    rfl
  | cons a others =>
    rw [List.forall_mem_cons] at closes
    rw [alternatives, alternatives]
    have body := parts_cutShort closing entered false a front closes.1
    cases outcome : parts g entered false a (front ++ next :: after) with
    | rejected =>
      rw [outcome] at body
      rw [show parts g entered false a front = .rejected from body]
      exact alternatives_cutShort closing entered n (choice + 1) others front closes.2
    | failed misfit rest => trivial
    | matched children rest moved le =>
      rw [outcome] at body
      obtain ⟨before, children', le', split, short⟩ | ⟨taken, past, short⟩ := body
      · rw [short]
        exact .inl ⟨before, _, le', split, rfl⟩
      · rw [short]
        exact .inr ⟨taken, past, rfl⟩
  termination_by (front.length, unentered entered, 5, untried.length)

theorem parts_cutShort (closing : g.Closing next.kind) (entered : List NonTerminal)
    (committed : Bool) (remaining : List Part) (front : List Token)
    (closes : Alternative.closes next.kind committed remaining = true) :
    (parts g entered committed remaining (front ++ next :: after)).CutShort next after
      (parts g entered committed remaining front) := by
  cases remaining with
  | nil =>
    rw [parts, parts]
    exact .inl ⟨front, [], _, rfl, rfl⟩
  | cons p others =>
    simp only [Alternative.closes, Bool.and_eq_true, Bool.or_eq_true, decide_eq_true_eq] at closes
    rw [parts, parts]
    have first := part_cutShort closing entered committed p front fun is_next =>
      closes.1.resolve_left (absurd is_next)
    cases outcome : part g entered committed p (front ++ next :: after) with
    | rejected =>
      rw [outcome] at first
      rw [show part g entered committed p front = .rejected from first]
      rfl
    | failed misfit rest => trivial
    | matched trees middle moved le =>
      rw [outcome] at first
      have closes_others : Alternative.closes next.kind (committed || moved) others = true := by
        cases token : p.isToken with
        | true =>
          rw [moved_of_isToken token outcome, Bool.or_true]
          exact Alternative.closes_true closes.2
        | false =>
          have here := closes.2
          rw [token, Bool.or_false] at here
          cases moved with
          | false => rwa [Bool.or_false]
          | true =>
            rw [Bool.or_true]
            exact Alternative.closes_true here
      obtain ⟨before, trees', le', rfl, short⟩ | ⟨rfl, past, short⟩ := first
      · have second := parts_cutShort closing (enteredAfter moved entered) (committed || moved) others
          before closes_others
        rw [short]
        dsimp only
        cases outcome' : parts g (enteredAfter moved entered) (committed || moved) others
            (before ++ next :: after) with
        | rejected =>
          rw [outcome'] at second
          rw [show parts g _ _ others before = .rejected from second]
          rfl
        | failed misfit rest => trivial
        | matched back rest moved' le'' =>
          rw [outcome'] at second
          obtain ⟨before', back', le''', split, short'⟩ | ⟨rfl, past, short'⟩ := second
          · rw [short']
            exact .inl ⟨before', _, _, split, rfl⟩
          · rw [short']
            exact .inr ⟨Bool.or_true moved, past, rfl⟩
      · rw [short]
        dsimp only
        rw [Bool.or_true]
        cases outcome' : parts g (enteredAfter true entered) true others middle with
        | rejected => exact absurd outcome' (parts_ne_rejected _ others middle)
        | failed misfit rest => trivial
        | matched back rest moved' le'' =>
          exact .inr ⟨rfl, (length_le_of_matched le'').trans past, rfl⟩
  termination_by (front.length, unentered entered, 4, remaining.length)
  decreasing_by
    · exact before_of_phase (by decide)
    · have fewer : others.length < remaining.length := by
        rw [‹remaining = _›]
        exact Nat.lt_succ_self _
      cases moved
      · exact before_of_le le' (Nat.le_refl _) (.inr ⟨rfl, fewer⟩)
      · exact before_of_lt le'

theorem part_cutShort (closing : g.Closing next.kind) (entered : List NonTerminal)
    (committed : Bool) (p : Part) (front : List Token)
    (closes : p.symbol = .terminal next.kind → committed = true ∧ p.repeated = .once) :
    (part g entered committed p (front ++ next :: after)).CutShort next after
      (part g entered committed p front) := by
  obtain ⟨s, repeated⟩ := p
  by_cases is_next : s = .terminal next.kind
  · obtain ⟨rfl, rfl⟩ := closes is_next
    subst is_next
    exact next_cutShort entered front
  rw [part, part]
  have one := symbol_cutShort closing entered s front is_next
  cases repeated with
  | many => exact many_cutShort closing entered s front is_next
  | once =>
    dsimp only
    cases outcome : symbol g entered s (front ++ next :: after) with
    | rejected =>
      rw [outcome] at one
      rw [show symbol g entered s front = .rejected from one]
      cases committed
      · rfl
      · trivial
    | failed misfit rest => trivial
    | matched t rest moved le =>
      rw [outcome] at one
      obtain ⟨before, t', le', split, short⟩ | ⟨taken, past, short⟩ := one
      · rw [short]
        exact .inl ⟨before, _, le', split, rfl⟩
      · rw [short]
        exact .inr ⟨taken, past, rfl⟩
  | optional =>
    dsimp only
    cases outcome : symbol g entered s (front ++ next :: after) with
    | rejected =>
      rw [outcome] at one
      rw [show symbol g entered s front = .rejected from one]
      exact .inl ⟨front, [], _, rfl, rfl⟩
    | failed misfit rest => trivial
    | matched t rest moved le =>
      rw [outcome] at one
      obtain ⟨before, t', le', split, short⟩ | ⟨taken, past, short⟩ := one
      · rw [short]
        exact .inl ⟨before, _, le', split, rfl⟩
      · rw [short]
        exact .inr ⟨taken, past, rfl⟩
  | separated =>
    dsimp only
    cases outcome : symbol g entered s (front ++ next :: after) with
    | rejected =>
      rw [outcome] at one
      rw [show symbol g entered s front = .rejected from one]
      exact .inl ⟨front, [], _, rfl, rfl⟩
    | failed misfit rest => trivial
    | matched t middle moved le =>
      rw [outcome] at one
      obtain ⟨before, t', le', rfl, short⟩ | ⟨rfl, past, short⟩ := one
      · rw [short]
        have more := further_cutShort closing s before is_next
        dsimp only
        cases outcome' : further g s (before ++ next :: after) with
        | rejected => exact absurd outcome' (further_ne_rejected s _)
        | failed misfit rest => trivial
        | matched others rest moved' le'' =>
          rw [outcome'] at more
          obtain ⟨before', others', le''', split, short'⟩ | ⟨rfl, past, short'⟩ := more
          · rw [short']
            exact .inl ⟨before', _, _, split, rfl⟩
          · rw [short']
            exact .inr ⟨Bool.or_true moved, past, rfl⟩
      · rw [short]
        dsimp only
        cases outcome' : further g s middle with
        | rejected => exact absurd outcome' (further_ne_rejected s _)
        | failed misfit rest => trivial
        | matched others rest moved' le'' =>
          exact .inr ⟨rfl, (length_le_of_matched le'').trans past, rfl⟩
  termination_by (front.length, unentered entered, 3, 0)
  decreasing_by
    all_goals first
      | exact before_of_phase (by decide)
      | exact before_of_le (length_le_of_matched ‹_›) (Nat.zero_le _) (.inl (by decide))

theorem symbol_cutShort (closing : g.Closing next.kind) (entered : List NonTerminal) (s : Symbol)
    (front : List Token) (other : s ≠ .terminal next.kind) :
    (symbol g entered s (front ++ next :: after)).CutShort next after
      (symbol g entered s front) := by
  cases s with
  | terminal k => exact terminal_cutShort (fun same => other (by rw [same])) entered front
  | nonTerminal n =>
    rw [symbol.eq_def, symbol.eq_def]
    exact phrase_cutShort closing entered n front
  termination_by (front.length, unentered entered, 1, 0)
  decreasing_by exact before_of_phase (by decide)

theorem many_cutShort (closing : g.Closing next.kind) (entered : List NonTerminal) (s : Symbol)
    (front : List Token) (other : s ≠ .terminal next.kind) :
    (many g entered s (front ++ next :: after)).CutShort next after (many g entered s front) := by
  rw [many, many]
  have first := symbol_cutShort closing entered s front other
  cases outcome : symbol g entered s (front ++ next :: after) with
  | rejected =>
    rw [outcome] at first
    rw [show symbol g entered s front = .rejected from first]
    exact .inl ⟨front, [], _, rfl, rfl⟩
  | failed misfit rest => trivial
  | matched t middle moved le =>
    rw [outcome] at first
    obtain ⟨before, t', le', rfl, short⟩ | ⟨rfl, past, short⟩ := first
    · rw [short]
      cases moved with
      | false => exact .inl ⟨before, _, le', rfl, rfl⟩
      | true =>
        have more := many_cutShort closing [] s before other
        dsimp only
        cases outcome' : many g [] s (before ++ next :: after) with
        | rejected => exact absurd outcome' (many_ne_rejected [] s _)
        | failed misfit rest => trivial
        | matched others rest moved' le'' =>
          rw [outcome'] at more
          obtain ⟨before', others', le''', split, short'⟩ | ⟨rfl, past, short'⟩ := more
          · rw [short']
            exact .inl ⟨before', _, _, split, rfl⟩
          · rw [short']
            exact .inr ⟨rfl, past, rfl⟩
    · rw [short]
      dsimp only
      cases outcome' : many g [] s middle with
      | rejected => exact absurd outcome' (many_ne_rejected [] s _)
      | failed misfit rest => trivial
      | matched others rest moved' le'' =>
        exact .inr ⟨rfl, (length_le_of_matched le'').trans past, rfl⟩
  termination_by (front.length, unentered entered, 2, 0)
  decreasing_by
    · exact before_of_phase (by decide)
    · exact before_of_lt le'

theorem further_cutShort (closing : g.Closing next.kind) (s : Symbol) (front : List Token)
    (other : s ≠ .terminal next.kind) :
    (further g s (front ++ next :: after)).CutShort next after (further g s front) := by
  rw [further.eq_def, further.eq_def]
  cases front with
  | nil =>
    simp only [List.nil_append, if_neg closing.ne_comma]
    exact .inl ⟨[], [], _, rfl, rfl⟩
  | cons comma front =>
    simp only [List.cons_append]
    split
    · have first := symbol_cutShort closing [] s front other
      cases outcome : symbol g [] s (front ++ next :: after) with
      | rejected => trivial
      | failed misfit rest => trivial
      | matched t middle moved le =>
        rw [outcome] at first
        obtain ⟨before, t', le', rfl, short⟩ | ⟨rfl, past, short⟩ := first
        · rw [short]
          have more := further_cutShort closing s before other
          dsimp only
          cases outcome' : further g s (before ++ next :: after) with
          | rejected => exact absurd outcome' (further_ne_rejected s _)
          | failed misfit rest => trivial
          | matched others rest moved' le'' =>
            rw [outcome'] at more
            obtain ⟨before', others', le''', split, short'⟩ | ⟨rfl, past, short'⟩ := more
            · rw [short']
              exact .inl ⟨before', _, _, split, rfl⟩
            · rw [short']
              exact .inr ⟨rfl, past, rfl⟩
        · rw [short]
          dsimp only
          cases outcome' : further g s middle with
          | rejected => exact absurd outcome' (further_ne_rejected s _)
          | failed misfit rest => trivial
          | matched others rest moved' le'' =>
            exact .inr ⟨rfl, (length_le_of_matched le'').trans past, rfl⟩
    · exact .inl ⟨comma :: front, [], _, rfl, rfl⟩
  termination_by (front.length, 0, 0, 0)
  decreasing_by
    · exact before_of_lt (Nat.lt_succ_self _)
    · exact before_of_lt (Nat.lt_succ_of_le (length_le_of_matched le'))

end

end Matching

namespace Tree

variable {g : Grammar} {n : NonTerminal}

/-- Tokens that are cut short before a token that closes something are refused at their end, where
that token is expected. -/
theorem parse_cutShort {tokens after : List Token} {next : Token} {t : Tree}
    (closing : g.Closing next.kind) (h : parse g n (tokens ++ next :: after) = .ok t) :
    parse g n tokens = .error (Misfit.diagnose (.expected (.terminal next.kind)) tokens []) := by
  have cut := @Matching.phrase_cutShort g next after closing [] n tokens
  unfold parse at h
  split at h
  · cases h
  · cases h
  · next outcome =>
    rw [outcome] at cut
    obtain ⟨before, t', le, split, -⟩ | ⟨-, -, short⟩ := cut
    · simp at split
    · rw [parse, short]
  · cases h

end Tree

end TradeScript
