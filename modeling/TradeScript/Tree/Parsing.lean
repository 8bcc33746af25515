import TradeScript.Counting
import TradeScript.Diagnostic
import TradeScript.Tree

/-!
# Reading tokens as a phrase

`Tree.parse` reads a sequence of tokens as one phrase of a grammar. The alternatives of a phrase are
tried in order. One that does not fit its first token is passed over; one that has taken a token is
committed, and what does not fit after that is an error at the token in question.

A phrase is not entered a second time before a token has been taken, which makes the matcher total
on every grammar; on a grammar without left recursion such an entry does not occur.
-/

namespace TradeScript

/-- Why tokens cannot be read. -/
inductive Misfit
  | expected (symbol : Symbol)
  | unexpected
  deriving DecidableEq

namespace Misfit

/-- The message about a misfit, given what was found. -/
def message (found : String) : Misfit → String
  | expected symbol => "expected " ++ symbol.describe ++ ", found " ++ found
  | unexpected => "unexpected " ++ found

/-- The diagnostic for a misfit at `rest`, to which the reading of `tokens` has come. At the end of
the input it points behind the last token. -/
def diagnose (misfit : Misfit) (tokens rest : List Token) : Diagnostic :=
  match rest with
  | t :: _ => ⟨t.start, misfit.message ("'" ++ t.value ++ "'"), t.width⟩
  | [] => ⟨(tokens.getLast?.map Token.stop).getD (Position.first ""),
      misfit.message "end of input", 1⟩

end Misfit

/-- How an attempt to match tokens ends. A match tells whether it has taken a token. -/
inductive Outcome (α : Type) (tokens : List Token)
  | rejected
  | failed (misfit : Misfit) (rest : List Token)
  | matched (result : α) (rest : List Token) (moved : Bool)
      (le : rest.length + moved.toNat ≤ tokens.length)

/-- The place of the first token, or no place. -/
def Position.ofTokens : List Token → Position
  | [] => Position.none
  | t :: _ => t.start

namespace Matching

/-! ## Phrases entered without taking a token -/

/-- The number of phrases that may still be entered before a token is taken. -/
def unentered (entered : List NonTerminal) : Nat :=
  NonTerminal.all.countP fun n => !entered.contains n

theorem unentered_cons_lt {entered : List NonTerminal} {n : NonTerminal} (h : n ∉ entered) :
    unentered (n :: entered) < unentered entered :=
  countP_new_cons_lt h (Listed.mem_all n)

/-- The phrases entered at the place reached by a match. -/
def enteredAfter (moved : Bool) (entered : List NonTerminal) : List NonTerminal :=
  if moved then [] else entered

/-! ## The order in which the matcher descends

A step of the matcher takes tokens, or enters a phrase, or goes to a later phase at the same place,
or leaves a part of a list behind.
-/

/-- The order of steps: tokens left, phrases to enter, phase, length of a list. -/
abbrev Before : Nat × Nat × Nat × Nat → Nat × Nat × Nat × Nat → Prop :=
  Prod.Lex (· < ·) (Prod.Lex (· < ·) (Prod.Lex (· < ·) (· < ·)))

theorem before_of_lt {a b : Nat} {x y : Nat × Nat × Nat} (h : a < b) : Before (a, x) (b, y) :=
  Prod.Lex.left _ _ h

theorem before_of_phase {a u p q x y : Nat} (h : p < q) : Before (a, u, p, x) (a, u, q, y) :=
  Prod.Lex.right _ (Prod.Lex.right _ (Prod.Lex.left _ _ h))

theorem before_of_le {a b u v p q x y : Nat} (tokens : a ≤ b) (phrases : u ≤ v)
    (h : p < q ∨ p = q ∧ x < y) : Before (a, u, p, x) (b, v, q, y) := by
  rcases Nat.lt_or_eq_of_le tokens with lt | rfl
  · exact before_of_lt lt
  rcases Nat.lt_or_eq_of_le phrases with lt | rfl
  · exact Prod.Lex.right _ (Prod.Lex.left _ _ lt)
  rcases h with lt | ⟨rfl, lt⟩
  · exact before_of_phase lt
  · exact Prod.Lex.right _ (Prod.Lex.right _ (Prod.Lex.right _ lt))

/-- Two matches in a row take what both take. -/
theorem length_add_or_le {start middle stop : List Token} {moved moved' : Bool}
    (first : middle.length + moved.toNat ≤ start.length)
    (second : stop.length + moved'.toNat ≤ middle.length) :
    stop.length + (moved || moved').toNat ≤ start.length := by
  cases moved <;> cases moved' <;> simp at first second ⊢ <;> omega

/-- A match leaves no more than there was. -/
theorem length_le_of_matched {start stop : List Token} {moved : Bool}
    (le : stop.length + moved.toNat ≤ start.length) : stop.length ≤ start.length :=
  Nat.le_of_add_right_le le

/-! ## The matcher -/

variable (g : Grammar)

mutual

/-- Match a phrase, unless it is being matched at this place already. -/
def phrase (entered : List NonTerminal) (n : NonTerminal) (tokens : List Token) :
    Outcome Tree tokens :=
  if _ : n ∈ entered then .rejected
  else alternatives (n :: entered) n 0 (g.alternatives n) tokens
  termination_by (tokens.length, unentered entered, 0, 0)
  decreasing_by
    exact Prod.Lex.right _ (Prod.Lex.left _ _ (unentered_cons_lt ‹_›))

/-- Match the first of some alternatives that is not passed over. -/
def alternatives (entered : List NonTerminal) (n : NonTerminal) (choice : Nat)
    (untried : List Alternative) (tokens : List Token) : Outcome Tree tokens :=
  match untried with
  | [] => .rejected
  | a :: others =>
    match parts entered false a tokens with
    | .rejected => alternatives entered n (choice + 1) others tokens
    | .failed misfit rest => .failed misfit rest
    | .matched children rest moved le =>
      .matched (.node n choice (Position.ofTokens tokens) children) rest moved le
  termination_by (tokens.length, unentered entered, 5, untried.length)

/-- Match the remaining parts of an alternative, which is committed if it has taken a token. -/
def parts (entered : List NonTerminal) (committed : Bool) (remaining : List Part)
    (tokens : List Token) : Outcome (List Tree) tokens :=
  match remaining with
  | [] => .matched [] tokens false (Nat.le_refl _)
  | p :: others =>
    match part entered committed p tokens with
    | .rejected => .rejected
    | .failed misfit rest => .failed misfit rest
    | .matched front rest moved le =>
      match parts (enteredAfter moved entered) (committed || moved) others rest with
      | .rejected => .rejected
      | .failed misfit rest => .failed misfit rest
      | .matched back rest' moved' le' =>
        .matched (front ++ back) rest' (moved || moved')
          (length_add_or_le le le')
  termination_by (tokens.length, unentered entered, 4, remaining.length)
  decreasing_by
    · exact before_of_phase (by decide)
    · cases moved
      · exact before_of_le le (Nat.le_refl _) (.inr ⟨rfl, Nat.lt_succ_self _⟩)
      · exact before_of_lt le

/-- Match one part: a symbol as often as it may stand. -/
def part (entered : List NonTerminal) (committed : Bool) (p : Part) (tokens : List Token) :
    Outcome (List Tree) tokens :=
  match p.repeated with
  | .once =>
    match symbol entered p.symbol tokens with
    | .rejected => if committed then .failed (.expected p.symbol) tokens else .rejected
    | .failed misfit rest => .failed misfit rest
    | .matched t rest moved le => .matched [t] rest moved le
  | .optional =>
    match symbol entered p.symbol tokens with
    | .rejected => .matched [] tokens false (Nat.le_refl _)
    | .failed misfit rest => .failed misfit rest
    | .matched t rest moved le => .matched [t] rest moved le
  | .many => many entered p.symbol tokens
  | .separated =>
    match symbol entered p.symbol tokens with
    | .rejected => .matched [] tokens false (Nat.le_refl _)
    | .failed misfit rest => .failed misfit rest
    | .matched t rest moved le =>
      match further p.symbol rest with
      | .rejected => .rejected
      | .failed misfit rest => .failed misfit rest
      | .matched others rest' moved' le' =>
        .matched (t :: others) rest' (moved || moved')
          (length_add_or_le le le')
  termination_by (tokens.length, unentered entered, 3, 0)
  decreasing_by
    all_goals first
      | exact before_of_phase (by decide)
      | exact before_of_le (length_le_of_matched ‹_›) (Nat.zero_le _) (.inl (by decide))

/-- Match a symbol once. -/
def symbol (entered : List NonTerminal) (s : Symbol) (tokens : List Token) : Outcome Tree tokens :=
  match s with
  | .terminal k =>
    match tokens with
    | [] => .rejected
    | t :: rest => if t.kind = k then .matched (.leaf t) rest true (Nat.le_refl _) else .rejected
  | .nonTerminal n => phrase entered n tokens
  termination_by (tokens.length, unentered entered, 1, 0)
  decreasing_by exact before_of_phase (by decide)

/-- Match a symbol as often as it fits. -/
def many (entered : List NonTerminal) (s : Symbol) (tokens : List Token) :
    Outcome (List Tree) tokens :=
  match symbol entered s tokens with
  | .rejected => .matched [] tokens false (Nat.le_refl _)
  | .failed misfit rest => .failed misfit rest
  | .matched t rest false le => .matched [t] rest false le
  | .matched t rest true le =>
    match many [] s rest with
    | .rejected => .rejected
    | .failed misfit rest => .failed misfit rest
    | .matched others rest' moved' le' =>
      .matched (t :: others) rest' true (length_add_or_le le le')
  termination_by (tokens.length, unentered entered, 2, 0)
  decreasing_by
    · exact before_of_phase (by decide)
    · exact before_of_lt le

/-- Match further occurrences of a symbol, each after a comma. -/
def further (s : Symbol) (tokens : List Token) : Outcome (List Tree) tokens :=
  match tokens with
  | [] => .matched [] [] false (Nat.le_refl _)
  | comma :: rest =>
    if comma.kind = .mark .comma then
      match symbol [] s rest with
      | .rejected => .failed (.expected s) rest
      | .failed misfit rest => .failed misfit rest
      | .matched t rest' moved le =>
        match further s rest' with
        | .rejected => .rejected
        | .failed misfit rest => .failed misfit rest
        | .matched others rest'' moved' le' =>
          .matched (t :: others) rest'' true
            (Nat.succ_le_succ (Nat.le_trans (length_le_of_matched le') (length_le_of_matched le)))
    else .matched [] (comma :: rest) false (Nat.le_refl _)
  termination_by (tokens.length, 0, 0, 0)
  decreasing_by
    · exact before_of_lt (Nat.lt_succ_self _)
    · exact before_of_lt (Nat.lt_succ_of_le (length_le_of_matched le))

end

end Matching

namespace Tree

/-- Read all of some tokens as a phrase. -/
def parse (g : Grammar) (n : NonTerminal) (tokens : List Token) : Except Diagnostic Tree :=
  match Matching.phrase g [] n tokens with
  | .rejected => .error (Misfit.diagnose (.expected (.nonTerminal n)) tokens tokens)
  | .failed misfit rest => .error (misfit.diagnose tokens rest)
  | .matched t [] _ _ => .ok t
  | .matched _ (next :: rest) _ _ => .error (Misfit.unexpected.diagnose tokens (next :: rest))

end Tree

end TradeScript
