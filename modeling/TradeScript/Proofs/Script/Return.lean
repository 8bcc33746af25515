import Mathlib.Order.Bounds.Basic
import TradeScript.Plugin
import TradeScript.Proofs.Script.Declaration
import TradeScript.Proofs.Script.Lookahead

/-!
# Statements that leave a script

A script is left by its return statements and by its action statements, which return the code of
their action. These statements stand where the keywords `return`, `buy`, `sell` and `do_nothing`
stand among the tokens, and in the code of the script each of them has become a `return`
(`Script.matched_of_reads`). What follows the `return` can therefore be told from the tokens of the
script: a number for an action, a semicolon for a bare `return`, and the beginning of an expression
otherwise. The checks that an indicator returns nothing and that an algorithm returns an action
look at the statements, and decide the same for the code.
-/

namespace TradeScript

/-! ## Returns and actions among kinds -/

/-- A `return` stands at a place. -/
def ReturnsAt (ks : List Terminal) (i : Nat) : Prop :=
  ks[i]? = some (.keyword .return)

/-- The keyword of an action stands at a place. -/
def ActsAt (ks : List Terminal) (i : Nat) : Prop :=
  ∃ a : Action, ks[i]? = some (.keyword a.keyword)

/-- A `return` that is directly followed by a semicolon stands at a place. -/
def ReturnsNothingAt (ks : List Terminal) (i : Nat) : Prop :=
  ReturnsAt ks i ∧ ks[i + 1]? = some (.mark .semicolon)

/-- A `return` that is followed by something else than a semicolon stands at a place. -/
def ReturnsValueAt (ks : List Terminal) (i : Nat) : Prop :=
  ReturnsAt ks i ∧ ∃ k, ks[i + 1]? = some k ∧ k ≠ .mark .semicolon

/-- Every `return` is directly followed by a semicolon. -/
def ReturnsNothing (ks : List Terminal) : Prop :=
  ∀ i, ReturnsAt ks i → ReturnsNothingAt ks i

/-- Every `return` is followed by something else than a semicolon. -/
def ReturnsValues (ks : List Terminal) : Prop :=
  ∀ i, ReturnsAt ks i → ReturnsValueAt ks i

/-- What follows each `return`, in order. -/
def followers : List Terminal → List (Option Terminal)
  | [] => []
  | k :: others =>
    if k = .keyword .return then others.head? :: followers others else followers others

theorem mem_followers_iff {ks : List Terminal} {next : Option Terminal} :
    next ∈ followers ks ↔ ∃ i, ReturnsAt ks i ∧ ks[i + 1]? = next := by
  induction ks with
  | nil => simp [followers, ReturnsAt]
  | cons k others ih =>
    have split : (∃ i, ReturnsAt (k :: others) i ∧ (k :: others)[i + 1]? = next) ↔
        (k = .keyword .return ∧ others.head? = next) ∨
          ∃ i, ReturnsAt others i ∧ others[i + 1]? = next := by
      constructor
      · rintro ⟨i, returns, follows⟩
        cases i with
        | zero =>
          exact .inl ⟨by simpa [ReturnsAt] using returns,
            by simpa [List.head?_eq_getElem?] using follows⟩
        | succ i => exact .inr ⟨i, by simpa [ReturnsAt] using returns, by simpa using follows⟩
      · rintro (⟨rfl, follows⟩ | ⟨i, returns, follows⟩)
        · exact ⟨0, by simp [ReturnsAt], by simpa [List.head?_eq_getElem?] using follows⟩
        · exact ⟨i + 1, by simpa [ReturnsAt] using returns, by simpa using follows⟩
    rw [split, ← ih, followers]
    by_cases returns : k = .keyword .return
    · simp [returns, eq_comm]
    · simp [returns]

theorem returnsNothing_iff {ks : List Terminal} :
    ReturnsNothing ks ↔ ∀ next ∈ followers ks, next = some (.mark .semicolon) := by
  constructor
  · intro nothing next mem
    obtain ⟨i, returns, rfl⟩ := mem_followers_iff.1 mem
    exact (nothing i returns).2
  · intro all i returns
    exact ⟨returns, all _ (mem_followers_iff.2 ⟨i, returns, rfl⟩)⟩

theorem returnsValues_iff {ks : List Terminal} : ReturnsValues ks ↔
    ∀ next ∈ followers ks, ∃ k, next = some k ∧ k ≠ .mark .semicolon := by
  constructor
  · intro values next mem
    obtain ⟨i, returns, rfl⟩ := mem_followers_iff.1 mem
    exact (values i returns).2
  · intro all i returns
    exact ⟨returns, all _ (mem_followers_iff.2 ⟨i, returns, rfl⟩)⟩

theorem followers_append_of_forall_ne {ks : List Terminal}
    (h : ∀ k ∈ ks, k ≠ .keyword .return) (after : List Terminal) :
    followers (ks ++ after) = followers after := by
  induction ks with
  | nil => rfl
  | cons k others ih =>
    rw [List.forall_mem_cons] at h
    rw [List.cons_append, followers, if_neg h.1, ih h.2]

/-! ## Statements that leave a script -/

/-- A keyword that begins a statement by which a script is left. -/
def Terminal.Leaves (k : Terminal) : Prop :=
  k = .keyword .return ∨ ∃ a : Action, k = .keyword a.keyword

instance : DecidablePred Terminal.Leaves :=
  fun k => decidable_of_iff (k = .keyword .return ∨ (Action.ofTerminal? k).isSome = true) (by
    simp only [Terminal.Leaves, Option.isSome_iff_exists, Action.ofTerminal?_eq_some_iff])

namespace Tree

/-- Whether a node is a statement by which a script is left. -/
def isExit (t : Tree) : Bool :=
  t.isPhrase .returnStatement || t.isPhrase .actionStatement

/-- The statements by which a script is left, in the order of the script. -/
def exits (t : Tree) : List Tree :=
  t.descendants.filter isExit

theorem exits_leaf (t : Token) : (leaf t).exits = [] := by
  simp [exits, descendants_eq, children, isExit, isPhrase, symbol]

theorem exits_node (n : NonTerminal) (choice : Nat) (start : Position) (children : List Tree) :
    (node n choice start children).exits =
      (if n = .returnStatement ∨ n = .actionStatement then [node n choice start children]
        else []) ++ children.flatMap exits := by
  rw [exits, descendants_eq, List.filter_cons, List.filter_flatMap]
  by_cases exit : n = .returnStatement ∨ n = .actionStatement
  · simp [isExit, isPhrase, symbol, Tree.children, exit]
    rfl
  · simp [isExit, isPhrase, symbol, Tree.children, exit]
    rfl

mutual

/-- A tree without action statements and declarations of instances is rewritten to its own tokens.
-/
theorem rewritten_eq_take : ∀ (t : Tree) (tokens : List Token),
    (∀ u ∈ t.descendants, u.isPhrase .actionStatement = false ∧
      u.isPhrase .indicatorDeclaration = false) →
    t.rewritten tokens = (tokens.take t.span).map Token.lexeme
  | leaf _, tokens, _ => by rw [rewritten, span]
  | node n choice start children, tokens, h => by
    rw [descendants_eq, List.forall_mem_cons] at h
    have acts : n ≠ .actionStatement := by simpa [isPhrase, symbol] using h.1.1
    have declares : n ≠ .indicatorDeclaration := by simpa [isPhrase, symbol] using h.1.2
    rw [rewritten_node declares acts, span]
    exact rewrittenAll_eq_take n.listed false children tokens h.2

theorem rewrittenAll_eq_take (commas led : Bool) : ∀ (ts : List Tree) (tokens : List Token),
    (∀ u ∈ ts.flatMap descendants, u.isPhrase .actionStatement = false ∧
      u.isPhrase .indicatorDeclaration = false) →
    rewrittenAll commas led ts tokens = (tokens.take (spanAll commas led ts)).map Token.lexeme
  | [], tokens, _ => by simp [rewrittenAll, spanAll]
  | t :: others, tokens, h => by
    rw [List.flatMap_cons, List.forall_mem_append] at h
    rw [rewrittenAll, spanAll, rewritten_eq_take t _ h.1,
      rewrittenAll_eq_take commas commas others _ h.2, List.take_add, List.take_add,
      List.map_append, List.map_append]

end

theorem filter_exits {n : NonTerminal} (exit : n = .returnStatement ∨ n = .actionStatement)
    (t : Tree) : t.exits.filter (isPhrase n) = t.phrases n := by
  rw [exits, List.filter_filter, phrases]
  refine List.filter_congr fun u _ => ?_
  rcases exit with rfl | rfl
  all_goals simp +contextual [isExit]

end Tree

namespace Script

open Grammar

variable {keep : PhraseCondition} {goal : Goal} {tokens rest : List Token} {trees : List Tree}

/-- The ends of some tokens that begin with a keyword by which a script is left. -/
def exits (tokens : List Token) : List (List Token) :=
  tokens.tails.filter fun from_here => from_here.head?.any (·.kind.Leaves)

theorem exits_cons (t : Token) (others : List Token) :
    exits (t :: others) = (if t.kind.Leaves then [t :: others] else []) ++ exits others := by
  rw [exits, List.tails_cons, List.filter_cons]
  by_cases leaves : t.kind.Leaves <;> simp [leaves, exits]

theorem exits_append_of_forall_not {taken : List Token} (calm : ∀ t ∈ taken, ¬ t.kind.Leaves)
    (rest : List Token) : exits (taken ++ rest) = exits rest := by
  induction taken with
  | nil => rfl
  | cons t others ih =>
    rw [List.forall_mem_cons] at calm
    rw [List.cons_append, exits_cons, if_neg calm.1, List.nil_append, ih calm.2]

/-- What follows the `return` that the statement at the start of some tokens becomes. -/
def returned : List Token → Option Terminal
  | [] => none
  | t :: others => if t.kind = .keyword .return then others.head?.map Token.kind else some .number

/-- A statement by which a script is left begins some tokens. -/
def IsExit (keep : PhraseCondition) (t : Tree) (tokens : List Token) : Prop :=
  ∃ rest, grammar.Reads keep (.symbol (.nonTerminal .returnStatement)) tokens [t] rest ∨
    grammar.Reads keep (.symbol (.nonTerminal .actionStatement)) tokens [t] rest

/-- The statements of some trees by which the script is left, the keywords of these among the tokens
before a rest and the returns of the code go together one by one. -/
def Matched (keep : PhraseCondition) (tokens rest : List Token) (trees : List Tree)
    (lexemes : List (Terminal × String)) : Prop :=
  ∃ found, exits tokens = found ++ exits rest ∧
    List.Forall₂ (IsExit keep) (trees.flatMap Tree.exits) found ∧
    ∀ after, followers (lexemes.map Prod.fst ++ after) = found.map returned ++ followers after

theorem matched_of_calm {taken : List Token} {lexemes : List (Terminal × String)}
    (calm : ∀ t ∈ taken, ¬ t.kind.Leaves) (no_exits : trees.flatMap Tree.exits = [])
    (no_returns : ∀ l ∈ lexemes, l.1 ≠ .keyword .return) :
    Matched keep (taken ++ rest) rest trees lexemes := by
  refine ⟨[], exits_append_of_forall_not calm rest, by rw [no_exits]; exact .nil, fun after => ?_⟩
  exact followers_append_of_forall_ne (List.forall_mem_map.2 no_returns) after

theorem matched_nil : Matched keep tokens tokens [] [] := by
  have calm : ∀ t ∈ ([] : List Token), ¬ t.kind.Leaves := by simp
  exact matched_of_calm calm rfl (by simp)

theorem Matched.append {middle : List Token} {front back : List Tree}
    {lexemes lexemes' : List (Terminal × String)} (h : Matched keep tokens middle front lexemes)
    (h' : Matched keep middle rest back lexemes') :
    Matched keep tokens rest (front ++ back) (lexemes ++ lexemes') := by
  obtain ⟨found, split, exit, follow⟩ := h
  obtain ⟨found', split', exit', follow'⟩ := h'
  refine ⟨found ++ found', by rw [split, split', List.append_assoc], ?_, fun after => ?_⟩
  · rw [List.flatMap_append]
    exact List.rel_append exit exit'
  · rw [List.map_append, List.append_assoc, follow, follow', List.map_append, List.append_assoc]

/-! ### What cannot leave a script -/

/-- Whether a symbol can stand in an expression or a declaration of an instance. -/
def inQuiet : Symbol → Bool
  | .terminal k => ¬ k.Leaves
  | .nonTerminal n => n = .indicatorDeclaration || inArguments (.nonTerminal n)

theorem closed_inQuiet : grammar.Closed (inQuiet · = true) :=
  ⟨by decide, by decide +kernel⟩

theorem exits_eq_nil {taken : List Token} (h : Inside (inQuiet · = true) taken trees) :
    trees.flatMap Tree.exits = [] := by
  rw [List.flatMap_eq_nil_iff]
  intro t mem
  rw [Tree.exits, List.filter_eq_nil_iff]
  intro u below exit
  have symbol := h.2 u (List.mem_flatMap.2 ⟨t, mem, below⟩)
  simp only [Tree.isExit, Tree.isPhrase, Bool.or_eq_true, decide_eq_true_eq] at exit
  rcases exit with exit | exit
  all_goals
    rw [exit] at symbol
    exact absurd symbol (by decide)

theorem rewritten_eq_of_inside {taken : List Token} {t : Tree}
    (h : Inside (fun s => inArguments s = true) taken [t]) (tokens : List Token) :
    t.rewritten tokens = (tokens.take t.span).map Token.lexeme := by
  refine t.rewritten_eq_take tokens fun u below => ?_
  have symbol := h.2 u (by simpa using below)
  constructor
  all_goals
    refine decide_eq_false fun same => ?_
    rw [same] at symbol
    exact absurd symbol (by decide)

theorem not_leaves_of_inside {taken : List Token} (h : Inside (inQuiet · = true) taken trees) :
    ∀ t ∈ taken, ¬ t.kind.Leaves := by
  intro t mem
  simpa [inQuiet] using h.1 t mem

/-! ### Return statements -/

theorem alternatives_return : grammar.alternatives .returnStatement =
    [[keyword .return, maybe .expression, mark .semicolon]] := by
  decide +kernel

theorem not_empty_expression : [] ∉ grammar.language (.symbol (.nonTerminal .expression)) := by
  intro empty
  have skips : NonTerminal.expression ∈ grammar.nullable := empty.skips checked.surveyed rfl
  exact absurd skips (by decide +kernel)

/-- What stands between a `return` and its semicolon. -/
theorem value_of_reads {middle : List Token}
    (h : grammar.Reads keep (.part (maybe .expression)) tokens trees middle) :
    ∃ value, tokens = value ++ middle ∧
      (∀ t ∈ value, ¬ t.kind.Leaves ∧ t.kind ≠ .mark .semicolon) ∧
      trees.flatMap Tree.exits = [] ∧
      Tree.rewrittenAll false false trees tokens = value.map Token.lexeme ∧
      tokens.drop (Tree.spanAll false false trees) = middle ∧
      ((trees.find? (·.isPhrase .expression)).isSome = true ↔ value ≠ []) := by
  have covered := drop_spanAll h trivial
  cases h with
  | omitted => exact ⟨[], by simp [Tree.rewrittenAll, Tree.spanAll]⟩
  | present one =>
    obtain ⟨taken, split, yields⟩ := one.yields
    obtain ⟨value, rfl, quiet⟩ := one.within closed_inQuiet (show inQuiet _ = true from rfl)
    obtain ⟨value', same, arguments⟩ :=
      one.within closed_inArguments (show inArguments _ = true from rfl)
    obtain rfl := List.append_cancel_right same
    obtain rfl := List.append_cancel_right split
    have calm := not_leaves_of_inside quiet
    have nonempty : value ≠ [] := by
      rintro rfl
      exact not_empty_expression yields
    have span := spanAll_add_length one trivial
    obtain ⟨t, rfl⟩ := one.single
    have is_expression : t.isPhrase .expression = true := by
      cases one
      rfl
    have whole : t.span = value.length := by
      simpa [Tree.spanAll, Goal.commas, Goal.led] using span
    refine ⟨value, rfl, fun u mem => ⟨calm u mem, fun semicolon => ?_⟩, exits_eq_nil quiet, ?_,
      covered, by simp [is_expression, nonempty]⟩
    · have inside := arguments.1 u mem
      rw [semicolon] at inside
      cases inside
    · rw [Tree.rewrittenAll_singleton, rewritten_eq_of_inside arguments, whole, List.take_left]

/-- A return statement returns a value if something stands before its semicolon, and it stays as it
is in the code. -/
theorem returnStatement_cases {t : Tree}
    (h : grammar.Reads keep (.symbol (.nonTerminal .returnStatement)) tokens [t] rest) :
    ∃ first value semicolon, tokens = first :: (value ++ semicolon :: rest) ∧
      first.kind = .keyword .return ∧ semicolon.kind = .mark .semicolon ∧
      (∀ t ∈ value, ¬ t.kind.Leaves ∧ t.kind ≠ .mark .semicolon) ∧
      t.start = first.start ∧ t.isPhrase .returnStatement = true ∧ t.exits = [t] ∧
      t.rewritten tokens = (first :: (value ++ [semicolon])).map Token.lexeme ∧
      (t.returnsValue = true ↔ value ≠ []) := by
  cases h with
  | @phrase _ choice a _ _ children chosen body kept =>
    have mem := List.mem_of_getElem? chosen
    rw [alternatives_return, List.mem_singleton] at mem
    subst mem
    obtain ⟨first, _, _, first_kind, rfl, rfl, at_value⟩ := reads_token_cons body
    obtain ⟨inner, _, _, rfl, of_value, at_semicolon⟩ := at_value.split
    obtain ⟨semicolon, _, _, semicolon_kind, rfl, rfl, at_end⟩ := reads_token_cons at_semicolon
    cases at_end
    obtain ⟨value, rfl, calm, no_exits, rewritten, dropped, valued⟩ := value_of_reads of_value
    refine ⟨first, value, semicolon, rfl, first_kind, semicolon_kind, calm, rfl, rfl, ?_, ?_, ?_⟩
    · simp [Tree.exits_node, Tree.exits_leaf, no_exits]
    · rw [Tree.rewritten_node (by decide) (by decide)]
      show Tree.rewrittenAll false false _ _ = _
      simp [Tree.rewrittenAll_append, Tree.rewrittenAll, Tree.rewritten, Tree.span, rewritten,
        dropped]
    · rw [← valued, Tree.returnsValue, Tree.child?, Tree.children, List.find?_cons,
        List.find?_append]
      cases inner.find? (·.isPhrase .expression) <;> simp [Tree.isPhrase, Tree.symbol]

/-! ### Action statements -/

/-- An action statement becomes the return of the code of its action. -/
theorem actionStatement_cases {t : Tree}
    (h : grammar.Reads keep (.symbol (.nonTerminal .actionStatement)) tokens [t] rest) :
    ∃ a first marks, tokens = first :: (marks ++ rest) ∧ first.kind = .keyword (Action.keyword a) ∧
      (∀ t ∈ marks, ¬ t.kind.Leaves) ∧ t.start = first.start ∧ t.isPhrase .actionStatement = true ∧
      t.exits = [t] ∧ t.action? = some a ∧ t.rewritten tokens = a.returned := by
  obtain ⟨taken, split, yields⟩ := h.yields
  cases h with
  | @phrase _ choice alternative _ _ children chosen body kept =>
    obtain ⟨a, first, at_head, kind, action⟩ :=
      exists_action_of_actionStatement (.phrase chosen body kept)
    obtain ⟨k, kinds⟩ := kinds_of_action yields
    have rewritten : (Tree.node .actionStatement choice (Position.ofTokens tokens)
        children).rewritten tokens = a.returned := by
      have found : Action.ofTerminal? first.kind = some a := Action.ofTerminal?_eq_some_iff.2 kind
      simp [Tree.rewritten, at_head, found]
    have no_exits : children.flatMap Tree.exits = [] := by
      have mem := List.mem_of_getElem? chosen
      rw [alternatives_action.1, List.mem_singleton] at mem
      subst mem
      obtain ⟨call, _, _, rfl, of_call, at_open⟩ := reads_phrase_cons body
      obtain ⟨opening, _, _, -, rfl, rfl, at_close⟩ := reads_token_cons at_open
      obtain ⟨closing, _, _, -, rfl, rfl, at_semicolon⟩ := reads_token_cons at_close
      obtain ⟨semicolon, _, _, -, rfl, rfl, at_end⟩ := reads_token_cons at_semicolon
      cases at_end
      obtain ⟨_, word, -, -, is_call, leaves⟩ := exists_action_of_actionCall of_call
      cases call with
      | leaf t => cases is_call
      | node n choice start below =>
        obtain rfl : n = .actionCall := by simpa [Tree.isPhrase, Tree.symbol] using is_call
        obtain rfl : below = [.leaf word] := leaves
        simp [Tree.exits_node, Tree.exits_leaf]
    cases taken with
    | nil => cases kinds
    | cons u marks =>
      subst split
      obtain rfl : u = first := Option.some.inj at_head
      refine ⟨a, u, marks, rfl, kind, fun t mem => ?_, rfl, rfl, ?_, action, rewritten⟩
      · have marks_kinds : marks.map Token.kind =
            [.mark .leftParen, .mark .rightParen, .mark .semicolon] := (List.cons.inj kinds).2
        have mem_kinds : t.kind ∈ marks.map Token.kind := List.mem_map_of_mem mem
        rw [marks_kinds] at mem_kinds
        revert mem_kinds
        generalize t.kind = k
        revert k
        decide
      · simp [Tree.exits_node, no_exits]

/-! ### Scripts -/

theorem matched_of_exit {t : Tree} {lexemes : List (Terminal × String)} {first : Token}
    {others : List Token} (split : tokens = first :: (others ++ rest)) (leaves : first.kind.Leaves)
    (calm : ∀ t ∈ others, ¬ t.kind.Leaves) (exit : IsExit keep t tokens) (own : t.exits = [t])
    (follow : ∀ after, followers (lexemes.map Prod.fst ++ after) =
      returned tokens :: followers after) :
    Matched keep tokens rest [t] lexemes := by
  refine ⟨[tokens], ?_, ?_, by simpa using follow⟩
  · rw [split, exits_cons, if_pos leaves, exits_append_of_forall_not calm]
  · rw [List.flatMap_singleton, own]
    exact .cons exit .nil

theorem matched_of_returnStatement {t : Tree}
    (h : grammar.Reads keep (.symbol (.nonTerminal .returnStatement)) tokens [t] rest) :
    Matched keep tokens rest [t] (t.rewritten tokens) := by
  obtain ⟨first, value, semicolon, split, first_kind, semicolon_kind, calm, -, -, own, rewritten,
    -⟩ := returnStatement_cases h
  have semicolon_calm : ¬ semicolon.kind.Leaves := by
    rw [semicolon_kind]
    decide
  have no_returns : ∀ k ∈ (value ++ [semicolon]).map Token.kind, k ≠ .keyword .return := by
    simp only [List.forall_mem_map, List.forall_mem_append, List.forall_mem_singleton]
    exact ⟨fun t mem returns => (calm t mem).1 (.inl returns),
      fun returns => semicolon_calm (.inl returns)⟩
  have split' : tokens = first :: ((value ++ [semicolon]) ++ rest) := by
    rw [split, List.append_assoc, List.singleton_append]
  refine matched_of_exit split' (.inl first_kind) ?_ ⟨rest, .inl h⟩ own fun after => ?_
  · exact List.forall_mem_append.2 ⟨fun t mem => (calm t mem).1, by simpa using semicolon_calm⟩
  · have kinds : (t.rewritten tokens).map Prod.fst =
        .keyword .return :: (value ++ [semicolon]).map Token.kind := by
      rw [rewritten, List.map_map, List.map_cons]
      exact congrArg (· :: _) first_kind
    rw [kinds, List.cons_append, followers, if_pos rfl,
      followers_append_of_forall_ne no_returns, split]
    cases value <;> simp [returned, first_kind, semicolon_kind]

theorem matched_of_actionStatement {t : Tree}
    (h : grammar.Reads keep (.symbol (.nonTerminal .actionStatement)) tokens [t] rest) :
    Matched keep tokens rest [t] (t.rewritten tokens) := by
  obtain ⟨a, first, marks, split, kind, calm, -, -, own, -, rewritten⟩ := actionStatement_cases h
  refine matched_of_exit split (.inr ⟨a, kind⟩) calm ⟨rest, .inr h⟩ own fun after => ?_
  rw [rewritten, split]
  cases a <;> simp [Action.returned, followers, returned, kind, Action.keyword]

/-- Whether a symbol stands in scripts by itself, and not only within a statement that leaves them.
-/
def inScript : Symbol → Bool
  | .terminal k => ¬ k.Leaves
  | .nonTerminal n => n ≠ .actionCall

theorem inScript_of_rule : ∀ r ∈ grammar.rules, r.1 ≠ .returnStatement → r.1 ≠ .actionStatement →
    r.1 ≠ .actionCall → ∀ a ∈ r.2, ∀ p ∈ a, inScript p.symbol = true := by
  decide +kernel

theorem matched_of_declaration {t : Tree}
    (h : grammar.Reads keep (.symbol (.nonTerminal .indicatorDeclaration)) tokens [t] rest) :
    Matched keep tokens rest [t] (t.rewritten tokens) := by
  obtain ⟨taken, rfl, quiet⟩ := h.within closed_inQuiet (show inQuiet _ = true from rfl)
  have dropped : t.rewritten (taken ++ rest) = [] := by
    cases h
    rfl
  rw [dropped]
  exact matched_of_calm (not_leaves_of_inside quiet) (exits_eq_nil quiet) (by simp)

theorem Matched.cons_comma {comma : Token} (kind : comma.kind = .mark .comma)
    {lexemes : List (Terminal × String)} (h : Matched keep tokens rest trees lexemes) :
    Matched keep (comma :: tokens) rest trees (comma.lexeme :: lexemes) := by
  have calm : Matched keep ([comma] ++ tokens) tokens [] [comma.lexeme] := by
    refine matched_of_calm ?_ rfl ?_
    · simp only [List.forall_mem_singleton, kind]
      decide
    · simp [Token.lexeme, kind]
  exact calm.append h

theorem matched_append {middle : List Token} {front back : List Tree}
    (h : Matched keep tokens middle front (Tree.rewrittenAll false false front tokens))
    (h' : Matched keep middle rest back (Tree.rewrittenAll false false back middle))
    (middle_eq : tokens.drop (Tree.spanAll false false front) = middle) :
    Matched keep tokens rest (front ++ back)
      (Tree.rewrittenAll false false (front ++ back) tokens) := by
  rw [Tree.rewrittenAll_append, middle_eq]
  exact h.append h'

/-- The statements by which a script is left, their keywords among the tokens and the returns of the
code go together. -/
theorem matched_of_reads (h : grammar.Reads keep goal tokens trees rest) (tidy : goal.Tidy)
    (within : goal.Within (inScript · = true)) :
    Matched keep tokens rest trees (Tree.rewrittenAll goal.commas goal.led trees tokens) := by
  induction h with
  | token t rest =>
    have stands : inScript (.terminal t.kind) = true := within
    have calm : ¬ t.kind.Leaves := by simpa [inScript] using stands
    have lexemes : Tree.rewrittenAll false false [.leaf t] (t :: rest) = [t.lexeme] := by
      simp [Tree.rewrittenAll, Tree.rewritten]
    show Matched keep ([t] ++ rest) rest [.leaf t]
      (Tree.rewrittenAll false false [.leaf t] (t :: rest))
    rw [lexemes]
    refine matched_of_calm (by simpa using calm) (by simp [Tree.exits_leaf]) ?_
    simpa [Token.lexeme] using fun returns => calm (.inl returns)
  | @phrase n choice a tokens rest children chosen body kept ih =>
    have mem := List.mem_of_getElem? chosen
    obtain ⟨listed, tidy_a, -⟩ := layout_checks _ (rule_of_mem_alternatives mem) a mem
    show Matched keep tokens rest _ (Tree.rewrittenAll false false _ tokens)
    rw [Tree.rewrittenAll_singleton]
    by_cases returns : n = .returnStatement
    · subst returns
      exact matched_of_returnStatement (.phrase chosen body kept)
    by_cases acts : n = .actionStatement
    · subst acts
      exact matched_of_actionStatement (.phrase chosen body kept)
    by_cases declares : n = .indicatorDeclaration
    · subst declares
      exact matched_of_declaration (.phrase chosen body kept)
    have called : n ≠ .actionCall := by
      simpa [inScript] using (show inScript (.nonTerminal n) = true from within)
    have inside := inScript_of_rule _ (rule_of_mem_alternatives mem) returns acts called a mem
    obtain ⟨found, split, exits, follow⟩ := ih tidy_a inside
    rw [Tree.rewritten_node declares acts, ← listed]
    refine ⟨found, split, ?_, follow⟩
    simpa [Tree.exits_node, returns, acts] using exits
  | nil => exact matched_nil
  | @cons p ps tokens middle rest front back first others ih₁ ih₂ =>
    obtain ⟨within_p, within_ps⟩ := List.forall_mem_cons.1 within
    have matched := ih₁ trivial within_p
    have matched' := ih₂ tidy.tail within_ps
    have middle_eq := drop_spanAll first trivial
    rcases tidy.cases with ⟨rfl, same⟩ | ⟨loose, loose', loose''⟩
    · cases others
      rw [← same, List.append_nil]
      exact matched
    · rw [loose] at matched middle_eq
      rw [loose'] at matched'
      rw [loose'']
      exact matched_append matched matched' middle_eq
  | once one ih => exact ih trivial within
  | omitted s => exact matched_nil
  | present one ih => exact ih trivial within
  | repeated some ih => exact ih trivial within
  | noElement s => exact matched_nil
  | @separated s tokens middle rest front back first others ih₁ ih₂ =>
    obtain ⟨t, rfl⟩ := first.single
    have middle_eq : tokens.drop (0 + t.span + 0) = middle := drop_spanAll first trivial
    have whole := (ih₁ trivial within).append (ih₂ trivial within)
    simpa [Tree.rewrittenAll, Goal.commas, Goal.led, ← middle_eq] using whole
  | manyNil s => exact matched_nil
  | @manyCons s tokens middle rest front back first others ih₁ ih₂ =>
    exact matched_append (ih₁ trivial within) (ih₂ trivial within) (drop_spanAll first trivial)
  | furtherNil s => exact matched_nil
  | @furtherCons s comma tokens middle rest front back kind first others ih₁ ih₂ =>
    obtain ⟨t, rfl⟩ := first.single
    have middle_eq : tokens.drop (0 + t.span + 0) = middle := drop_spanAll first trivial
    have whole := ((ih₁ trivial within).append (ih₂ trivial within)).cons_comma kind
    simpa [Tree.rewrittenAll, Goal.commas, Goal.led, Nat.add_comm 1, ← middle_eq] using whole

/-! ## What is checked -/

section Checks

variable {t : Tree} {s : List Token}

/-- A statement by which a script is left tells by its first two tokens what it becomes. -/
theorem IsExit.forms (h : IsExit keep t s) :
    ∃ first others, s = first :: others ∧ t.start = first.start ∧
      ((t.symbol = .nonTerminal .actionStatement ∧
          ∃ a, first.kind = .keyword (Action.keyword a) ∧ t.action? = some a) ∨
        (t.symbol = .nonTerminal .returnStatement ∧ first.kind = .keyword .return ∧
          ∃ next, others.head? = some next ∧
            (t.returnsValue = true ↔ next.kind ≠ .mark .semicolon))) := by
  obtain ⟨rest, returns | acts⟩ := h
  · obtain ⟨first, value, semicolon, split, kind, semicolon_kind, calm, start, phrase, -, -,
      valued⟩ := returnStatement_cases returns
    refine ⟨first, value ++ semicolon :: rest, split, start,
      .inr ⟨of_decide_eq_true phrase, kind, ?_⟩⟩
    cases value with
    | nil => exact ⟨semicolon, rfl, by simp [valued, semicolon_kind]⟩
    | cons next value =>
      exact ⟨next, rfl, by simpa [valued] using (calm next List.mem_cons_self).2⟩
  · obtain ⟨a, first, marks, split, kind, -, start, phrase, -, action, -⟩ :=
      actionStatement_cases acts
    exact ⟨first, marks ++ rest, split, start, .inl ⟨of_decide_eq_true phrase, a, kind, action⟩⟩

theorem IsExit.acts_iff (h : IsExit keep t s) :
    t.isPhrase .actionStatement = true ↔ ActsAt (s.map Token.kind) 0 := by
  obtain ⟨first, others, rfl, -, ⟨symbol, a, kind, -⟩ | ⟨symbol, kind, -⟩⟩ := h.forms
  · simp [Tree.isPhrase, symbol, ActsAt, kind]
  · have other : ∀ a : Action, Keyword.return ≠ a.keyword := by intro a; cases a <;> decide
    simp [Tree.isPhrase, symbol, ActsAt, kind, other]

theorem IsExit.value_iff (h : IsExit keep t s) :
    (t.isPhrase .returnStatement && t.returnsValue) = true ↔
      ReturnsValueAt (s.map Token.kind) 0 := by
  obtain ⟨first, others, rfl, -, ⟨symbol, a, kind, -⟩ | ⟨symbol, kind, next, follows, valued⟩⟩ :=
    h.forms
  · have other : a.keyword ≠ .return := by cases a <;> decide
    simp [Tree.isPhrase, symbol, ReturnsValueAt, ReturnsAt, kind, other]
  · rw [List.head?_eq_getElem?] at follows
    simp [Tree.isPhrase, symbol, ReturnsValueAt, ReturnsAt, kind, follows, valued]

theorem IsExit.nothing_iff (h : IsExit keep t s) :
    (t.isPhrase .returnStatement && !t.returnsValue) = true ↔
      ReturnsNothingAt (s.map Token.kind) 0 := by
  obtain ⟨first, others, rfl, -, ⟨symbol, a, kind, -⟩ | ⟨symbol, kind, next, follows, valued⟩⟩ :=
    h.forms
  · have other : a.keyword ≠ .return := by cases a <;> decide
    simp [Tree.isPhrase, symbol, ReturnsNothingAt, ReturnsAt, kind, other]
  · rw [List.head?_eq_getElem?] at follows
    simp [Tree.isPhrase, symbol, ReturnsNothingAt, ReturnsAt, kind, follows, ← Bool.not_eq_true,
      valued]

/-- What follows the return that a statement becomes. -/
theorem IsExit.returned_iff (h : IsExit keep t s) :
    ∃ next, returned s = some next ∧
      (next = .mark .semicolon ↔ (t.isPhrase .returnStatement && !t.returnsValue) = true) := by
  obtain ⟨first, others, rfl, -, ⟨symbol, a, kind, -⟩ | ⟨symbol, kind, next, follows, valued⟩⟩ :=
    h.forms
  · have other : a.keyword ≠ .return := by cases a <;> decide
    exact ⟨.number, by simp [returned, kind, other], by simp [Tree.isPhrase, symbol]⟩
  · refine ⟨next.kind, by simp [returned, kind, follows], ?_⟩
    simp [Tree.isPhrase, symbol, ← Bool.not_eq_true, valued]

/-! ### The first of the statements -/

theorem forall_mem_iff_of_forall₂ {α β : Type} {R : α → β → Prop} {p : α → Prop} {q : β → Prop}
    {xs : List α} {ys : List β} (agree : ∀ x y, R x y → (p x ↔ q y)) (h : List.Forall₂ R xs ys) :
    (∀ x ∈ xs, p x) ↔ ∀ y ∈ ys, q y := by
  induction h with
  | nil => simp
  | cons first _ ih => rw [List.forall_mem_cons, List.forall_mem_cons, agree _ _ first, ih]

theorem isLeast_succ {P : List Token → Prop} {first : Token} {others : List Token} {i : Nat}
    (here : ¬ P (first :: others)) (h : IsLeast {j | P (others.drop j)} i) :
    IsLeast {j | P ((first :: others).drop j)} (i + 1) := by
  refine ⟨h.1, fun j holds => ?_⟩
  cases j with
  | zero => exact absurd holds here
  | succ j => exact Nat.succ_le_succ (h.2 holds)

/-- The first of some statements with a property stands at the first place of the tokens that has a
corresponding property. -/
theorem isLeast_of_find? {P : List Token → Prop} {p : Tree → Bool} {ts : List Tree}
    (agree : ∀ t s, IsExit keep t s → (p t = true ↔ P s))
    (leaves : ∀ first others, P (first :: others) → first.kind.Leaves)
    (h : List.Forall₂ (IsExit keep) ts (exits tokens)) (found : ts.find? p = some t) :
    ∃ i, IsLeast {j | P (tokens.drop j)} i ∧ IsExit keep t (tokens.drop i) := by
  induction tokens generalizing ts with
  | nil =>
    cases h
    cases found
  | cons first others ih =>
    rw [exits_cons] at h
    by_cases left : first.kind.Leaves
    · rw [if_pos left, List.singleton_append] at h
      cases h with
      | @cons u _ us _ exit rest =>
        rw [List.find?_cons] at found
        cases holds : p u with
        | true =>
          rw [holds] at found
          cases found
          exact ⟨0, ⟨(agree _ _ exit).1 holds, fun j _ => j.zero_le⟩, exit⟩
        | false =>
          rw [holds] at found
          obtain ⟨i, least, exit'⟩ := ih rest found
          refine ⟨i + 1, isLeast_succ (fun here => ?_) least, exit'⟩
          rw [(agree _ _ exit).2 here] at holds
          cases holds
    · rw [if_neg left, List.nil_append] at h
      obtain ⟨i, least, exit⟩ := ih h found
      exact ⟨i + 1, isLeast_succ (fun here => left (leaves _ _ here)) least, exit⟩

theorem mem_exits {i : Nat} {first : Token} (at_i : tokens[i]? = some first)
    (leaves : first.kind.Leaves) : tokens.drop i ∈ exits tokens := by
  refine List.mem_filter.2 ⟨(List.mem_tails _ _).2 (List.drop_suffix i tokens), ?_⟩
  rw [List.head?_drop, at_i]
  simpa using leaves

theorem actsAt_drop (i : Nat) :
    ActsAt ((tokens.drop i).map Token.kind) 0 ↔ ActsAt (tokens.map Token.kind) i := by
  simp [ActsAt, List.map_drop]

theorem returnsValueAt_drop (i : Nat) : ReturnsValueAt ((tokens.drop i).map Token.kind) 0 ↔
    ReturnsValueAt (tokens.map Token.kind) i := by
  simp [ReturnsValueAt, ReturnsAt, List.map_drop]

theorem returnsNothingAt_drop (i : Nat) : ReturnsNothingAt ((tokens.drop i).map Token.kind) 0 ↔
    ReturnsNothingAt (tokens.map Token.kind) i := by
  simp [ReturnsNothingAt, ReturnsAt, List.map_drop]

end Checks

/-! ### The checks of indicators and algorithms -/

/-- What an indicator script is refused for: its first action if it has one, and otherwise its first
`return` of a value. -/
inductive IndicatorOffence (script : Tree) (tokens : List Token) : Diagnostic → Prop
  | action {i : Nat} {t : Token} {a : Action} {statement : Tree}
      (first : IsLeast {j | ActsAt (tokens.map Token.kind) j} i) (here : tokens[i]? = some t)
      (kind : t.kind = .keyword a.keyword) (phrase : statement ∈ script.phrases .actionStatement)
      (start : statement.start = t.start) :
      IndicatorOffence script tokens
        ⟨t.start, "'" ++ a.word ++ "' is not allowed in an indicator script", a.word.length⟩
  | value {i : Nat} {t : Token} {statement : Tree}
      (no_action : ∀ j, ¬ ActsAt (tokens.map Token.kind) j)
      (first : IsLeast {j | ReturnsValueAt (tokens.map Token.kind) j} i)
      (here : tokens[i]? = some t)
      (phrase : statement ∈ script.phrases .returnStatement) (start : statement.start = t.start) :
      IndicatorOffence script tokens
        ⟨t.start, "an indicator script cannot return a value", "return".length⟩

/-- What an algorithm script is refused for: its first `return` of nothing. -/
inductive AlgorithmOffence (script : Tree) (tokens : List Token) : Diagnostic → Prop
  | nothing {i : Nat} {t : Token} {statement : Tree}
      (first : IsLeast {j | ReturnsNothingAt (tokens.map Token.kind) j} i)
      (here : tokens[i]? = some t) (phrase : statement ∈ script.phrases .returnStatement)
      (start : statement.start = t.start) :
      AlgorithmOffence script tokens
        ⟨t.start, "'return' in an algorithm script needs an action code", "return".length⟩

section Faults

variable {script : Tree} {failure : Failure}

theorem exits_of_parse (h : Tree.parse grammar .program tokens = .ok script) :
    List.Forall₂ (IsExit NearestElse) script.exits (exits tokens) ∧
      followers ((script.rewritten tokens).map Prod.fst) = (exits tokens).map returned := by
  have reading := nearestElse_of_firstFit (Tree.reads_of_parse_eq_ok h)
  have stands : inScript (.nonTerminal .program) = true := rfl
  obtain ⟨found, split, exit, follow⟩ := matched_of_reads reading trivial stands
  have all : exits tokens = found := by simpa [exits] using split
  have lexemes : Tree.rewrittenAll false false [script] tokens = script.rewritten tokens :=
    Tree.rewrittenAll_singleton script tokens
  refine ⟨by simpa [all] using exit, ?_⟩
  have whole := follow []
  rw [List.append_nil, followers, List.append_nil] at whole
  rw [all, ← whole, ← lexemes]
  rfl

theorem forall_not_actsAt (h : List.Forall₂ (IsExit keep) script.exits (exits tokens))
    (none : script.phrases .actionStatement = []) (j : Nat) :
    ¬ ActsAt (tokens.map Token.kind) j := by
  rintro ⟨a, acts⟩
  obtain ⟨t, at_j, kind⟩ : ∃ t, tokens[j]? = some t ∧ t.kind = .keyword a.keyword := by
    simpa using acts
  have calm : ∀ u ∈ script.exits, ¬ u.isPhrase .actionStatement = true := by
    rw [← Tree.filter_exits (.inr rfl)] at none
    exact List.filter_eq_nil_iff.1 none
  have all := (forall_mem_iff_of_forall₂ (fun u s exit => not_congr exit.acts_iff) h).1 calm
  refine all _ (mem_exits at_j (.inr ⟨a, kind⟩)) ?_
  exact (actsAt_drop j).2 ⟨a, acts⟩

theorem offence_of_indicatorFault? (h : Tree.parse grammar .program tokens = .ok script)
    (fault : script.indicatorFault? = some failure) :
    ∃ d, failure = .malformed d ∧ IndicatorOffence script tokens d := by
  obtain ⟨exit, -⟩ := exits_of_parse h
  unfold Tree.indicatorFault? at fault
  split at fault
  · next statement others acting =>
    cases fault
    have found : script.exits.find? (·.isPhrase .actionStatement) = some statement := by
      rw [← List.head?_filter, Tree.filter_exits (.inr rfl), acting, List.head?_cons]
    obtain ⟨i, least, here⟩ := isLeast_of_find? (fun u s exit => exit.acts_iff)
      (fun first others acts => .inr (by simpa [ActsAt] using acts)) exit found
    obtain ⟨first, others, split, start, ⟨symbol, a, kind, action⟩ | ⟨symbol, -⟩⟩ := here.forms
    · simp only [actsAt_drop] at least
      refine ⟨_, rfl, ?_⟩
      rw [action, start]
      refine .action least ?_ kind (acting ▸ List.mem_cons_self) start
      rw [← List.head?_drop, split, List.head?_cons]
    · have phrase := List.find?_some found
      simp [Tree.isPhrase, symbol] at phrase
  · next none =>
    obtain ⟨statement, found, rfl⟩ := Option.map_eq_some_iff.1 fault
    have mem := List.mem_of_find?_eq_some found
    rw [← Tree.filter_exits (.inl rfl), List.find?_filter] at found
    obtain ⟨i, least, here⟩ := isLeast_of_find? (fun u s exit => exit.value_iff)
      (fun first others returns => .inl (by simpa [ReturnsAt] using returns.1)) exit
      (by simpa using found)
    obtain ⟨first, others, split, start, -⟩ := here.forms
    simp only [returnsValueAt_drop] at least
    refine ⟨_, rfl, ?_⟩
    rw [start]
    refine .value (forall_not_actsAt exit none) least ?_ mem start
    rw [← List.head?_drop, split, List.head?_cons]

theorem offence_of_algorithmFault? (h : Tree.parse grammar .program tokens = .ok script)
    (fault : script.algorithmFault? = some failure) :
    ∃ d, failure = .malformed d ∧ AlgorithmOffence script tokens d := by
  obtain ⟨exit, -⟩ := exits_of_parse h
  obtain ⟨statement, found, rfl⟩ := Option.map_eq_some_iff.1 fault
  have mem := List.mem_of_find?_eq_some found
  rw [← Tree.filter_exits (.inl rfl), List.find?_filter] at found
  obtain ⟨i, least, here⟩ := isLeast_of_find? (fun u s exit => exit.nothing_iff)
    (fun first others returns => .inl (by simpa [ReturnsAt] using returns.1)) exit
    (by simpa using found)
  obtain ⟨first, others, split, start, -⟩ := here.forms
  simp only [returnsNothingAt_drop] at least
  refine ⟨_, rfl, ?_⟩
  rw [start]
  refine .nothing least ?_ mem start
  rw [← List.head?_drop, split, List.head?_cons]

theorem indicatorFault?_eq_none : script.indicatorFault? = none ↔
    ∀ t ∈ script.exits, (t.isPhrase .returnStatement && !t.returnsValue) = true := by
  have both : script.indicatorFault? = none ↔
      script.exits.filter (·.isPhrase .actionStatement) = [] ∧
        (script.exits.filter (·.isPhrase .returnStatement)).find? Tree.returnsValue = none := by
    rw [Tree.filter_exits (.inr rfl), Tree.filter_exits (.inl rfl), Tree.indicatorFault?]
    split
    · next acting => simp [acting]
    · next none => simp [none]
  rw [both, List.filter_eq_nil_iff, List.find?_filter, List.find?_eq_none, ← forall₂_and]
  refine forall₂_congr fun t mem => ?_
  have exit : t.isExit = true := (List.mem_filter.1 mem).2
  simp only [Tree.isExit, Tree.isPhrase, Bool.or_eq_true, decide_eq_true_eq] at exit
  rcases exit with symbol | symbol
  · simp [Tree.isPhrase, symbol]
  · simp [Tree.isPhrase, symbol]

theorem algorithmFault?_eq_none : script.algorithmFault? = none ↔
    ∀ t ∈ script.exits, ¬ (t.isPhrase .returnStatement && !t.returnsValue) = true := by
  rw [Tree.algorithmFault?, Option.map_eq_none_iff, ← Tree.filter_exits (.inl rfl),
    List.find?_filter, List.find?_eq_none]
  simp

/-- The check of an indicator passes exactly if the code of its script returns nothing. -/
theorem indicatorFault?_eq_none_iff (h : Tree.parse grammar .program tokens = .ok script) :
    script.indicatorFault? = none ↔ ReturnsNothing ((script.rewritten tokens).map Prod.fst) := by
  obtain ⟨exit, follow⟩ := exits_of_parse h
  rw [returnsNothing_iff, follow, List.forall_mem_map, indicatorFault?_eq_none]
  refine forall_mem_iff_of_forall₂ (fun t s exit => ?_) exit
  obtain ⟨next, returns, bare⟩ := exit.returned_iff
  rw [returns, Option.some.injEq, bare]

/-- The check of an algorithm passes exactly if the code of its script returns values. -/
theorem algorithmFault?_eq_none_iff (h : Tree.parse grammar .program tokens = .ok script) :
    script.algorithmFault? = none ↔ ReturnsValues ((script.rewritten tokens).map Prod.fst) := by
  obtain ⟨exit, follow⟩ := exits_of_parse h
  rw [returnsValues_iff, follow, List.forall_mem_map, algorithmFault?_eq_none]
  refine forall_mem_iff_of_forall₂ (fun t s exit => ?_) exit
  obtain ⟨next, returns, bare⟩ := exit.returned_iff
  rw [returns, ← bare]
  simp
/-- The kinds of the tokens of the text generated for a script. -/
def generatedKinds (file : String) (script : Tree) : List Terminal :=
  (Token.ofText file (Plugin.scriptCode script)).map Token.kind

theorem generatedKinds_eq (h : Tree.parse grammar .program tokens = .ok script)
    (written : ∀ t ∈ tokens, Written t) (file : String) :
    generatedKinds file script = (script.rewritten tokens).map Prod.fst := by
  have spelled := (spell_tree h written).2
  have spaced := script.spaced_code.indent (solid_of_spell spelled) Plugin.scriptDepth
  have lexemes := lexemes_of_spell spelled spaced file
  rw [← lexemes, List.map_map]
  rfl

end Faults

end Script

end TradeScript
