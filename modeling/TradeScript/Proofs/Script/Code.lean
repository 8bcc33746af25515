import TradeScript.Proofs.Code.Layout
import TradeScript.Proofs.Script.Assembly

/-!
# The code of a script

Lexing the code generated for a script gives the tokens of the script again, but for indicator
declarations, which are left out, and action statements, which return the code of their action
(`Script.lexemes_of_code`). `Tree.rewritten` says so token by token: it goes along the tokens that a
tree covers, whose number is `Tree.span`.
-/

namespace TradeScript

open Text

/-- The phrases whose parts stand with commas between them. -/
def NonTerminal.listed (n : NonTerminal) : Bool :=
  n = .arguments || n = .initializerList

/-- The tokens that return the code of an action. -/
def Action.returned (a : Action) : List (Terminal × String) :=
  [(.keyword .return, "return"), (.number, toString a.code), (.mark .semicolon, ";")]

namespace Tree

/-! ## Tokens and trees

Trees do not keep the commas between the parts of lists. In what follows `commas` says whether a
comma stands between neighbours, and `led` whether one stands before the first tree.
-/

mutual

/-- The number of tokens that a tree covers. -/
def span : Tree → Nat
  | leaf _ => 1
  | node n _ _ children => spanAll n.listed false children

/-- The number of tokens that some trees cover. -/
def spanAll (commas led : Bool) : List Tree → Nat
  | [] => 0
  | t :: others => led.toNat + t.span + spanAll commas commas others

end

mutual

/-- The kinds and texts of the tokens that a tree covers, without those of indicator declarations,
and with those that return the code of its action in place of an action statement. -/
def rewritten : Tree → List Token → List (Terminal × String)
  | leaf _, tokens => (tokens.take 1).map Token.lexeme
  | node .indicatorDeclaration _ _ _, _ => []
  | node .actionStatement _ _ _, tokens =>
    ((tokens.head?.bind fun t => Action.ofTerminal? t.kind).map Action.returned).getD []
  | node n _ _ children, tokens => rewrittenAll n.listed false children tokens

/-- The kinds and texts, rewritten in the same way, of the tokens that some trees cover. -/
def rewrittenAll (commas led : Bool) : List Tree → List Token → List (Terminal × String)
  | [], _ => []
  | t :: others, tokens =>
    (tokens.take led.toNat).map Token.lexeme ++ t.rewritten (tokens.drop led.toNat) ++
      rewrittenAll commas commas others (tokens.drop (led.toNat + t.span))

end

mutual

/-- The words of the code of a tree. -/
def codeWords : Tree → List (List Char)
  | leaf token => [token.value.toList]
  | node .indicatorDeclaration _ _ _ => []
  | node .actionStatement choice start children =>
    match (node .actionStatement choice start children).action? with
    | some a => a.returned.map fun l => l.2.toList
    | none => codeWordsAll false false children
  | node n _ _ children => codeWordsAll n.listed false children

/-- The words of the code of some trees. -/
def codeWordsAll (commas led : Bool) : List Tree → List (List Char)
  | [] => []
  | t :: others =>
    (if led then [[',']] else []) ++ t.codeWords ++ codeWordsAll commas commas others

end

/-! ## The words of pieces -/

theorem text_ofToken (inHeader : Bool) (t : Token) :
    (Piece.ofToken inHeader t).text = t.value.toList := by
  unfold Piece.ofToken Piece.semicolon
  split
  · rfl
  · rfl
  · split <;> rfl
  · rfl

theorem text_ofAction (inHeader : Bool) (a : Action) :
    (Piece.ofAction inHeader a).map Piece.text = a.returned.map fun l => l.2.toList := by
  cases inHeader <;> rfl

mutual

theorem text_pieces (inHeader : Bool) :
    ∀ t : Tree, (t.pieces inHeader).map Piece.text = t.codeWords
  | leaf token => by
    rw [pieces, codeWords, List.map_singleton, text_ofToken]
  | node n choice start children => by
    have all := text_piecesAll inHeader children
    have loop := text_piecesFor inHeader children
    have list := text_piecesList inHeader children
    cases n with
    | indicatorDeclaration => rw [pieces, codeWords, List.map_nil]
    | actionStatement =>
      rw [pieces, codeWords]
      cases (node .actionStatement choice start children).action? with
      | some a => exact text_ofAction inHeader a
      | none => exact all
    | forStatement => exact loop
    | arguments => exact list
    | initializerList => exact list
    | _ => exact all

theorem text_piecesAll (inHeader : Bool) :
    ∀ ts : List Tree, (piecesAll inHeader ts).map Piece.text = codeWordsAll false false ts
  | [] => rfl
  | t :: others => by
    rw [piecesAll, codeWordsAll, List.map_append, text_pieces inHeader t,
      text_piecesAll inHeader others]
    rfl

theorem text_piecesFor (inHeader : Bool) :
    ∀ ts : List Tree, (piecesFor inHeader ts).map Piece.text = codeWordsAll false false ts
  | [] => rfl
  | [body] => by
    rw [piecesFor, codeWordsAll, text_pieces inHeader body]
    simp [codeWordsAll]
  | t :: next :: others => by
    rw [piecesFor, codeWordsAll, List.map_append, text_pieces true t,
      text_piecesFor inHeader (next :: others)]
    rfl

theorem text_piecesList (inHeader : Bool) :
    ∀ ts : List Tree, (piecesList inHeader ts).map Piece.text = codeWordsAll true false ts
  | [] => rfl
  | [t] => by
    rw [piecesList, codeWordsAll, text_pieces inHeader t]
    simp [codeWordsAll]
  | t :: next :: others => by
    have rest := text_piecesList inHeader (next :: others)
    rw [codeWordsAll] at rest
    rw [piecesList, codeWordsAll, codeWordsAll, List.map_append, List.map_cons,
      text_pieces inHeader t, rest]
    simp [Piece.text]

end

theorem spaced_code (t : Tree) : Spaced t.codeWords t.code.toList := by
  have spaced := (Piece.spaced_render (t.pieces false) 0 true).1
  rw [text_pieces] at spaced
  rwa [code, String.toList_ofList]

end Tree

namespace Goal

/-! ## What is read from a goal -/

/-- Whether commas stand between the trees read from a goal. -/
def commas : Goal → Bool
  | .part p => p.repeated = .separated
  | .parts ps => ps.any (·.repeated = .separated)
  | .further _ => true
  | _ => false

/-- Whether a comma stands before the first of the trees read from a goal. -/
def led : Goal → Bool
  | .further _ => true
  | _ => false

/-- A goal in which lists with commas stand alone. -/
def Tidy : Goal → Prop
  | .parts ps => ps.any (·.repeated = .separated) = true → ps.length = 1
  | _ => True

/-- A goal whose own tokens are neither indicator names nor unknown pieces. -/
def Plain : Goal → Prop
  | .symbol s => s ≠ .terminal .indicatorName ∧ s ≠ .terminal .unknown
  | .part p => p.symbol ≠ .terminal .indicatorName ∧ p.symbol ≠ .terminal .unknown
  | .parts ps => ∀ p ∈ ps, p.symbol ≠ .terminal .indicatorName ∧ p.symbol ≠ .terminal .unknown
  | .many s => s ≠ .terminal .indicatorName ∧ s ≠ .terminal .unknown
  | .further s => s ≠ .terminal .indicatorName ∧ s ≠ .terminal .unknown

theorem Tidy.cases {p : Part} {ps : List Part} (h : Tidy (.parts (p :: ps))) :
    ps = [] ∧ commas (.part p) = commas (.parts (p :: ps)) ∨
      commas (.part p) = false ∧ commas (.parts ps) = false ∧
        commas (.parts (p :: ps)) = false := by
  cases listed : (p :: ps).any (·.repeated = .separated) with
  | true =>
    have alone : ps = [] := by simpa using h listed
    subst alone
    exact .inl ⟨rfl, by simp [commas]⟩
  | false =>
    have each := listed
    simp only [List.any_cons, Bool.or_eq_false_iff] at each
    exact .inr ⟨each.1, each.2, listed⟩

theorem Tidy.tail {p : Part} {ps : List Part} (h : Tidy (.parts (p :: ps))) :
    Tidy (.parts ps) := by
  rcases h.cases with ⟨rfl, -⟩ | ⟨-, none_listed, -⟩
  · intro listed
    cases listed
  · intro listed
    exact absurd listed (by simpa [commas] using none_listed)

end Goal

namespace Tree

/-! ## Trees one after the other -/

theorem spanAll_append (ts us : List Tree) :
    spanAll false false (ts ++ us) = spanAll false false ts + spanAll false false us := by
  induction ts with
  | nil => simp [spanAll]
  | cons t ts ih => simp [spanAll, ih, Nat.add_assoc]

theorem codeWordsAll_append (ts us : List Tree) : codeWordsAll false false (ts ++ us) =
    codeWordsAll false false ts ++ codeWordsAll false false us := by
  induction ts with
  | nil => simp [codeWordsAll]
  | cons t ts ih => simp [codeWordsAll, ih]

theorem codeWordsAll_singleton (t : Tree) : codeWordsAll false false [t] = t.codeWords := by
  simp [codeWordsAll]

theorem rewrittenAll_singleton (t : Tree) (tokens : List Token) :
    rewrittenAll false false [t] tokens = t.rewritten tokens := by
  simp [rewrittenAll]

theorem codeWords_node {n : NonTerminal} (declares : n ≠ .indicatorDeclaration)
    (acts : n ≠ .actionStatement) (choice : Nat) (start : Position) (children : List Tree) :
    (node n choice start children).codeWords = codeWordsAll n.listed false children := by
  cases n with
  | indicatorDeclaration => exact absurd rfl declares
  | actionStatement => exact absurd rfl acts
  | _ => rfl

theorem rewritten_node {n : NonTerminal} (declares : n ≠ .indicatorDeclaration)
    (acts : n ≠ .actionStatement) (choice : Nat) (start : Position) (children : List Tree)
    (tokens : List Token) : (node n choice start children).rewritten tokens =
      rewrittenAll n.listed false children tokens := by
  cases n with
  | indicatorDeclaration => exact absurd rfl declares
  | actionStatement => exact absurd rfl acts
  | _ => rfl

theorem rewrittenAll_append (ts us : List Tree) (tokens : List Token) :
    rewrittenAll false false (ts ++ us) tokens = rewrittenAll false false ts tokens ++
      rewrittenAll false false us (tokens.drop (spanAll false false ts)) := by
  induction ts generalizing tokens with
  | nil => simp [rewrittenAll, spanAll]
  | cons t ts ih => simp [rewrittenAll, spanAll, ih]

end Tree

namespace Script

open Grammar

theorem layout_checks : ∀ r ∈ grammar.rules, ∀ a ∈ r.2,
    a.any (·.repeated = .separated) = r.1.listed ∧
    (a.any (·.repeated = .separated) = true → a.length = 1) ∧
    (r.1 ≠ .indicatorDeclaration →
      ∀ p ∈ a, p.symbol ≠ .terminal .indicatorName ∧ p.symbol ≠ .terminal .unknown) := by
  decide +kernel

variable {keep : PhraseCondition} {goal : Goal} {tokens rest : List Token} {trees : List Tree}

/-- Trees cover the tokens that they are read from. -/
theorem spanAll_add_length (h : grammar.Reads keep goal tokens trees rest) (tidy : goal.Tidy) :
    Tree.spanAll goal.commas goal.led trees + rest.length = tokens.length := by
  induction h with
  | token t rest => simp [Tree.spanAll, Tree.span, Goal.led, Nat.add_comm]
  | @phrase n choice a tokens rest children chosen body kept ih =>
    have mem := List.mem_of_getElem? chosen
    obtain ⟨listed, tidy_a, -⟩ := layout_checks _ (rule_of_mem_alternatives mem) a mem
    have children_eq := ih tidy_a
    simpa [Tree.spanAll, Tree.span, Goal.commas, Goal.led, listed] using children_eq
  | nil => simp [Tree.spanAll]
  | @cons p ps tokens middle rest front back first others ih₁ ih₂ =>
    have front_eq := ih₁ trivial
    have back_eq := ih₂ tidy.tail
    rcases tidy.cases with ⟨rfl, same⟩ | ⟨loose, loose', loose''⟩
    · cases others
      rw [← same, List.append_nil]
      exact front_eq
    · rw [loose] at front_eq
      rw [loose'] at back_eq
      rw [loose'']
      simp only [Goal.led] at front_eq back_eq ⊢
      rw [Tree.spanAll_append]
      omega
  | once one ih => exact ih trivial
  | omitted s => simp [Tree.spanAll]
  | present one ih => exact ih trivial
  | repeated some ih => exact ih trivial
  | noElement s => simp [Tree.spanAll]
  | @separated s tokens middle rest front back first others ih₁ ih₂ =>
    obtain ⟨t, rfl⟩ := first.single
    have front_eq := ih₁ trivial
    have back_eq := ih₂ trivial
    simp [Tree.spanAll, Goal.commas, Goal.led] at front_eq back_eq ⊢
    omega
  | manyNil s => simp [Tree.spanAll]
  | @manyCons s tokens middle rest front back first others ih₁ ih₂ =>
    have front_eq := ih₁ trivial
    have back_eq := ih₂ trivial
    simp only [Goal.commas, Goal.led] at front_eq back_eq ⊢
    rw [Tree.spanAll_append]
    omega
  | furtherNil s => simp [Tree.spanAll]
  | @furtherCons s comma tokens middle rest front back kind first others ih₁ ih₂ =>
    obtain ⟨t, rfl⟩ := first.single
    have front_eq := ih₁ trivial
    have back_eq := ih₂ trivial
    simp [Tree.spanAll, Goal.commas, Goal.led] at front_eq back_eq ⊢
    omega

theorem drop_spanAll (h : grammar.Reads keep goal tokens trees rest) (tidy : goal.Tidy) :
    tokens.drop (Tree.spanAll goal.commas goal.led trees) = rest := by
  have covered := spanAll_add_length h tidy
  obtain ⟨taken, rfl, -⟩ := h.yields
  rw [List.length_append, Nat.add_right_cancel_iff] at covered
  rw [covered, List.drop_left]

/-! ## Rewritten tokens are the words of the code -/

/-- A token that is spelled in full unless it is an indicator name or unknown. -/
def Written (t : Token) : Prop :=
  t.kind = .indicatorName ∨ t.kind = .unknown ∨ Token.Spelling t.kind t.value.toList

/-- Some words are the texts of some kinds and texts, and spell those kinds. -/
def Spell (words : List (List Char)) (lexemes : List (Terminal × String)) : Prop :=
  lexemes.map (fun l => l.2.toList) = words ∧ ∀ l ∈ lexemes, Token.Spelling l.1 l.2.toList

theorem Spell.append {words words' : List (List Char)} {lexemes lexemes' : List (Terminal × String)}
    (h : Spell words lexemes) (h' : Spell words' lexemes') :
    Spell (words ++ words') (lexemes ++ lexemes') := by
  refine ⟨by rw [List.map_append, h.1, h'.1], fun l mem => ?_⟩
  exact (List.mem_append.1 mem).elim (h.2 l) (h'.2 l)

theorem spell_nil : Spell [] [] :=
  ⟨rfl, fun _ mem => by cases mem⟩

theorem spell_token {t : Token} (written : Written t) (known : t.kind ≠ .unknown)
    (plain : t.kind ≠ .indicatorName) : Spell [t.value.toList] [t.lexeme] := by
  have spelling := (written.resolve_left plain).resolve_left known
  refine ⟨rfl, fun l mem => ?_⟩
  rw [List.mem_singleton] at mem
  subst mem
  exact spelling

theorem spell_comma {t : Token} (written : Written t) (kind : t.kind = .mark .comma) :
    Spell [[',']] [t.lexeme] := by
  have spelled := spell_token written (by rw [kind]; decide) (by rw [kind]; decide)
  have spelling := spelled.2 _ (List.mem_singleton.2 rfl)
  have text : t.value.toList = [','] := by
    refine Token.text_of_spelling_mark (m := .comma) ?_
    rw [← kind]
    exact spelling
  rwa [text] at spelled

theorem spelling_of_wordKind {k : Terminal} {text : List Char}
    (kind : Token.wordKind text = k) (nonempty : text ≠ [])
    (all : text.all isWordChar = true) : Token.Spelling k text := by
  rw [← kind]
  exact .word nonempty all

theorem spell_returned (a : Action) : Spell (a.returned.map fun l => l.2.toList) a.returned := by
  refine ⟨rfl, ?_⟩
  simp only [Action.returned, List.forall_mem_cons, List.not_mem_nil, false_imp_iff,
    implies_true, and_true]
  refine ⟨spelling_of_wordKind (by decide) (by decide) (by decide), ?_, .mark .semicolon⟩
  cases a <;> exact spelling_of_wordKind (by decide) (by decide) (by decide)

/-! ### Action statements -/

theorem alternatives_action : grammar.alternatives .actionStatement =
      [[phrase .actionCall, mark .leftParen, mark .rightParen, mark .semicolon]] ∧
    grammar.alternatives .actionCall =
      [[keyword .buy], [keyword .sell], [keyword .doNothing]] := by
  decide +kernel

theorem exists_action_of_actionCall {t : Tree}
    (h : grammar.Reads keep (.symbol (.nonTerminal .actionCall)) tokens [t] rest) :
    ∃ a first, tokens.head? = some first ∧ first.kind = .keyword (Action.keyword a) ∧
      t.isPhrase .actionCall = true ∧ t.children = [.leaf first] := by
  cases h with
  | @phrase _ choice alternative _ _ children chosen body kept =>
    rw [alternatives_action.2] at chosen
    have single : ∃ a, alternative = [keyword (Action.keyword a)] := by
      match choice, chosen with
      | 0, chosen =>
        cases chosen
        exact ⟨.buy, rfl⟩
      | 1, chosen =>
        cases chosen
        exact ⟨.sell, rfl⟩
      | 2, chosen =>
        cases chosen
        exact ⟨.nothing, rfl⟩
    obtain ⟨a, rfl⟩ := single
    obtain ⟨front, middle, back, rfl, first, others⟩ := body.split
    cases others
    cases first with
    | once one =>
      obtain ⟨first, kind, rfl, rfl⟩ := one.leaf
      exact ⟨a, first, rfl, kind, rfl, rfl⟩

/-- An action statement begins with the keyword of its action. -/
theorem exists_action_of_actionStatement {choice : Nat} {start : Position} {children : List Tree}
    (h : grammar.Reads keep (.symbol (.nonTerminal .actionStatement)) tokens
      [.node .actionStatement choice start children] rest) :
    ∃ a first, tokens.head? = some first ∧ first.kind = .keyword (Action.keyword a) ∧
      (Tree.node .actionStatement choice start children).action? = some a := by
  cases h with
  | phrase chosen body kept =>
    have mem := List.mem_of_getElem? chosen
    rw [alternatives_action.1, List.mem_singleton] at mem
    subst mem
    obtain ⟨front, middle, back, rfl, first, -⟩ := body.split
    cases first with
    | once one =>
      obtain ⟨t, rfl⟩ := one.single
      obtain ⟨a, first, at_head, kind, is_call, leaves⟩ := exists_action_of_actionCall one
      refine ⟨a, first, at_head, kind, ?_⟩
      have found : Action.ofTerminal? first.kind = some a :=
        Action.ofTerminal?_eq_some_iff.2 kind
      have call : (Tree.node .actionStatement choice (Position.ofTokens tokens)
          ([t] ++ back)).child? .actionCall = some t := List.find?_cons_of_pos is_call
      simp only [Tree.action?, call, leaves, found, Option.bind_eq_bind, Option.bind_some,
        List.head?_cons, Tree.token?]

theorem yields_token {k : Terminal} {ps : List Part} {ks : List Terminal}
    (h : grammar.Yields (.parts (token k :: ps)) ks) :
    ∃ ls, ks = k :: ls ∧ grammar.Yields (.parts ps) ls := by
  cases h with
  | cons first others =>
    cases first with
    | once one =>
      cases one
      exact ⟨_, rfl, others⟩

theorem kinds_of_action {ks : List Terminal}
    (h : grammar.Yields (.symbol (.nonTerminal .actionStatement)) ks) :
    ∃ k, ks = [k, .mark .leftParen, .mark .rightParen, .mark .semicolon] := by
  obtain ⟨statement, mem, body⟩ := mem_language_phrase.1 h
  rw [alternatives_action.1, List.mem_singleton] at mem
  subst mem
  rw [language_cons, Language.mem_mul] at body
  obtain ⟨call, of_call, marks, of_marks, rfl⟩ := body
  obtain ⟨closing, rfl, of_closing⟩ := yields_token of_marks
  obtain ⟨semicolon, rfl, of_semicolon⟩ := yields_token of_closing
  obtain ⟨none, rfl, at_end⟩ := yields_token of_semicolon
  cases at_end
  rw [phrase, language_once] at of_call
  obtain ⟨alternative, mem, of_word⟩ := mem_language_phrase.1 of_call
  have one_word : ∃ k, alternative = [token k] := by
    rw [alternatives_action.2] at mem
    simp only [List.mem_cons, List.not_mem_nil, or_false] at mem
    rcases mem with rfl | rfl | rfl
    all_goals exact ⟨_, rfl⟩
  obtain ⟨k, rfl⟩ := one_word
  obtain ⟨none, rfl, at_end⟩ := yields_token of_word
  cases at_end
  exact ⟨k, rfl⟩

/-! ### The whole tree -/

theorem spell_actionStatement {choice : Nat} {start : Position} {children : List Tree}
    (h : grammar.Reads keep (.symbol (.nonTerminal .actionStatement)) tokens
      [.node .actionStatement choice start children] rest) :
    Spell (Tree.node .actionStatement choice start children).codeWords
      ((Tree.node .actionStatement choice start children).rewritten tokens) := by
  obtain ⟨a, first, at_head, kind, action⟩ := exists_action_of_actionStatement h
  have found : Action.ofTerminal? first.kind = some a := Action.ofTerminal?_eq_some_iff.2 kind
  simpa [Tree.codeWords, Tree.rewritten, action, at_head, found] using spell_returned a

theorem written_middle {middle : List Token} (h : grammar.Reads keep goal tokens trees middle)
    (written : ∀ t ∈ tokens, Written t) : ∀ t ∈ middle, Written t := by
  obtain ⟨taken, rfl, -⟩ := h.yields
  exact fun t mem => written t (List.mem_append_right _ mem)

theorem spell_append {front back : List Tree} {middle : List Token}
    (h : Spell (Tree.codeWordsAll false false front) (Tree.rewrittenAll false false front tokens))
    (h' : Spell (Tree.codeWordsAll false false back) (Tree.rewrittenAll false false back middle))
    (middle_eq : tokens.drop (Tree.spanAll false false front) = middle) :
    Spell (Tree.codeWordsAll false false (front ++ back))
      (Tree.rewrittenAll false false (front ++ back) tokens) := by
  rw [Tree.codeWordsAll_append, Tree.rewrittenAll_append, middle_eq]
  exact h.append h'

/-- The rewritten tokens of a reading spell the words of its code. -/
theorem spell_rewritten (h : grammar.Reads keep goal tokens trees rest) (tidy : goal.Tidy)
    (plain : goal.Plain) (written : ∀ t ∈ tokens, Written t) :
    Spell (Tree.codeWordsAll goal.commas goal.led trees)
      (Tree.rewrittenAll goal.commas goal.led trees tokens) := by
  induction h with
  | token t rest =>
    have spelled := spell_token (written t List.mem_cons_self) (fun kind => plain.2 (by rw [kind]))
      (fun kind => plain.1 (by rw [kind]))
    simpa [Tree.codeWordsAll, Tree.codeWords, Tree.rewrittenAll, Tree.rewritten, Goal.led]
      using spelled
  | @phrase n choice a tokens rest children chosen body kept ih =>
    have mem := List.mem_of_getElem? chosen
    obtain ⟨listed, tidy_a, plain_a⟩ := layout_checks _ (rule_of_mem_alternatives mem) a mem
    show Spell (Tree.codeWordsAll false false _) (Tree.rewrittenAll false false _ tokens)
    rw [Tree.codeWordsAll_singleton, Tree.rewrittenAll_singleton]
    by_cases declares : n = .indicatorDeclaration
    · subst declares
      exact spell_nil
    by_cases acts : n = .actionStatement
    · subst acts
      exact spell_actionStatement (.phrase chosen body kept)
    rw [Tree.codeWords_node declares acts, Tree.rewritten_node declares acts, ← listed]
    exact ih tidy_a (plain_a declares) written
  | nil => exact spell_nil
  | @cons p ps tokens middle rest front back first others ih₁ ih₂ =>
    have plain_p := plain p List.mem_cons_self
    have plain_ps := fun q mem => plain q (List.mem_cons_of_mem p mem)
    have spelled := ih₁ trivial plain_p written
    have spelled' := ih₂ tidy.tail plain_ps (written_middle first written)
    have middle_eq := drop_spanAll first trivial
    rcases tidy.cases with ⟨rfl, same⟩ | ⟨loose, loose', loose''⟩
    · cases others
      rw [← same, List.append_nil]
      exact spelled
    · rw [loose] at spelled middle_eq
      rw [loose'] at spelled'
      rw [loose'']
      exact spell_append spelled spelled' middle_eq
  | once one ih => exact ih trivial plain written
  | omitted s => exact spell_nil
  | present one ih => exact ih trivial plain written
  | repeated some ih => exact ih trivial plain written
  | noElement s => exact spell_nil
  | @separated s tokens middle rest front back first others ih₁ ih₂ =>
    obtain ⟨t, rfl⟩ := first.single
    have spelled := ih₁ trivial plain written
    have spelled' := ih₂ trivial plain (written_middle first written)
    have middle_eq : tokens.drop (Tree.spanAll false false [t]) = middle :=
      drop_spanAll first trivial
    have whole := spelled.append spelled'
    rw [← middle_eq] at whole
    simpa [Tree.codeWordsAll, Tree.rewrittenAll, Goal.commas, Goal.led, Tree.spanAll] using whole
  | manyNil s => exact spell_nil
  | @manyCons s tokens middle rest front back first others ih₁ ih₂ =>
    have spelled := ih₁ trivial plain written
    have spelled' := ih₂ trivial plain (written_middle first written)
    have middle_eq := drop_spanAll first trivial
    exact spell_append spelled spelled' middle_eq
  | furtherNil s => exact spell_nil
  | @furtherCons s comma tokens middle rest front back kind first others ih₁ ih₂ =>
    obtain ⟨t, rfl⟩ := first.single
    rw [List.forall_mem_cons] at written
    have spelled := ih₁ trivial plain written.2
    have spelled' := ih₂ trivial plain (written_middle first written.2)
    have middle_eq : tokens.drop (Tree.spanAll false false [t]) = middle :=
      drop_spanAll first trivial
    have whole := (spell_comma written.1 kind).append (spelled.append spelled')
    rw [← middle_eq] at whole
    simpa [Tree.codeWordsAll, Tree.rewrittenAll, Goal.commas, Goal.led, Tree.spanAll,
      Nat.add_comm 1] using whole

/-! ## From text to text -/

theorem written_of_mem {file text : String} {names : List String} {t : Token}
    (h : t ∈ (Token.ofText file text).map (Token.markIndicator names)) : Written t := by
  obtain ⟨u, mem, rfl⟩ := List.mem_map.1 h
  unfold Token.markIndicator
  split
  · exact .inl rfl
  · exact .inr (Token.spelling_of_mem_ofText mem)

theorem spell_tree {n : NonTerminal} {tree : Tree}
    (h : Tree.parse grammar n tokens = .ok tree) (written : ∀ t ∈ tokens, Written t) :
    tree.span = tokens.length ∧ Spell tree.codeWords (tree.rewritten tokens) := by
  have reading := Tree.reads_of_parse_eq_ok h
  have covered : Tree.spanAll false false [tree] + 0 = tokens.length :=
    spanAll_add_length reading trivial
  have spelled : Spell (Tree.codeWordsAll false false [tree])
      (Tree.rewrittenAll false false [tree] tokens) :=
    spell_rewritten reading trivial (by simp [Goal.Plain]) written
  rw [Tree.codeWordsAll_singleton, Tree.rewrittenAll_singleton] at spelled
  exact ⟨by simpa [Tree.spanAll] using covered, spelled⟩

theorem lexemes_of_spell {words : List (List Char)} {lexemes : List (Terminal × String)}
    (h : Spell words lexemes) {text : List Char} (spaced : Spaced words text) (file : String) :
    (Token.ofText file (String.ofList text)).map Token.lexeme = lexemes := by
  rw [← h.1] at spaced
  rw [Token.ofText, Fragment.ofText, String.toList_ofList]
  exact Token.lexemes_of_spaced spaced (fun l mem => Token.lex_spelling (h.2 l mem)) _ _

theorem solid_of_spell {words : List (List Char)} {lexemes : List (Terminal × String)}
    (h : Spell words lexemes) : ∀ word ∈ words, Solid word := by
  rw [← h.1]
  intro word mem
  obtain ⟨l, mem_l, rfl⟩ := List.mem_map.1 mem
  exact solid_of_spelling (h.2 l mem_l)

/-- The code of a script, and its code after each line has been indented, is lexed to the tokens of
the script without its indicator declarations and with the codes of its actions. -/
theorem lexemes_of_code {file text : String} {names : List String} {n : NonTerminal} {tree : Tree}
    (lexed : tokens = (Token.ofText file text).map (Token.markIndicator names))
    (parsed : Tree.parse grammar n tokens = .ok tree) (file' : String) :
    tree.span = tokens.length ∧
      (Token.ofText file' tree.code).map Token.lexeme = tree.rewritten tokens ∧
      ∀ depth, (Token.ofText file' (String.ofList (indent depth tree.code.toList))).map
        Token.lexeme = tree.rewritten tokens := by
  have written : ∀ t ∈ tokens, Written t := by
    rw [lexed]
    exact fun t mem => written_of_mem mem
  obtain ⟨covered, spelled⟩ := spell_tree parsed written
  have spaced := tree.spaced_code
  refine ⟨covered, ?_, fun depth => ?_⟩
  · have lexemes := lexemes_of_spell spelled spaced file'
    rwa [String.ofList_toList] at lexemes
  · exact lexemes_of_spell spelled (spaced.indent (solid_of_spell spelled) depth) file'

/-! ### A script with an indicator, a call and an action -/

/-- The tree of a number that is the only argument of an indicator. -/
def numberArgument (t : Token) : Tree :=
  .node .initializerList 0 t.start [sumOf t.start (operandOf 1 t)]

theorem reads_numberArgument {t : Token} (kind : t.kind = .number) (rest : List Token) :
    grammar.Reads NearestElse (.symbol (.nonTerminal .initializerList)) (t :: rest)
      [numberArgument t] rest :=
  .phrase (by decide +kernel : (grammar.alternatives .initializerList)[0]? = some [listOf .sum])
    (.cons (.separated (reads_sumOf (reads_operandOf (by decide +kernel) kind rest))
      (.furtherNil _ rest)) (.nil rest)) trivial

/-- The tokens of `B<4> x;` on a line, for any argument and name. -/
def instanceTokens (line : Nat) (argument name : String) : List Token :=
  [⟨.indicatorName, "B", ⟨"a.dts", line, 1⟩⟩, ⟨.mark .less, "<", ⟨"a.dts", line, 2⟩⟩,
    ⟨.number, argument, ⟨"a.dts", line, 3⟩⟩, ⟨.mark .greater, ">", ⟨"a.dts", line, 4⟩⟩,
    ⟨.identifier, name, ⟨"a.dts", line, 6⟩⟩,
    ⟨.mark .semicolon, ";", ⟨"a.dts", line, 6 + name.length⟩⟩]

/-- The tree of such a declaration. -/
def instanceTree (line : Nat) (argument name : String) : Tree :=
  .node .indicatorDeclaration 0 ⟨"a.dts", line, 1⟩ ((instanceTokens line argument name).map fun t =>
    if t.kind = .number then numberArgument t else .leaf t)

theorem reads_instanceTree (line : Nat) (argument name : String) (rest : List Token) :
    grammar.Reads NearestElse (.symbol (.nonTerminal .item))
      (instanceTokens line argument name ++ rest)
      [.node .item 0 ⟨"a.dts", line, 1⟩ [instanceTree line argument name]] rest := by
  have declaration : grammar.Reads NearestElse (.symbol (.nonTerminal .indicatorDeclaration))
      (instanceTokens line argument name ++ rest) [instanceTree line argument name] rest :=
    .phrase (by decide +kernel : (grammar.alternatives .indicatorDeclaration)[0]? =
        some [token .indicatorName, mark .less, phrase .initializerList, mark .greater,
          token .identifier, mark .semicolon])
      (reads_leaf rfl (reads_leaf rfl (reads_phrase (reads_numberArgument rfl _)
        (reads_leaf rfl (reads_leaf rfl (reads_leaf rfl (.nil rest))))))) trivial
  exact .phrase (by decide +kernel : (grammar.alternatives .item)[0]? =
    some [phrase .indicatorDeclaration]) (reads_phrase declaration (.nil rest)) trivial

/-- The tokens of `f(1, 2);` on the second line. -/
def callTokens : List Token :=
  [⟨.identifier, "f", ⟨"a.dts", 2, 1⟩⟩, ⟨.mark .leftParen, "(", ⟨"a.dts", 2, 2⟩⟩,
    ⟨.number, "1", ⟨"a.dts", 2, 3⟩⟩, ⟨.mark .comma, ",", ⟨"a.dts", 2, 4⟩⟩,
    ⟨.number, "2", ⟨"a.dts", 2, 6⟩⟩, ⟨.mark .rightParen, ")", ⟨"a.dts", 2, 7⟩⟩,
    ⟨.mark .semicolon, ";", ⟨"a.dts", 2, 8⟩⟩]

/-- The tree of the arguments, which does not keep the comma. -/
def argumentsTree : Tree :=
  .node .arguments 0 ⟨"a.dts", 2, 3⟩
    [expressionOf ⟨"a.dts", 2, 3⟩ (operandOf 1 ⟨.number, "1", ⟨"a.dts", 2, 3⟩⟩),
      expressionOf ⟨"a.dts", 2, 6⟩ (operandOf 1 ⟨.number, "2", ⟨"a.dts", 2, 6⟩⟩)]

/-- The tree of the call. -/
def callTree : Tree :=
  .node .postfixed 0 ⟨"a.dts", 2, 1⟩
    [.node .primary 0 ⟨"a.dts", 2, 1⟩ [.leaf ⟨.identifier, "f", ⟨"a.dts", 2, 1⟩⟩],
      .node .postfixOperator 1 ⟨"a.dts", 2, 2⟩
        [.leaf ⟨.mark .leftParen, "(", ⟨"a.dts", 2, 2⟩⟩, argumentsTree,
          .leaf ⟨.mark .rightParen, ")", ⟨"a.dts", 2, 7⟩⟩]]

/-- The item that is the call. -/
def callItem : Tree :=
  .node .item 1 ⟨"a.dts", 2, 1⟩ [.node .statement 9 ⟨"a.dts", 2, 1⟩
    [.node .expressionStatement 0 ⟨"a.dts", 2, 1⟩
      [expressionOf ⟨"a.dts", 2, 1⟩ callTree, .leaf ⟨.mark .semicolon, ";", ⟨"a.dts", 2, 8⟩⟩]]]

theorem reads_argumentsTree (rest : List Token) :
    grammar.Reads NearestElse (.symbol (.nonTerminal .arguments))
      (callTokens.drop 2 ++ rest) [argumentsTree] (callTokens.drop 5 ++ rest) := by
  have number (t : Token) (kind : t.kind = .number) (rest : List Token) :=
    reads_expressionOf (reads_operandOf
      (by decide +kernel : (grammar.alternatives .primary)[1]? = some [token .number]) kind rest)
  exact .phrase (by decide +kernel : (grammar.alternatives .arguments)[0]? =
      some [listOf .expression])
    (.cons (.separated (number callTokens[2] rfl _) (.furtherCons rfl (number callTokens[4] rfl _)
      (.furtherNil _ _))) (.nil _)) trivial

theorem reads_callItem (rest : List Token) :
    grammar.Reads NearestElse (.symbol (.nonTerminal .item)) (callTokens ++ rest) [callItem]
      rest := by
  have name : grammar.Reads NearestElse (.symbol (.nonTerminal .primary)) (callTokens ++ rest)
      [.node .primary 0 ⟨"a.dts", 2, 1⟩ [.leaf callTokens[0]]] (callTokens.tail ++ rest) :=
    .phrase (by decide +kernel : (grammar.alternatives .primary)[0]? = some [token .identifier])
      (reads_leaf rfl (.nil _)) trivial
  have operator := Reads.phrase
    (by decide +kernel : (grammar.alternatives .postfixOperator)[1]? =
      some [mark .leftParen, phrase .arguments, mark .rightParen])
    (reads_leaf (t := callTokens[1]) rfl (reads_phrase (reads_argumentsTree rest)
      (reads_leaf rfl (.nil _)))) trivial
  have call : grammar.Reads NearestElse (.symbol (.nonTerminal .postfixed)) (callTokens ++ rest)
      [callTree] (callTokens.drop 6 ++ rest) :=
    .phrase (by decide +kernel : (grammar.alternatives .postfixed)[0]? =
        some [phrase .primary, many .postfixOperator])
      (reads_phrase name (.cons (.repeated (.manyCons operator (.manyNil _ _))) (.nil _))) trivial
  have statement := Reads.phrase
    (by decide +kernel : (grammar.alternatives .expressionStatement)[0]? =
      some [phrase .expression, mark .semicolon])
    (reads_phrase (reads_expressionOf call) (reads_leaf rfl (.nil rest))) trivial
  exact reads_statementItem (by decide +kernel) statement

/-- The tokens of `buy();` on a line. -/
def buyTokens (line : Nat) : List Token :=
  [⟨.keyword .buy, "buy", ⟨"a.dts", line, 1⟩⟩, ⟨.mark .leftParen, "(", ⟨"a.dts", line, 4⟩⟩,
    ⟨.mark .rightParen, ")", ⟨"a.dts", line, 5⟩⟩, ⟨.mark .semicolon, ";", ⟨"a.dts", line, 6⟩⟩]

/-- The item that is this action. -/
def buyItem (line : Nat) : Tree :=
  .node .item 1 ⟨"a.dts", line, 1⟩ [.node .statement 8 ⟨"a.dts", line, 1⟩
    [.node .actionStatement 0 ⟨"a.dts", line, 1⟩
      (.node .actionCall 0 ⟨"a.dts", line, 1⟩ [.leaf ⟨.keyword .buy, "buy", ⟨"a.dts", line, 1⟩⟩] ::
        (buyTokens line).tail.map .leaf)]]

theorem reads_buyItem (line : Nat) (rest : List Token) :
    grammar.Reads NearestElse (.symbol (.nonTerminal .item)) (buyTokens line ++ rest)
      [buyItem line] rest := by
  have call : grammar.Reads NearestElse (.symbol (.nonTerminal .actionCall))
      (buyTokens line ++ rest)
      [.node .actionCall 0 ⟨"a.dts", line, 1⟩ [.leaf ⟨.keyword .buy, "buy", ⟨"a.dts", line, 1⟩⟩]]
      ((buyTokens line).tail ++ rest) :=
    .phrase (a := [keyword .buy]) (by decide +kernel) (reads_leaf rfl (.nil _)) trivial
  have action := Reads.phrase
    (by decide +kernel : (grammar.alternatives .actionStatement)[0]? =
      some [phrase .actionCall, mark .leftParen, mark .rightParen, mark .semicolon])
    (reads_phrase call (reads_leaf rfl (reads_leaf rfl (reads_leaf rfl (.nil rest))))) trivial
  exact reads_statementItem (by decide +kernel) action

/-- The tree of the script `buy();`. -/
def buyTree : Tree :=
  .node .program 0 ⟨"a.dts", 1, 1⟩ [buyItem 1]

theorem ofText_buy : Token.ofText "a.dts" "buy();" = buyTokens 1 := by
  decide +kernel

theorem parse_buy : Tree.parse grammar .program (buyTokens 1) = .ok buyTree :=
  parse_of_items (.manyCons (reads_buyItem 1 []) (.manyNil _ []))

/-- The tokens of the script with all three. -/
def tradingTokens : List Token :=
  instanceTokens 1 "4" "x" ++ (callTokens ++ buyTokens 3)

/-- The tree of this script. -/
def tradingTree : Tree :=
  .node .program 0 ⟨"a.dts", 1, 1⟩
    [.node .item 0 ⟨"a.dts", 1, 1⟩ [instanceTree 1 "4" "x"], callItem, buyItem 3]

theorem parse_trading : Tree.parse grammar .program tradingTokens = .ok tradingTree :=
  parse_of_items (.manyCons (reads_instanceTree 1 "4" "x" _) (.manyCons (reads_callItem _)
    (.manyCons (reads_buyItem 3 []) (.manyNil _ []))))

/-- The declaration is left out, the comma is put back, and the action returns its code. -/
theorem lexemes_of_code_trading :
    tradingTokens = (Token.ofText "a.dts" "B<4> x;\nf(1, 2);\nbuy();").map
      (Token.markIndicator ["B"]) ∧
    Tree.parse grammar .program tradingTokens = .ok tradingTree ∧
    tradingTree.span = 17 ∧
    (Token.ofText "a.cpp" tradingTree.code).map Token.lexeme =
      [(.identifier, "f"), (.mark .leftParen, "("), (.number, "1"), (.mark .comma, ","),
        (.number, "2"), (.mark .rightParen, ")"), (.mark .semicolon, ";"),
        (.keyword .return, "return"), (.number, "2"), (.mark .semicolon, ";")] ∧
    (Token.ofText "a.cpp" (String.ofList (indent 1 tradingTree.code.toList))).map Token.lexeme =
      [(.identifier, "f"), (.mark .leftParen, "("), (.number, "1"), (.mark .comma, ","),
        (.number, "2"), (.mark .rightParen, ")"), (.mark .semicolon, ";"),
        (.keyword .return, "return"), (.number, "2"), (.mark .semicolon, ";")] := by
  have marked : tradingTokens = (Token.ofText "a.dts" "B<4> x;\nf(1, 2);\nbuy();").map
      (Token.markIndicator ["B"]) := by decide +kernel
  obtain ⟨covered, plain, indented⟩ := lexemes_of_code marked parse_trading "a.cpp"
  exact ⟨marked, parse_trading, covered, plain, indented 1⟩

end Script

end TradeScript
