import TradeScript.Proofs.Script.Return

/-!
# The layout of the code of a script

A piece of code is a word together with how it is set in its line (`Piece.setting`). The settings of a
script's code are told by the kinds of its tokens alone (`Script.settings_of_parse`): braces open and
close blocks, and a semicolon ends its line unless it is one of the two in the header of a `for` loop
(`settings`).
-/

namespace TradeScript

/-! ## Settings -/

/-- How a word is set in its line. -/
inductive Piece.Setting
  | within
  | opens
  | closes
  | ends
  deriving DecidableEq

/-- How the word of a piece is set. -/
def Piece.setting : Piece → Setting
  | word _ => .within
  | opening _ => .opens
  | closing _ => .closes
  | ending _ => .ends

/-- How the word of a token is set, in the header of a loop or elsewhere. -/
def Terminal.setting (inHeader : Bool) (k : Terminal) : Piece.Setting :=
  if k = mark .leftBrace then .opens
  else if k = mark .rightBrace then .closes
  else if k = mark .semicolon ∧ !inHeader then .ends
  else .within

/-- The number of semicolons that the header of a loop still has after a token. -/
def Terminal.pendingAfter (pending : Nat) (k : Terminal) : Nat :=
  if k = keyword .for then 2 else if k = mark .semicolon then pending - 1 else pending

/-- How the words of tokens are set if the header of a loop still has some semicolons before them. -/
def settings (pending : Nat) : List Terminal → List Piece.Setting
  | [] => []
  | k :: ks => k.setting (pending ≠ 0) :: settings (k.pendingAfter pending) ks

/-- Outside of headers, tokens of the given kinds are set like some pieces. -/
def SetAs (ks : List Terminal) (pieces : List Piece) : Prop :=
  ∀ more, settings 0 (ks ++ more) = pieces.map Piece.setting ++ settings 0 more

theorem setAs_nil : SetAs [] [] :=
  fun _ => rfl

theorem SetAs.append {ks ls : List Terminal} {ps qs : List Piece} (h : SetAs ks ps)
    (h' : SetAs ls qs) : SetAs (ks ++ ls) (ps ++ qs) := by
  intro more
  rw [List.append_assoc, h, h', List.map_append, List.append_assoc]

theorem setAs_single {k : Terminal} (other : k ≠ .keyword .for) {p : Piece}
    (same : p.setting = k.setting false) : SetAs [k] [p] := by
  have after : k.pendingAfter 0 = 0 := by
    rw [Terminal.pendingAfter, if_neg other]
    split <;> rfl
  intro more
  rw [List.singleton_append, settings, after, List.map_singleton, same]
  rfl

theorem setting_ofToken (inHeader : Bool) (t : Token) :
    (Piece.ofToken inHeader t).setting = t.kind.setting inHeader := by
  unfold Piece.ofToken
  split
  · next kind => simp [kind, Terminal.setting, Piece.setting]
  · next kind => simp [kind, Terminal.setting, Piece.setting]
  · next kind => cases inHeader <;> simp [kind, Terminal.setting, Piece.semicolon, Piece.setting]
  · next left right semicolon =>
    rw [Terminal.setting, if_neg left, if_neg right, if_neg fun ends => semicolon ends.1]
    rfl

theorem setAs_returned (a : Action) :
    SetAs (a.returned.map Prod.fst) (Piece.ofAction false a) := by
  intro more
  rfl

/-- Pieces are told by their words and the settings of these. -/
theorem Piece.eq_of_map_eq {ps qs : List Piece} (settings : ps.map setting = qs.map setting)
    (texts : ps.map text = qs.map text) : ps = qs := by
  induction ps generalizing qs with
  | nil => exact (List.map_eq_nil_iff.1 texts.symm).symm
  | cons p ps ih =>
    cases qs with
    | nil => cases texts
    | cons q qs =>
      obtain ⟨setting, settings⟩ := List.cons.inj settings
      obtain ⟨text, texts⟩ := List.cons.inj texts
      rw [ih settings texts]
      cases p <;> cases q <;> cases setting <;> cases text <;> rfl

/-! ### Headers -/

/-- In the header of a loop, everything up to its last semicolon is set within a line. -/
theorem settings_header {ks : List Terminal} (plain : ∀ k ∈ ks,
      k ∉ [.keyword .for, .mark .leftBrace, .mark .rightBrace]) {pending : Nat}
    (enough : ks.count (.mark .semicolon) ≤ pending) (more : List Terminal) :
    settings pending (ks ++ more) = List.replicate ks.length .within ++
      settings (pending - ks.count (.mark .semicolon)) more := by
  induction ks generalizing pending with
  | nil => rfl
  | cons k ks ih =>
    rw [List.forall_mem_cons] at plain
    obtain ⟨plain_k, plain_ks⟩ := plain
    simp only [List.mem_cons, List.not_mem_nil, or_false, not_or] at plain_k
    have set (n : Nat) (waits : k = .mark .semicolon → n ≠ 0) : k.setting (n ≠ 0) = .within := by
      simpa [Terminal.setting, plain_k] using waits
    rw [List.cons_append, settings, List.length_cons, List.replicate_succ, List.cons_append,
      Terminal.pendingAfter, if_neg plain_k.1]
    by_cases semicolon : k = .mark .semicolon
    · subst semicolon
      rw [List.count_cons_self] at enough ⊢
      obtain ⟨n, rfl⟩ := Nat.exists_eq_add_of_le' (Nat.le_of_add_left_le enough)
      rw [set _ fun _ => Nat.succ_ne_zero n, if_pos rfl, Nat.add_sub_cancel,
        ih plain_ks (Nat.le_of_add_le_add_right enough), Nat.add_sub_add_right]
    · rw [List.count_cons_of_ne semicolon] at enough ⊢
      rw [set _ fun same => absurd same semicolon, if_neg semicolon, ih plain_ks enough]

namespace Tree

/-! ## Pieces of some trees -/

/-- The pieces of some trees; `commas` says whether a comma stands between neighbours, and `led`
whether one stands before the first tree. -/
def piecesAmong (inHeader commas led : Bool) : List Tree → List Piece
  | [] => []
  | t :: others => (if led then [.word [',']] else []) ++ t.pieces inHeader ++
      piecesAmong inHeader commas commas others

theorem piecesAll_eq (inHeader : Bool) (ts : List Tree) :
    piecesAll inHeader ts = piecesAmong inHeader false false ts := by
  induction ts with
  | nil => rfl
  | cons t others ih => simp [piecesAll, piecesAmong, ih]

theorem piecesList_eq (inHeader : Bool) (ts : List Tree) :
    piecesList inHeader ts = piecesAmong inHeader true false ts := by
  induction ts with
  | nil => rfl
  | cons t others ih =>
    cases others with
    | nil => simp [piecesList, piecesAmong]
    | cons next others =>
      rw [piecesList, ih]
      simp [piecesAmong]

theorem piecesFor_eq (inHeader : Bool) (front : List Tree) (body : Tree) :
    piecesFor inHeader (front ++ [body]) =
      piecesAmong true false false front ++ body.pieces inHeader := by
  induction front with
  | nil => rfl
  | cons t front ih =>
    cases front with
    | nil => simp [piecesFor, piecesAmong]
    | cons next front =>
      rw [List.cons_append, List.cons_append, piecesFor, ← List.cons_append, ih]
      simp [piecesAmong]

theorem pieces_node (inHeader : Bool) {n : NonTerminal} (declares : n ≠ .indicatorDeclaration)
    (acts : n ≠ .actionStatement) (loops : n ≠ .forStatement) (choice : Nat) (start : Position)
    (children : List Tree) : (node n choice start children).pieces inHeader =
      piecesAmong inHeader n.listed false children := by
  cases n with
  | indicatorDeclaration => exact absurd rfl declares
  | actionStatement => exact absurd rfl acts
  | forStatement => exact absurd rfl loops
  | arguments => exact piecesList_eq inHeader children
  | initializerList => exact piecesList_eq inHeader children
  | _ => exact piecesAll_eq inHeader children

end Tree

namespace Script

open Grammar

/-! ## Headers of loops -/

/-- Whether a symbol can stand in the header of a loop. -/
def inHeader : Symbol → Bool
  | .terminal k => k ∉ [.keyword .for, .mark .leftBrace, .mark .rightBrace]
  | .nonTerminal n => n ∈ [.forInitializer, .declaration, .typeSpecifier, .declarator, .initializer,
      .furtherDeclarator, .expressionStatement, .emptyStatement] ||
    (operatorRules ++ operandRules).any (·.head = n)

theorem closed_inHeader : grammar.Closed (inHeader · = true) :=
  ⟨by decide, by decide +kernel⟩

mutual

/-- In the header of a loop, everything is set within a line. -/
theorem settings_pieces_header : ∀ t : Tree, (∀ u ∈ t.descendants, inHeader u.symbol = true) →
    (t.pieces true).map Piece.setting = List.replicate t.span .within
  | .leaf t, h => by
    have own : inHeader (.terminal t.kind) = true := by
      rw [Tree.descendants_eq, List.forall_mem_cons] at h
      exact h.1
    simp only [inHeader, List.mem_cons, List.not_mem_nil, or_false, not_or, decide_eq_true_eq] at own
    rw [Tree.pieces, List.map_singleton, setting_ofToken, Tree.span]
    simp [Terminal.setting, own]
  | .node n choice start children, h => by
    rw [Tree.descendants_eq, List.forall_mem_cons] at h
    have header (m : NonTerminal) (out : inHeader (.nonTerminal m) = false) : n ≠ m := by
      rintro rfl
      exact absurd h.1 (by simpa [Tree.symbol] using out)
    rw [Tree.pieces_node true (header _ rfl) (header _ rfl) (header _ rfl), Tree.span]
    exact settings_piecesAmong_header n.listed false children h.2

theorem settings_piecesAmong_header (commas led : Bool) : ∀ ts : List Tree,
    (∀ u ∈ ts.flatMap Tree.descendants, inHeader u.symbol = true) →
    (Tree.piecesAmong true commas led ts).map Piece.setting =
      List.replicate (Tree.spanAll commas led ts) .within
  | [], _ => rfl
  | t :: others, h => by
    rw [List.flatMap_cons, List.forall_mem_append] at h
    rw [Tree.piecesAmong, List.map_append, List.map_append, settings_pieces_header t h.1,
      settings_piecesAmong_header commas commas others h.2, Tree.spanAll, List.replicate_add,
      List.replicate_add]
    cases led <;> rfl

end

/-! ### The semicolons of a header -/

/-- Whether there is a semicolon in what is derived from a symbol of a header. -/
def hasSemicolon : Symbol → Bool
  | .terminal k => k = .mark .semicolon
  | .nonTerminal n => n ∈ [.forInitializer, .declaration, .expressionStatement, .emptyStatement]

/-- The number of semicolons in what is derived from a goal of a header. -/
def semicolons : Goal → Nat
  | .symbol s => (hasSemicolon s).toNat
  | .part p => (hasSemicolon p.symbol).toNat
  | .parts ps => ps.countP fun p => hasSemicolon p.symbol
  | .many _ => 0
  | .further _ => 0

/-- Only what stands once has a semicolon. -/
def Counted : Goal → Prop
  | .symbol _ => True
  | .part p => p.repeated = .once ∨ hasSemicolon p.symbol = false
  | .parts ps => ∀ p ∈ ps, p.repeated = .once ∨ hasSemicolon p.symbol = false
  | .many s => hasSemicolon s = false
  | .further s => hasSemicolon s = false

theorem semicolons_of_rule : ∀ r ∈ grammar.rules, inHeader (.nonTerminal r.1) = true → ∀ a ∈ r.2,
    (a.countP fun p => hasSemicolon p.symbol) = (hasSemicolon (.nonTerminal r.1)).toNat ∧
      ∀ p ∈ a, p.repeated = .once ∨ hasSemicolon p.symbol = false := by
  decide +kernel

theorem count_semicolon {goal : Goal} {ks : List Terminal} (h : grammar.Yields goal ks)
    (within : goal.Within (inHeader · = true)) (counted : Counted goal) :
    ks.count (.mark .semicolon) = semicolons goal := by
  induction h with
  | terminal k =>
    by_cases semicolon : k = .mark .semicolon <;> simp [semicolons, hasSemicolon, semicolon]
  | @phrase n a ks mem body ih =>
    have rule := rule_of_mem_alternatives mem
    obtain ⟨count, counted_a⟩ := semicolons_of_rule _ rule within a mem
    rw [ih (closed_inHeader.rules _ rule within a mem) counted_a]
    exact count
  | nil => rfl
  | @cons p ps ks ls first rest ih₁ ih₂ =>
    obtain ⟨within_p, within_ps⟩ := List.forall_mem_cons.1 within
    obtain ⟨counted_p, counted_ps⟩ := List.forall_mem_cons.1 counted
    rw [List.count_append, ih₁ within_p counted_p, ih₂ within_ps counted_ps]
    simp [semicolons, List.countP_cons, Bool.toNat, Nat.add_comm]
  | once one ih => exact ih within trivial
  | omitted s =>
    have none : hasSemicolon s = false := counted.resolve_left nofun
    simp [semicolons, none]
  | present one ih => exact ih within trivial
  | @repeated s ks some ih =>
    have none : hasSemicolon s = false := counted.resolve_left nofun
    rw [ih within none]
    simp [semicolons, none]
  | noElement s =>
    have none : hasSemicolon s = false := counted.resolve_left nofun
    simp [semicolons, none]
  | @separated s ks ls first rest ih₁ ih₂ =>
    have none : hasSemicolon s = false := counted.resolve_left nofun
    rw [List.count_append, ih₁ within trivial, ih₂ within none]
    rfl
  | manyNil s => rfl
  | @manyCons s ks ls first rest ih₁ ih₂ =>
    have none : hasSemicolon s = false := counted
    rw [List.count_append, ih₁ within trivial, ih₂ within none]
    simp [semicolons, none]
  | furtherNil s => rfl
  | @furtherCons s ks ls first rest ih₁ ih₂ =>
    have none : hasSemicolon s = false := counted
    rw [List.count_cons_of_ne (by decide), List.count_append, ih₁ within trivial, ih₂ within none]
    simp [semicolons, none]

/-! ## Trees in a row -/

variable {keep : PhraseCondition} {goal : Goal} {tokens rest : List Token} {trees : List Tree}
  {inside : Symbol → Prop}

/-- Trees are read one after the other from symbols of a set. `commas` says whether a comma stands
between neighbours; at the start there is one if the flag `led` is set. -/
inductive Row (keep : PhraseCondition) (inside : Symbol → Prop) (commas : Bool) :
    Bool → List Token → List Tree → List Token → Prop
  | nil (led : Bool) (tokens : List Token) : Row keep inside commas led tokens [] tokens
  | first {s : Symbol} {t : Tree} {tokens middle rest : List Token} {others : List Tree}
      (own : inside s) (one : grammar.Reads keep (.symbol s) tokens [t] middle)
      (more : Row keep inside commas commas middle others rest) :
      Row keep inside commas false tokens (t :: others) rest
  | next {s : Symbol} {t : Tree} {comma : Token} {tokens middle rest : List Token}
      {others : List Tree} (kind : comma.kind = .mark .comma)
      (own : inside s) (one : grammar.Reads keep (.symbol s) tokens [t] middle)
      (more : Row keep inside commas commas middle others rest) :
      Row keep inside commas true (comma :: tokens) (t :: others) rest

theorem Row.append {led : Bool} {middle : List Token} {front back : List Tree}
    (h : Row keep inside false led tokens front middle) (loose : led = false)
    (h' : Row keep inside false false middle back rest) :
    Row keep inside false false tokens (front ++ back) rest := by
  induction h with
  | nil led tokens => exact h'
  | first own one more ih => exact .first own one (ih rfl h')
  | next kind own one more ih => cases loose

/-- What is read from a goal stands in a row. -/
theorem row_of_reads (h : grammar.Reads keep goal tokens trees rest) (tidy : goal.Tidy)
    (within : goal.Within inside) : Row keep inside goal.commas goal.led tokens trees rest := by
  induction h with
  | token t rest => exact .first within (.token t rest) (.nil _ rest)
  | phrase chosen body kept ih => exact .first within (.phrase chosen body kept) (.nil _ _)
  | nil tokens => exact .nil _ tokens
  | @cons p ps tokens middle rest front back first others ih₁ ih₂ =>
    obtain ⟨within_p, within_ps⟩ := List.forall_mem_cons.1 within
    have row := ih₁ trivial within_p
    have row' := ih₂ tidy.tail within_ps
    rcases tidy.cases with ⟨rfl, same⟩ | ⟨loose, loose', loose''⟩
    · cases others
      rw [← same, List.append_nil]
      exact row
    · rw [loose] at row
      rw [loose'] at row'
      rw [loose'']
      exact row.append rfl row'
  | once one ih => exact ih trivial within
  | omitted s tokens => exact .nil _ tokens
  | present one ih => exact ih trivial within
  | repeated some ih => exact ih trivial within
  | noElement s tokens => exact .nil _ tokens
  | separated first others ih₁ ih₂ =>
    obtain ⟨t, rfl⟩ := first.single
    exact .first within first (ih₂ trivial within)
  | manyNil s tokens => exact .nil _ tokens
  | manyCons first others ih₁ ih₂ =>
    obtain ⟨t, rfl⟩ := first.single
    exact .first within first (ih₂ trivial within)
  | furtherNil s tokens => exact .nil _ tokens
  | furtherCons kind first others ih₁ ih₂ =>
    obtain ⟨t, rfl⟩ := first.single
    exact .next kind within first (ih₂ trivial within)

/-! ## The layout of a tree -/

/-- Whether a symbol stands in scripts by itself, and not only at the start of a loop. -/
def StandsFree (s : Symbol) : Prop :=
  s ≠ .terminal (.keyword .for)

instance : DecidablePred StandsFree :=
  fun s => inferInstanceAs (Decidable (s ≠ .terminal (.keyword .for)))

theorem standsFree_of_rule : ∀ r ∈ grammar.rules, r.1 ≠ .forStatement →
    ∀ a ∈ r.2, ∀ p ∈ a, StandsFree p.symbol := by
  decide +kernel

/-- The code of a tree is set, wherever the tree is read outside of headers, as the kinds of the tokens
tell that are left of it. -/
def SetByKinds (keep : PhraseCondition) (t : Tree) : Prop :=
  ∀ (s : Symbol) (tokens rest : List Token), StandsFree s →
    grammar.Reads keep (.symbol s) tokens [t] rest →
    SetAs ((t.rewritten tokens).map Prod.fst) (t.pieces false)

theorem setAs_row {commas led : Bool} (h : Row keep StandsFree commas led tokens trees rest)
    (each : ∀ t ∈ trees, SetByKinds keep t) :
    SetAs ((Tree.rewrittenAll commas led trees tokens).map Prod.fst)
      (Tree.piecesAmong false commas led trees) := by
  induction h with
  | nil led tokens => exact setAs_nil
  | @first s t tokens middle rest others own one more ih =>
    rw [List.forall_mem_cons] at each
    have middle_eq : tokens.drop (0 + t.span + 0) = middle := drop_spanAll one trivial
    have whole := (each.1 _ _ _ own one).append (ih each.2)
    simpa [Tree.rewrittenAll, Tree.piecesAmong, ← middle_eq] using whole
  | @next s t comma tokens middle rest others kind own one more ih =>
    rw [List.forall_mem_cons] at each
    have middle_eq : tokens.drop (0 + t.span + 0) = middle := drop_spanAll one trivial
    have separator : SetAs [comma.kind] [.word [',']] := by
      rw [kind]
      exact setAs_single (by decide) rfl
    have whole := separator.append ((each.1 _ _ _ own one).append (ih each.2))
    simpa [Tree.rewrittenAll, Tree.piecesAmong, Token.lexeme, Nat.add_comm 1, ← middle_eq]
      using whole

/-! ### Loops -/

/-- The header of a `for` loop. -/
def loopHeader : Alternative :=
  [mark .leftParen, phrase .forInitializer, maybe .expression, mark .semicolon, maybe .expression,
    mark .rightParen]

theorem alternatives_for : grammar.alternatives .forStatement =
    [keyword .for :: (loopHeader ++ [phrase .statement])] := by
  decide +kernel

/-- What is read as the header of a loop is set within a line, and has two semicolons. -/
theorem header_cases {middle : List Token}
    (h : grammar.Reads keep (.parts loopHeader) tokens trees middle) :
    ∃ taken, tokens = taken ++ middle ∧
      (∀ k ∈ taken.map Token.kind, k ∉ [.keyword .for, .mark .leftBrace, .mark .rightBrace]) ∧
      (taken.map Token.kind).count (.mark .semicolon) = 2 ∧
      Tree.spanAll false false trees = taken.length ∧
      Tree.rewrittenAll false false trees tokens = taken.map Token.lexeme ∧
      (Tree.piecesAmong true false false trees).map Piece.setting =
        List.replicate taken.length .within := by
  have within : ∀ p ∈ loopHeader, inHeader p.symbol = true := by decide
  have tidy : Goal.Tidy (.parts loopHeader) := by
    intro listed
    cases listed
  have counted : ∀ p ∈ loopHeader, p.repeated = .once ∨ hasSemicolon p.symbol = false := by
    decide
  have span := spanAll_add_length h tidy
  obtain ⟨taken, split, yields⟩ := h.yields
  obtain ⟨taken', rfl, symbols⟩ := h.within closed_inHeader within
  obtain rfl := List.append_cancel_right split
  rw [List.length_append, Nat.add_right_cancel_iff] at span
  have covered : Tree.spanAll false false trees = taken'.length := span
  refine ⟨taken', rfl, ?_, count_semicolon yields within counted, covered, ?_, ?_⟩
  · rw [List.forall_mem_map]
    intro t mem
    simpa [inHeader] using symbols.1 t mem
  · rw [Tree.rewrittenAll_eq_take, covered, List.take_left]
    intro u below
    have symbol := symbols.2 u below
    constructor
    all_goals
      refine decide_eq_false fun same => ?_
      rw [same] at symbol
      cases symbol
  · rw [← covered]
    exact settings_piecesAmong_header false false trees symbols.2

theorem setByKinds_for {choice : Nat} {start : Position} {children : List Tree}
    (each : ∀ t ∈ children, SetByKinds keep t) :
    SetByKinds keep (.node .forStatement choice start children) := by
  intro s tokens rest _ h more
  cases h with
  | @phrase _ _ a _ _ _ chosen body kept =>
    have mem := List.mem_of_getElem? chosen
    rw [alternatives_for, List.mem_singleton] at mem
    subst mem
    obtain ⟨loop, _, _, loop_kind, rfl, rfl, at_header⟩ := reads_token_cons body
    obtain ⟨front, middle, _, rfl, header, at_body⟩ := at_header.parts_append
    obtain ⟨statement, _, _, rfl, of_statement, at_end⟩ := reads_phrase_cons at_body
    cases at_end
    obtain ⟨taken, rfl, plain, count, covered, rewritten, set⟩ := header_cases header
    have body_set := each statement (by simp) _ _ _
      (by decide : StandsFree (.nonTerminal .statement)) of_statement more
    have lexemes (start : Position) : ((Tree.node .forStatement choice start
        (.leaf loop :: (front ++ [statement]))).rewritten (loop :: (taken ++ middle))).map Prod.fst =
          .keyword .for :: (taken.map Token.kind ++ (statement.rewritten middle).map Prod.fst) := by
      rw [Tree.rewritten_node (by decide) (by decide)]
      show (Tree.rewrittenAll false false _ _).map Prod.fst = _
      simp [Tree.rewrittenAll, Tree.rewrittenAll_append, Tree.rewritten, Tree.span, rewritten,
        covered, Token.lexeme, loop_kind, Function.comp_def]
    have pieces (start : Position) : ((Tree.node .forStatement choice start
        (.leaf loop :: (front ++ [statement]))).pieces false).map Piece.setting =
          .within :: (List.replicate taken.length .within ++
            (statement.pieces false).map Piece.setting) := by
      have parts := Tree.piecesFor_eq false (.leaf loop :: front) statement
      rw [List.cons_append] at parts
      rw [Tree.pieces, parts, Tree.piecesAmong, Tree.pieces]
      simp [setting_ofToken, loop_kind, Terminal.setting, set]
    rw [lexemes, pieces, List.cons_append, settings, List.append_assoc]
    show _ :: settings 2 _ = _
    rw [settings_header plain (Nat.le_of_eq count), count, List.length_map, body_set]
    simp [Terminal.setting]

/-- The kinds of the tokens that are left of a script tell how its code is set. -/
theorem setByKinds (t : Tree) : SetByKinds keep t := by
  intro s tokens rest free h
  cases t with
  | leaf u =>
    cases h
    have other : u.kind ≠ .keyword .for := fun kind => free (by rw [kind])
    have set := setAs_single other (setting_ofToken false u)
    simpa [Tree.rewritten, Tree.pieces, Token.lexeme] using set
  | node n choice start children =>
    have each : ∀ t ∈ children, SetByKinds keep t := fun t mem => setByKinds t
    by_cases loops : n = .forStatement
    · subst loops
      exact setByKinds_for each s tokens rest free h
    cases h with
    | @phrase _ _ a _ _ _ chosen body kept =>
      have mem := List.mem_of_getElem? chosen
      have rule := rule_of_mem_alternatives mem
      obtain ⟨listed, tidy, -⟩ := layout_checks _ rule a mem
      by_cases declares : n = .indicatorDeclaration
      · subst declares
        exact setAs_nil
      by_cases acts : n = .actionStatement
      · subst acts
        obtain ⟨action, first, at_head, kind, found⟩ :=
          exists_action_of_actionStatement (.phrase chosen body kept)
        have found' : Action.ofTerminal? first.kind = some action :=
          Action.ofTerminal?_eq_some_iff.2 kind
        have set := setAs_returned action
        simpa [Tree.rewritten, Tree.pieces, at_head, found, found'] using set
      rw [Tree.rewritten_node declares acts, Tree.pieces_node false declares acts loops, ← listed]
      exact setAs_row (row_of_reads body tidy (standsFree_of_rule _ rule loops a mem)) each
  termination_by sizeOf t

/-- The layout of the code of a script is told by the kinds of the tokens that are left of it. -/
theorem settings_of_parse {n : NonTerminal} {t : Tree} (h : Tree.parse grammar n tokens = .ok t) :
    (t.pieces false).map Piece.setting = settings 0 ((t.rewritten tokens).map Prod.fst) := by
  have free : StandsFree (.nonTerminal n) := nofun
  have set := setByKinds t _ _ _ free (Tree.reads_of_parse_eq_ok h) []
  simpa [settings] using set.symm

end Script

end TradeScript
