import TradeScript.Proofs.Script.Layout

/-!
# Generated code is a normal form

The code of a script is a script again, and the code of that script is the same text
(`Script.exists_parse_code_eq`). The tokens that are left of a script can be derived like the script
itself (`Script.derives_of_parse`), since an action statement becomes a return statement and an item
may be left out; and as the code has neither actions nor declarations of instances, nothing more is
rewritten. The layout follows from the tokens.
-/

namespace TradeScript

namespace Script

open Grammar

/-! ## Symbols of code -/

/-- Whether a symbol can stand in generated code. -/
def inCode : Symbol → Bool
  | .terminal k => k ≠ .indicatorName && (Action.ofTerminal? k).isNone
  | .nonTerminal n => n ∉ [.program, .item, .indicatorDeclaration, .actionStatement, .actionCall]

theorem inCode_of_rule : ∀ r ∈ grammar.rules, inCode (.nonTerminal r.1) = true → ∀ a ∈ r.2,
    (r.1 = .statement ∧ a = [phrase .actionStatement]) ∨ ∀ p ∈ a, inCode p.symbol = true := by
  decide +kernel

/-- Some kinds and texts can stand in code, and the kinds are derived from a goal. -/
structure Derives (goal : Goal) (lexemes : List (Terminal × String)) : Prop where
  yields : grammar.Yields goal (lexemes.map Prod.fst)
  inCode : ∀ l ∈ lexemes, inCode (.terminal l.1) = true

theorem Derives.imp {goal goal' : Goal} {lexemes : List (Terminal × String)}
    (h : Derives goal lexemes)
    (build : ∀ {ks}, grammar.Yields goal ks → grammar.Yields goal' ks) : Derives goal' lexemes :=
  ⟨build h.yields, h.inCode⟩

theorem Derives.append {first second whole : Goal} {lexemes lexemes' : List (Terminal × String)}
    (h : Derives first lexemes) (h' : Derives second lexemes')
    (build : ∀ {ks ls}, grammar.Yields first ks → grammar.Yields second ls →
      grammar.Yields whole (ks ++ ls)) : Derives whole (lexemes ++ lexemes') := by
  refine ⟨?_, List.forall_mem_append.2 ⟨h.inCode, h'.inCode⟩⟩
  rw [List.map_append]
  exact build h.yields h'.yields

theorem Derives.cons_comma {s : Symbol} {comma : Token} (kind : comma.kind = .mark .comma)
    {lexemes lexemes' : List (Terminal × String)} (h : Derives (.symbol s) lexemes)
    (h' : Derives (.further s) lexemes') :
    Derives (.further s) (comma.lexeme :: (lexemes ++ lexemes')) := by
  refine ⟨?_, List.forall_mem_cons.2 ⟨?_, List.forall_mem_append.2 ⟨h.inCode, h'.inCode⟩⟩⟩
  · rw [List.map_cons, List.map_append, show comma.lexeme.1 = .mark .comma from kind]
    exact .furtherCons h.yields h'.yields
  · rw [show comma.lexeme.1 = .mark .comma from kind]
    rfl

theorem derives_nil {goal : Goal} (empty : grammar.Yields goal []) : Derives goal [] :=
  ⟨empty, by simp⟩

/-! ## The return of an action -/

/-- Whether a phrase may consist of another one alone. -/
def leadsTo (n inner : NonTerminal) : Bool :=
  (grammar.alternatives n).any fun a =>
    a.head? = some (phrase inner) && a.tail.all (·.repeated ≠ .once)

theorem yields_nil_of_loose {ps : List Part} (loose : ∀ p ∈ ps, p.repeated ≠ .once) :
    grammar.Yields (.parts ps) [] := by
  induction ps with
  | nil => exact .nil
  | cons p ps ih =>
    rw [List.forall_mem_cons] at loose
    have omitted : grammar.Yields (.part p) [] := by
      obtain ⟨s, repeated⟩ := p
      cases repeated with
      | once => exact absurd rfl loose.1
      | optional => exact .omitted s
      | many => exact .repeated (.manyNil s)
      | separated => exact .noElement s
    exact .cons omitted (ih loose.2)

theorem yields_of_leadsTo {n inner : NonTerminal} {ks : List Terminal}
    (h : leadsTo n inner = true) (one : grammar.Yields (.symbol (.nonTerminal inner)) ks) :
    grammar.Yields (.symbol (.nonTerminal n)) ks := by
  obtain ⟨a, mem, alone⟩ := List.any_eq_true.1 h
  simp only [Bool.and_eq_true, decide_eq_true_eq, List.all_eq_true] at alone
  cases a with
  | nil => cases alone.1
  | cons p ps =>
    obtain ⟨first, loose⟩ := alone
    obtain rfl : p = phrase inner := Option.some.inj first
    have whole := Yields.phrase mem (.cons (.once one) (yields_nil_of_loose loose))
    rwa [List.append_nil] at whole

theorem yields_of_chain {ks : List Terminal} {n : NonTerminal} (ns : List NonTerminal)
    (chain : List.IsChain (leadsTo · · = true) (n :: ns))
    (last : grammar.Yields (.symbol (.nonTerminal ((n :: ns).getLast (List.cons_ne_nil _ _)))) ks) :
    grammar.Yields (.symbol (.nonTerminal n)) ks := by
  induction ns generalizing n with
  | nil => exact last
  | cons inner ns ih =>
    rw [List.isChain_cons_cons] at chain
    exact yields_of_leadsTo chain.1 (ih chain.2 last)

/-- A number is an expression. -/
theorem yields_number : grammar.Yields (.symbol (.nonTerminal .expression)) [.number] := by
  have primary : grammar.Yields (.symbol (.nonTerminal .primary)) ([.number] ++ []) :=
    .phrase (by decide +kernel : [token .number] ∈ grammar.alternatives .primary)
      (.cons (.once (.terminal _)) .nil)
  exact yields_of_chain [.conditional, .disjunction, .conjunction, .equality, .comparison, .sum,
    .product, .unary, .postfixed, .primary] (by decide +kernel) primary

/-- The return of the code of an action is a statement. -/
theorem derives_returned (a : Action) :
    Derives (.symbol (.nonTerminal .statement)) a.returned := by
  have returns := Yields.phrase
    (by decide +kernel : [keyword .return, maybe .expression, mark .semicolon] ∈
      grammar.alternatives .returnStatement)
    (.cons (.once (.terminal _)) (.cons (.present yields_number)
      (.cons (.once (.terminal _)) .nil)))
  have statement := Yields.phrase
    (by decide +kernel : [phrase .returnStatement] ∈ grammar.alternatives .statement)
    (.cons (.once returns) .nil)
  refine ⟨statement, ?_⟩
  simp only [Action.returned, List.forall_mem_cons]
  exact ⟨by decide, by decide, by decide, by simp⟩

/-! ## What is left of a script -/

variable {keep : PhraseCondition} {goal : Goal} {tokens rest : List Token} {trees : List Tree}

/-- What is left of what is read in a statement is derived from the same goal. -/
theorem derives_of_reads (h : grammar.Reads keep goal tokens trees rest) (tidy : goal.Tidy)
    (within : goal.Within (inCode · = true)) :
    Derives goal (Tree.rewrittenAll goal.commas goal.led trees tokens) := by
  induction h with
  | token t rest =>
    have stands : inCode (.terminal t.kind) = true := within
    show Derives _ (Tree.rewrittenAll false false [.leaf t] (t :: rest))
    rw [Tree.rewrittenAll_singleton]
    exact ⟨.terminal t.kind, List.forall_mem_singleton.2 stands⟩
  | @phrase n choice a tokens rest children chosen body kept ih =>
    have mem := List.mem_of_getElem? chosen
    have rule := rule_of_mem_alternatives mem
    obtain ⟨listed, tidy_a, -⟩ := layout_checks _ rule a mem
    have out (m : NonTerminal) (outside : inCode (.nonTerminal m) = false) : n ≠ m := by
      rintro rfl
      exact absurd within (by simpa [Goal.Within] using outside)
    show Derives _ (Tree.rewrittenAll false false _ tokens)
    rw [Tree.rewrittenAll_singleton, Tree.rewritten_node (out _ rfl) (out _ rfl), ← listed]
    rcases inCode_of_rule _ rule within a mem with ⟨is_statement, rfl⟩ | inside
    · -- an action statement becomes a return statement
      obtain rfl : n = .statement := is_statement
      obtain ⟨t, _, _, rfl, action, at_end⟩ := reads_phrase_cons body
      cases at_end
      obtain ⟨act, _, _, -, -, -, -, -, -, -, rewritten⟩ := actionStatement_cases action
      show Derives _ (Tree.rewrittenAll false false [t] tokens)
      rw [Tree.rewrittenAll_singleton, rewritten]
      exact derives_returned act
    · exact (ih tidy_a inside).imp (.phrase mem)
  | nil => exact derives_nil .nil
  | @cons p ps tokens middle rest front back first others ih₁ ih₂ =>
    obtain ⟨within_p, within_ps⟩ := List.forall_mem_cons.1 within
    have derived := ih₁ trivial within_p
    have derived' := ih₂ tidy.tail within_ps
    have middle_eq := drop_spanAll first trivial
    rcases tidy.cases with ⟨rfl, same⟩ | ⟨loose, loose', loose''⟩
    · cases others
      rw [← same, List.append_nil, ← List.append_nil (Tree.rewrittenAll _ _ _ _)]
      exact derived.append (derives_nil .nil) .cons
    · rw [loose] at derived middle_eq
      rw [loose'] at derived'
      rw [loose'']
      show Derives _ (Tree.rewrittenAll false false (front ++ back) tokens)
      rw [Tree.rewrittenAll_append, show tokens.drop (Tree.spanAll false false front) = middle from
        middle_eq]
      exact derived.append derived' .cons
  | once one ih => exact (ih trivial within).imp .once
  | omitted s => exact derives_nil (.omitted s)
  | present one ih => exact (ih trivial within).imp .present
  | repeated some ih => exact (ih trivial within).imp .repeated
  | noElement s => exact derives_nil (.noElement s)
  | @separated s tokens middle rest front back first others ih₁ ih₂ =>
    obtain ⟨t, rfl⟩ := first.single
    have middle_eq : tokens.drop (0 + t.span + 0) = middle := drop_spanAll first trivial
    have whole := (ih₁ trivial within).append (ih₂ trivial within) .separated
    simpa [Tree.rewrittenAll, Goal.commas, Goal.led, ← middle_eq] using whole
  | manyNil s => exact derives_nil (.manyNil s)
  | @manyCons s tokens middle rest front back first others ih₁ ih₂ =>
    show Derives _ (Tree.rewrittenAll false false (front ++ back) tokens)
    rw [Tree.rewrittenAll_append, show tokens.drop (Tree.spanAll false false front) = middle from
      drop_spanAll first trivial]
    exact (ih₁ trivial within).append (ih₂ trivial within) .manyCons
  | furtherNil s => exact derives_nil (.furtherNil s)
  | @furtherCons s comma tokens middle rest front back kind first others ih₁ ih₂ =>
    obtain ⟨t, rfl⟩ := first.single
    have middle_eq : tokens.drop (0 + t.span + 0) = middle := drop_spanAll first trivial
    have whole := (ih₁ trivial within).cons_comma kind (ih₂ trivial within)
    simpa [Tree.rewrittenAll, Goal.commas, Goal.led, Nat.add_comm 1, ← middle_eq] using whole

/-- Nothing is left of an item, or an item again. -/
theorem derives_of_item {t : Tree}
    (h : grammar.Reads keep (.symbol (.nonTerminal .item)) tokens [t] rest) :
    t.rewritten tokens = [] ∨ Derives (.symbol (.nonTerminal .item)) (t.rewritten tokens) := by
  cases h with
  | @phrase _ choice a _ _ children chosen body kept =>
    have mem := List.mem_of_getElem? chosen
    rw [Tree.rewritten_node (by decide) (by decide)]
    show Tree.rewrittenAll false false children tokens = [] ∨
      Derives _ (Tree.rewrittenAll false false children tokens)
    have item := mem
    rw [alternatives_items.2.1] at mem
    simp only [List.mem_cons, List.not_mem_nil, or_false] at mem
    rcases mem with rfl | rfl
    all_goals
      obtain ⟨inner, _, _, rfl, one, at_end⟩ := reads_phrase_cons body
      cases at_end
      rw [Tree.rewrittenAll_singleton]
    · cases one
      exact .inl rfl
    · have stands : inCode (.nonTerminal .statement) = true := rfl
      have statement := derives_of_reads one trivial stands
      change Derives _ (Tree.rewrittenAll false false [inner] tokens) at statement
      rw [Tree.rewrittenAll_singleton] at statement
      refine .inr (statement.imp fun yields => ?_)
      have whole := Yields.phrase item (.cons (.once yields) .nil)
      rwa [List.append_nil] at whole

theorem derives_of_items
    (h : grammar.Reads keep (.many (.nonTerminal .item)) tokens trees rest) :
    Derives (.many (.nonTerminal .item)) (Tree.rewrittenAll false false trees tokens) := by
  generalize goal_eq : Goal.many (.nonTerminal .item) = goal at h
  induction h with
  | manyNil => exact derives_nil (.manyNil _)
  | @manyCons s tokens middle rest front back first others _ ih =>
    cases goal_eq
    obtain ⟨t, rfl⟩ := first.single
    have behind := ih rfl
    rw [Tree.rewrittenAll_append, Tree.rewrittenAll_singleton,
      show tokens.drop (Tree.spanAll false false [t]) = middle from drop_spanAll first trivial]
    rcases derives_of_item first with none | some
    · rwa [none, List.nil_append]
    · exact some.append behind .manyCons
  | _ => cases goal_eq

/-- What is left of a script is a script again. -/
theorem derives_of_parse {t : Tree} (h : Tree.parse grammar .program tokens = .ok t) :
    Derives (.symbol (.nonTerminal .program)) (t.rewritten tokens) := by
  cases Tree.reads_of_parse_eq_ok h with
  | @phrase _ choice a _ _ children chosen body kept =>
    have mem := List.mem_of_getElem? chosen
    have program := mem
    rw [alternatives_items.1, List.mem_singleton] at mem
    subst mem
    obtain ⟨front, middle, back, rfl, items, at_end⟩ := body.split
    cases at_end
    cases items with
    | repeated items =>
      rw [Tree.rewritten_node (by decide) (by decide), List.append_nil]
      refine (derives_of_items items).imp fun yields => ?_
      have whole := Yields.phrase program (.cons (.repeated yields) .nil)
      rwa [List.append_nil] at whole

/-! ## Nothing is rewritten twice -/

section

variable {t : Tree} (h : Tree.parse grammar .program tokens = .ok t)
  (plain : ∀ u ∈ tokens, inCode (.terminal u.kind) = true)

include h plain

theorem phrases_declaration_eq_nil : t.phrases .indicatorDeclaration = [] := by
  have no_names : namesOf tokens = [] := by
    rw [List.filter_eq_nil_iff]
    intro u mem names
    have stands := plain u mem
    rw [of_decide_eq_true names] at stands
    cases stands
  have declared := forall₂_declares h
  rw [no_names] at declared
  exact List.forall₂_nil_right_iff.1 declared

theorem not_isPhrase_action : ∀ u ∈ t.exits, ¬ u.isPhrase .actionStatement = true := by
  refine (forall_mem_iff_of_forall₂ (fun u s exit => not_congr exit.acts_iff)
    (exits_of_parse h).1).2 ?_
  rintro s mem ⟨a, acts⟩
  rw [exits, List.mem_filter, List.mem_tails] at mem
  obtain ⟨first, at_front, kind⟩ : ∃ first, s[0]? = some first ∧ first.kind = .keyword a.keyword := by
    simpa using acts
  have stands := plain first (mem.1.subset (List.mem_of_getElem? at_front))
  rw [kind] at stands
  cases a <;> cases stands

/-- Where neither names of indicators nor actions stand, nothing is rewritten. -/
theorem rewritten_of_inCode : t.rewritten tokens = tokens.map Token.lexeme := by
  have covered : Tree.spanAll false false [t] + 0 = tokens.length :=
    spanAll_add_length (Tree.reads_of_parse_eq_ok h) trivial
  have span : t.span = tokens.length := by simpa [Tree.spanAll] using covered
  rw [Tree.rewritten_eq_take, span, List.take_length]
  intro u below
  constructor
  · refine Bool.eq_false_iff.2 fun acts => not_isPhrase_action h plain u ?_ acts
    exact List.mem_filter.2 ⟨below, by simp [Tree.isExit, acts]⟩
  · refine Bool.eq_false_iff.2 fun declares => ?_
    have mem : u ∈ t.phrases .indicatorDeclaration := List.mem_filter.2 ⟨below, declares⟩
    rw [phrases_declaration_eq_nil h plain] at mem
    cases mem

end

/-- The code of a script, lexed without names of indicators, is a script again, and the code of that
script is the same text. -/
theorem exists_parse_code_eq {file text : String} {names : List String} {t : Tree}
    (lexed : tokens = (Token.ofText file text).map (Token.markIndicator names))
    (parsed : Tree.parse grammar .program tokens = .ok t) (file' : String) :
    ∃ t', Tree.parse grammar .program (Token.ofText file' t.code) = .ok t' ∧ t'.code = t.code := by
  have written : ∀ u ∈ tokens, Written u := by
    rw [lexed]
    exact fun u mem => written_of_mem mem
  obtain ⟨-, spelled⟩ := spell_tree parsed written
  have lexemes : (Token.ofText file' t.code).map Token.lexeme = t.rewritten tokens := by
    have again := lexemes_of_spell spelled t.spaced_code file'
    rwa [String.ofList_toList] at again
  have kinds : (Token.ofText file' t.code).map Token.kind = (t.rewritten tokens).map Prod.fst := by
    rw [← lexemes, List.map_map]
    rfl
  have derived := derives_of_parse parsed
  obtain ⟨t', parsed'⟩ : ∃ t', Tree.parse grammar .program (Token.ofText file' t.code) = .ok t' := by
    rw [Tree.exists_parse_eq_ok_iff decisive, kinds]
    exact derived.yields
  refine ⟨t', parsed', ?_⟩
  have plain : ∀ u ∈ Token.ofText file' t.code, inCode (.terminal u.kind) = true := by
    intro u mem
    refine derived.inCode u.lexeme ?_
    rw [← lexemes]
    exact List.mem_map_of_mem mem
  have rewritten := rewritten_of_inCode parsed' plain
  rw [lexemes] at rewritten
  have spelled' := (spell_tree parsed' fun u mem =>
    Or.inr (Token.spelling_of_mem_ofText mem)).2
  rw [rewritten] at spelled'
  have pieces : t'.pieces false = t.pieces false := by
    refine Piece.eq_of_map_eq ?_ ?_
    · rw [settings_of_parse parsed', settings_of_parse parsed, rewritten]
    · rw [Tree.text_pieces, Tree.text_pieces, ← spelled.1, ← spelled'.1]
  rw [Tree.code, Tree.code, pieces]

/-- The code of the script that buys is a script with the same code. -/
theorem exists_parse_code_buy :
    ∃ t', Tree.parse grammar .program (Token.ofText "a.cpp" buyTree.code) = .ok t' ∧
      t'.code = buyTree.code := by
  have marked : buyTokens 1 = (Token.ofText "a.dts" "buy();").map (Token.markIndicator []) := by
    rw [ofText_buy]
    decide
  exact exists_parse_code_eq marked parse_buy "a.cpp"

end Script

end TradeScript
