import TradeScript.Plugin
import TradeScript.Proofs.Script.Code
import TradeScript.Proofs.Tree.Cover

/-!
# Declarations of instances

What is read from the symbols of a set that the rules of a grammar do not leave consists of symbols of
that set (`Grammar.Reads.within`). In scripts, a name of an indicator therefore stands only at the
start of a declaration: the declarations of a script and the names of indicators among its tokens go
together one by one, and a declaration tells its instance token by token (`Script.forall₂_declares`).
The arguments of an instance stand on one line.
-/

namespace TradeScript

/-! ## Symbols that are not left -/

/-- The symbols of a goal belong to a set. -/
def Goal.Within (inside : Symbol → Prop) : Goal → Prop
  | .symbol s => inside s
  | .part p => inside p.symbol
  | .parts ps => ∀ p ∈ ps, inside p.symbol
  | .many s => inside s
  | .further s => inside s

namespace Grammar

variable {g : Grammar} {keep : PhraseCondition} {goal : Goal} {tokens rest : List Token}
  {trees : List Tree}

/-- The rules for the symbols of a set lead to symbols of the set only, commas among them. -/
structure Closed (g : Grammar) (inside : Symbol → Prop) : Prop where
  comma : inside (.terminal (.mark .comma))
  rules : ∀ r ∈ g.rules, inside (.nonTerminal r.1) → ∀ a ∈ r.2, ∀ p ∈ a, inside p.symbol

/-- Nodes and tokens that belong to a set of symbols. -/
def Inside (inside : Symbol → Prop) (taken : List Token) (trees : List Tree) : Prop :=
  (∀ t ∈ taken, inside (.terminal t.kind)) ∧
    ∀ u ∈ trees.flatMap Tree.descendants, inside u.symbol

theorem Inside.append {inside : Symbol → Prop} {taken taken' : List Token} {trees trees' : List Tree}
    (h : Inside inside taken trees) (h' : Inside inside taken' trees') :
    Inside inside (taken ++ taken') (trees ++ trees') := by
  refine ⟨List.forall_mem_append.2 ⟨h.1, h'.1⟩, ?_⟩
  rw [List.flatMap_append]
  exact List.forall_mem_append.2 ⟨h.2, h'.2⟩

theorem inside_nil (inside : Symbol → Prop) : Inside inside [] [] :=
  ⟨by simp, by simp⟩

/-- What is read from symbols of a closed set belongs to the set. -/
theorem Reads.within {inside : Symbol → Prop} (closed : g.Closed inside)
    (h : g.Reads keep goal tokens trees rest) (within : goal.Within inside) :
    ∃ taken, tokens = taken ++ rest ∧ Inside inside taken trees := by
  induction h with
  | token t rest =>
    have own : inside (.terminal t.kind) := within
    refine ⟨[t], rfl, by simpa using own, ?_⟩
    simpa [Tree.descendants_eq, Tree.children, Tree.symbol] using own
  | phrase chosen _ _ ih =>
    have mem := List.mem_of_getElem? chosen
    obtain ⟨taken, rfl, all, below⟩ := ih (closed.rules _ (rule_of_mem_alternatives mem) within _ mem)
    refine ⟨taken, rfl, all, ?_⟩
    rw [List.flatMap_singleton, Tree.descendants_eq]
    exact List.forall_mem_cons.2 ⟨within, below⟩
  | nil => exact ⟨[], rfl, inside_nil inside⟩
  | cons _ _ ih₁ ih₂ =>
    obtain ⟨within₁, within₂⟩ := List.forall_mem_cons.1 within
    obtain ⟨front, rfl, first⟩ := ih₁ within₁
    obtain ⟨back, rfl, others⟩ := ih₂ within₂
    exact ⟨front ++ back, by simp, first.append others⟩
  | once _ ih => exact ih within
  | omitted s => exact ⟨[], rfl, inside_nil inside⟩
  | present _ ih => exact ih within
  | repeated _ ih => exact ih within
  | noElement s => exact ⟨[], rfl, inside_nil inside⟩
  | separated _ _ ih₁ ih₂ =>
    obtain ⟨front, rfl, first⟩ := ih₁ within
    obtain ⟨back, rfl, others⟩ := ih₂ within
    exact ⟨front ++ back, by simp, first.append others⟩
  | manyNil s => exact ⟨[], rfl, inside_nil inside⟩
  | manyCons _ _ ih₁ ih₂ =>
    obtain ⟨front, rfl, first⟩ := ih₁ within
    obtain ⟨back, rfl, others⟩ := ih₂ within
    exact ⟨front ++ back, by simp, first.append others⟩
  | furtherNil s => exact ⟨[], rfl, inside_nil inside⟩
  | @furtherCons _ comma _ _ _ _ _ kind _ _ ih₁ ih₂ =>
    obtain ⟨front, rfl, first⟩ := ih₁ within
    obtain ⟨back, rfl, others⟩ := ih₂ within
    refine ⟨comma :: (front ++ back), by simp, ?_, (first.append others).2⟩
    exact List.forall_mem_cons.2 ⟨kind ▸ closed.comma, (first.append others).1⟩

end Grammar

namespace Script

open Grammar

/-! ## Symbols of statements and of arguments -/

/-- Whether a symbol can stand in a statement. -/
def inStatement : Symbol → Bool
  | .terminal k => k ≠ .indicatorName
  | .nonTerminal n => n ∉ [.program, .item, .indicatorDeclaration]

/-- Whether a symbol can stand in the arguments of an instance. -/
def inArguments : Symbol → Bool
  | .terminal k =>
    k ∉ [.indicatorName, .unknown, .mark .leftBrace, .mark .rightBrace, .mark .semicolon]
  | .nonTerminal n => n = .initializerList || (operatorRules ++ operandRules).any (·.head = n)

theorem closed_inStatement : grammar.Closed (inStatement · = true) :=
  ⟨by decide, by decide +kernel⟩

theorem closed_inArguments : grammar.Closed (inArguments · = true) :=
  ⟨by decide, by decide +kernel⟩

/-! ## Declarations and the names of indicators -/

theorem alternatives_items : grammar.alternatives .program = [[many .item]] ∧
    grammar.alternatives .item = [[phrase .indicatorDeclaration], [phrase .statement]] ∧
    grammar.alternatives .indicatorDeclaration =
      [[token .indicatorName, mark .less, phrase .initializerList, mark .greater,
        token .identifier, mark .semicolon]] := by
  decide +kernel

/-- Among some tokens, the name of an indicator begins the declaration of an instance. -/
inductive Declares : List Token → Token → Instance → Prop
  | intro (before : List Token) {name less greater identifier semicolon : Token}
      {inside after : List Token} {arguments : Tree}
      (kinds : [name, less, greater, identifier, semicolon].map Token.kind =
        [.indicatorName, .mark .less, .mark .greater, .identifier, .mark .semicolon])
      (read : grammar.Reads NearestElse (.symbol (.nonTerminal .initializerList))
        (inside ++ greater :: identifier :: semicolon :: after) [arguments]
        (greater :: identifier :: semicolon :: after)) :
      Declares (before ++ name :: less :: (inside ++ greater :: identifier :: semicolon :: after))
        name ⟨name.value, identifier.value, arguments.code, name.start.line⟩

theorem Declares.className_eq {tokens : List Token} {name : Token} {i : Instance}
    (h : Declares tokens name i) : i.className = name.value := by
  cases h
  rfl

/-- Some declarations and the names of indicators with which they start go together one by one. -/
abbrev Declared (tokens : List Token) (ds : List Tree) (names : List Token) : Prop :=
  List.Forall₂
    (fun d name => Declares tokens name (Instance.ofDeclaration d) ∧ d.start = name.start) ds names

/-- The names of indicators among some tokens. -/
abbrev namesOf (tokens : List Token) : List Token :=
  tokens.filter (·.kind = .indicatorName)

variable {tokens rest : List Token} {trees : List Tree}

theorem reads_token_cons {k : Terminal} {ps : List Part} {keep : PhraseCondition}
    (h : grammar.Reads keep (.parts (token k :: ps)) tokens trees rest) :
    ∃ t middle back, t.kind = k ∧ tokens = t :: middle ∧ trees = .leaf t :: back ∧
      grammar.Reads keep (.parts ps) middle back rest := by
  obtain ⟨front, middle, back, rfl, first, others⟩ := h.split
  cases first with
  | once one =>
    obtain ⟨t, kind, rfl, rfl⟩ := one.leaf
    exact ⟨t, middle, back, kind, rfl, rfl, others⟩

theorem reads_phrase_cons {n : NonTerminal} {ps : List Part} {keep : PhraseCondition}
    (h : grammar.Reads keep (.parts (phrase n :: ps)) tokens trees rest) :
    ∃ t middle back, trees = t :: back ∧
      grammar.Reads keep (.symbol (.nonTerminal n)) tokens [t] middle ∧
        grammar.Reads keep (.parts ps) middle back rest := by
  obtain ⟨front, middle, back, rfl, first, others⟩ := h.split
  cases first with
  | once one =>
    obtain ⟨t, rfl⟩ := one.single
    exact ⟨t, middle, back, rfl, one, others⟩

theorem phrases_eq_nil {inside : Symbol → Prop} {taken : List Token}
    (h : Inside inside taken trees) (out : ¬ inside (.nonTerminal .indicatorDeclaration)) :
    trees.flatMap (·.phrases .indicatorDeclaration) = [] := by
  rw [List.flatMap_eq_nil_iff]
  intro t mem
  rw [Tree.phrases, List.filter_eq_nil_iff]
  intro u below
  have symbol := h.2 u (List.mem_flatMap.2 ⟨t, mem, below⟩)
  rw [Tree.isPhrase, decide_eq_true_eq]
  intro declares
  rw [declares] at symbol
  exact out symbol

theorem namesOf_eq_nil {inside : Symbol → Prop} {taken : List Token} (h : Inside inside taken trees)
    (out : ¬ inside (.terminal .indicatorName)) : namesOf taken = [] := by
  rw [List.filter_eq_nil_iff]
  intro t mem
  have symbol := h.1 t mem
  rw [decide_eq_true_eq]
  intro names
  rw [names] at symbol
  exact out symbol

theorem phrases_node (n m : NonTerminal) (choice : Nat) (start : Position) (children : List Tree) :
    (Tree.node n choice start children).phrases m =
      (if n = m then [.node n choice start children] else []) ++ children.flatMap (·.phrases m) := by
  rw [Tree.phrases, Tree.descendants_eq, List.filter_cons, List.filter_flatMap]
  by_cases same : n = m
  · subst same
    simp [Tree.isPhrase, Tree.symbol, Tree.children, Tree.phrases]
  · simp [Tree.isPhrase, Tree.symbol, Tree.children, Tree.phrases, same]

theorem phrases_leaf (t : Token) (m : NonTerminal) : (Tree.leaf t).phrases m = [] := by
  simp [Tree.phrases, Tree.descendants_eq, Tree.children, Tree.isPhrase, Tree.symbol]

theorem ofDeclaration_eq {choice : Nat} {start : Position}
    {name less greater identifier semicolon : Token} {arguments : Tree}
    (kinds : [name, less, greater, identifier, semicolon].map Token.kind =
      [.indicatorName, .mark .less, .mark .greater, .identifier, .mark .semicolon])
    (list : arguments.symbol = .nonTerminal .initializerList) :
    Instance.ofDeclaration (.node .indicatorDeclaration choice start
        [.leaf name, .leaf less, arguments, .leaf greater, .leaf identifier, .leaf semicolon]) =
      ⟨name.value, identifier.value, arguments.code, start.line⟩ := by
  simp only [List.map_cons, List.cons.injEq] at kinds
  obtain ⟨name_kind, less_kind, greater_kind, identifier_kind, -⟩ := kinds
  cases arguments with
  | leaf t => cases list
  | node n choice' start' children =>
    cases list
    simp [Instance.ofDeclaration, Tree.tokenText, Tree.tokenChild?, Tree.child?, Tree.children,
      Tree.isToken, Tree.isPhrase, Tree.symbol, Tree.token?, Tree.start, name_kind,
      less_kind, greater_kind, identifier_kind]

/-- What a declaration is read from, and its tree. -/
theorem exists_of_reads_declaration
    (h : grammar.Reads NearestElse (.symbol (.nonTerminal .indicatorDeclaration)) tokens trees rest) :
    ∃ (name less greater identifier semicolon : Token) (inside : List Token) (arguments : Tree),
      [name, less, greater, identifier, semicolon].map Token.kind =
        [.indicatorName, .mark .less, .mark .greater, .identifier, .mark .semicolon] ∧
      tokens = name :: less :: (inside ++ greater :: identifier :: semicolon :: rest) ∧
      trees = [.node .indicatorDeclaration 0 name.start
        [.leaf name, .leaf less, arguments, .leaf greater, .leaf identifier, .leaf semicolon]] ∧
      grammar.Reads NearestElse (.symbol (.nonTerminal .initializerList))
        (inside ++ greater :: identifier :: semicolon :: rest) [arguments]
        (greater :: identifier :: semicolon :: rest) ∧
      arguments.symbol = .nonTerminal .initializerList ∧
      Inside (inArguments · = true) inside [arguments] := by
  cases h with
  | @phrase _ choice a _ _ children chosen body kept =>
    rw [alternatives_items.2.2, List.getElem?_singleton] at chosen
    split at chosen
    · next first =>
      subst first
      cases chosen
      obtain ⟨name, _, _, name_kind, rfl, rfl, at_less⟩ := reads_token_cons body
      obtain ⟨less, _, _, less_kind, rfl, rfl, at_arguments⟩ := reads_token_cons at_less
      obtain ⟨arguments, _, _, rfl, read, at_greater⟩ := reads_phrase_cons at_arguments
      obtain ⟨greater, _, _, greater_kind, rfl, rfl, at_identifier⟩ := reads_token_cons at_greater
      obtain ⟨identifier, _, _, identifier_kind, rfl, rfl, at_semicolon⟩ :=
        reads_token_cons at_identifier
      obtain ⟨semicolon, _, _, semicolon_kind, rfl, rfl, at_end⟩ := reads_token_cons at_semicolon
      cases at_end
      obtain ⟨inside, rfl, within⟩ :=
        read.within closed_inArguments (show inArguments _ = true from rfl)
      refine ⟨name, less, greater, identifier, semicolon, inside, arguments, ?_, rfl, rfl, read, ?_,
        within⟩
      · simp [name_kind, less_kind, greater_kind, identifier_kind, semicolon_kind]
      · cases read
        rfl
    · cases chosen

/-- An item is a declaration or a statement. -/
theorem reads_item_cases {keep : PhraseCondition}
    (h : grammar.Reads keep (.symbol (.nonTerminal .item)) tokens trees rest) :
    (∃ t, trees = [.node .item 0 (Position.ofTokens tokens) [t]] ∧
      grammar.Reads keep (.symbol (.nonTerminal .indicatorDeclaration)) tokens [t] rest) ∨
    ∃ t, trees = [.node .item 1 (Position.ofTokens tokens) [t]] ∧
      grammar.Reads keep (.symbol (.nonTerminal .statement)) tokens [t] rest := by
  cases h with
  | @phrase _ choice a _ _ children chosen body kept =>
    rw [alternatives_items.2.1] at chosen
    match choice with
    | 0 =>
      cases chosen
      obtain ⟨t, _, _, rfl, declaration, at_end⟩ := reads_phrase_cons body
      cases at_end
      exact .inl ⟨t, rfl, declaration⟩
    | 1 =>
      cases chosen
      obtain ⟨t, _, _, rfl, statement, at_end⟩ := reads_phrase_cons body
      cases at_end
      exact .inr ⟨t, rfl, statement⟩
    | n + 2 => cases chosen

/-- A declaration begins with the only name of an indicator in it. -/
theorem declared_of_declaration
    (h : grammar.Reads NearestElse (.symbol (.nonTerminal .indicatorDeclaration)) tokens trees rest)
    (before : List Token) : ∃ taken, tokens = taken ++ rest ∧
      Declared (before ++ tokens) (trees.flatMap (·.phrases .indicatorDeclaration))
        (namesOf taken) := by
  obtain ⟨name, less, greater, identifier, semicolon, inside, arguments, kinds, rfl, rfl, read, list,
    within⟩ := exists_of_reads_declaration h
  refine ⟨name :: less :: (inside ++ [greater, identifier, semicolon]), by simp, ?_⟩
  have no_names := namesOf_eq_nil within (by decide)
  have no_declarations := phrases_eq_nil within (by decide)
  rw [List.flatMap_singleton] at no_declarations
  have names : namesOf (name :: less :: (inside ++ [greater, identifier, semicolon])) = [name] := by
    simp only [List.map_cons, List.cons.injEq] at kinds
    simp [kinds, no_names]
  rw [List.flatMap_singleton, phrases_node, if_pos rfl, names]
  simp only [List.flatMap_cons, List.flatMap_nil, phrases_leaf, no_declarations, List.append_nil]
  refine .cons ⟨?_, rfl⟩ .nil
  rw [ofDeclaration_eq kinds list]
  exact .intro before kinds read

theorem declared_of_item
    (h : grammar.Reads NearestElse (.symbol (.nonTerminal .item)) tokens trees rest)
    (before : List Token) : ∃ taken, tokens = taken ++ rest ∧
      Declared (before ++ tokens) (trees.flatMap (·.phrases .indicatorDeclaration))
        (namesOf taken) := by
  rcases reads_item_cases h with ⟨t, rfl, declaration⟩ | ⟨t, rfl, statement⟩
  · rw [List.flatMap_singleton, phrases_node, if_neg (by decide), List.nil_append]
    exact declared_of_declaration declaration before
  · rw [List.flatMap_singleton, phrases_node, if_neg (by decide), List.nil_append]
    -- a statement holds neither a declaration nor the name of an indicator
    obtain ⟨taken, rfl, within⟩ :=
      statement.within closed_inStatement (show inStatement _ = true from rfl)
    refine ⟨taken, rfl, ?_⟩
    rw [phrases_eq_nil within (by decide), namesOf_eq_nil within (by decide)]
    exact .nil

theorem declared_of_items
    (h : grammar.Reads NearestElse (.many (.nonTerminal .item)) tokens trees rest)
    (before : List Token) : ∃ taken, tokens = taken ++ rest ∧
      Declared (before ++ tokens) (trees.flatMap (·.phrases .indicatorDeclaration))
        (namesOf taken) := by
  generalize goal_eq : Goal.many (.nonTerminal .item) = goal at h
  induction h generalizing before with
  | manyNil => exact ⟨[], rfl, .nil⟩
  | manyCons first others _ ih =>
    cases goal_eq
    obtain ⟨front, rfl, declared⟩ := declared_of_item first before
    obtain ⟨back, rfl, declared'⟩ := ih (before ++ front) rfl
    refine ⟨front ++ back, by rw [List.append_assoc], ?_⟩
    rw [List.append_assoc] at declared'
    rw [List.flatMap_append, namesOf, List.filter_append]
    exact List.rel_append declared declared'
  | _ => cases goal_eq

/-- The declarations of a script and the names of indicators among its tokens go together one by
one. -/
theorem forall₂_declares {t : Tree} (h : Tree.parse grammar .program tokens = .ok t) :
    Declared tokens (t.phrases .indicatorDeclaration) (namesOf tokens) := by
  cases nearestElse_of_firstFit (Tree.reads_of_parse_eq_ok h) with
  | @phrase _ choice a _ _ children chosen body kept =>
    have mem := List.mem_of_getElem? chosen
    rw [alternatives_items.1, List.mem_singleton] at mem
    subst mem
    obtain ⟨front, middle, back, rfl, items, at_end⟩ := body.split
    cases at_end
    cases items with
    | repeated items =>
      obtain ⟨taken, rfl, declared⟩ := declared_of_items items []
      rw [phrases_node, if_neg (by decide), List.nil_append, List.append_nil, List.append_nil]
      rwa [List.nil_append, List.append_nil] at declared

end Script

/-! ## Arguments on one line -/

/-- A text without a newline. -/
def Text.OnOneLine (s : String) : Prop :=
  '\n' ∉ s.toList

namespace Text

instance : DecidablePred OnOneLine :=
  fun s => inferInstanceAs (Decidable ('\n' ∉ s.toList))

theorem OnOneLine.append {s t : String} (h : OnOneLine s) (h' : OnOneLine t) :
    OnOneLine (s ++ t) := by
  rw [OnOneLine, String.toList_append, List.mem_append, not_or]
  exact ⟨h, h'⟩

end Text

/-- A word within a line. -/
def Piece.IsInline : Piece → Prop
  | word text => '\n' ∉ text
  | _ => False

theorem Piece.newline_not_mem_render {pieces : List Piece} (all : ∀ p ∈ pieces, p.IsInline)
    (depth : Nat) (fresh : Bool) : '\n' ∉ render depth fresh pieces := by
  induction pieces generalizing fresh with
  | nil => simp [render]
  | cons piece others ih =>
    rw [List.forall_mem_cons] at all
    cases piece with
    | word text =>
      have inline : '\n' ∉ text := all.1
      have gap : '\n' ∉ lead depth fresh text := by
        unfold lead
        split
        · simp
        · split <;> simp
      simp [render, gap, inline, ih all.2]
    | opening text => exact all.1.elim
    | closing text => exact all.1.elim
    | ending text => exact all.1.elim

namespace Tree

open Script Text

/-- A node that can stand in arguments, and whose token stands on one line. -/
def IsInline (t : Tree) : Prop :=
  inArguments t.symbol = true ∧ ∀ token, t.token? = some token → OnOneLine token.value

theorem isInline_ofToken {t : Token} (h : (leaf t).IsInline) (inHeader : Bool) :
    (Piece.ofToken inHeader t).IsInline := by
  have inside : inArguments (.terminal t.kind) = true := h.1
  have line : OnOneLine t.value := h.2 t rfl
  unfold Piece.ofToken
  split
  · next brace =>
    rw [brace] at inside
    cases inside
  · next brace =>
    rw [brace] at inside
    cases inside
  · next semicolon =>
    rw [semicolon] at inside
    cases inside
  · exact line

mutual

theorem isInline_pieces (inHeader : Bool) : ∀ t : Tree, (∀ u ∈ t.descendants, u.IsInline) →
    ∀ piece ∈ t.pieces inHeader, piece.IsInline
  | leaf token, h => by
    have own : leaf token ∈ (leaf token).descendants := by
      rw [descendants_eq]
      exact List.mem_cons_self
    rw [pieces]
    simpa using isInline_ofToken (h _ own) inHeader
  | node n choice start children, h => by
    rw [descendants_eq, List.forall_mem_cons] at h
    have all := isInline_piecesAll inHeader children h.2
    have list := isInline_piecesList inHeader children h.2
    have inside : inArguments (.nonTerminal n) = true := h.1.1
    cases n with
    | indicatorDeclaration => cases inside
    | actionStatement => cases inside
    | forStatement => cases inside
    | arguments => exact list
    | initializerList => exact list
    | _ => exact all

theorem isInline_piecesAll (inHeader : Bool) :
    ∀ ts : List Tree, (∀ u ∈ ts.flatMap descendants, u.IsInline) →
      ∀ piece ∈ piecesAll inHeader ts, piece.IsInline
  | [], _ => by simp [piecesAll]
  | t :: others, h => by
    rw [List.flatMap_cons, List.forall_mem_append] at h
    rw [piecesAll, List.forall_mem_append]
    exact ⟨isInline_pieces inHeader t h.1, isInline_piecesAll inHeader others h.2⟩

theorem isInline_piecesList (inHeader : Bool) :
    ∀ ts : List Tree, (∀ u ∈ ts.flatMap descendants, u.IsInline) →
      ∀ piece ∈ piecesList inHeader ts, piece.IsInline
  | [], _ => by simp [piecesList]
  | [t], h => by
    rw [List.flatMap_singleton] at h
    rw [piecesList]
    exact isInline_pieces inHeader t h
  | t :: next :: others, h => by
    rw [List.flatMap_cons, List.forall_mem_append] at h
    rw [piecesList, List.forall_mem_append, List.forall_mem_cons]
    have comma : '\n' ∉ [','] := by decide
    exact ⟨isInline_pieces inHeader t h.1, comma,
      isInline_piecesList inHeader (next :: others) h.2⟩

end

theorem onOneLine_code {t : Tree} (h : ∀ u ∈ t.descendants, u.IsInline) : OnOneLine t.code := by
  rw [OnOneLine, code, String.toList_ofList]
  exact Piece.newline_not_mem_render (isInline_pieces false t h) 0 true

end Tree

namespace Script

open Grammar Text

variable {file text : String} {names : List String}

/-- Only the given names are names of indicators. -/
theorem mem_names_of_kind {t : Token}
    (mem : t ∈ (Token.ofText file text).map (Token.markIndicator names))
    (kind : t.kind = .indicatorName) : t.value ∈ names := by
  obtain ⟨u, mem_u, rfl⟩ := List.mem_map.1 mem
  unfold Token.markIndicator at kind ⊢
  split
  · next marked => exact marked.2
  · next plain =>
    rw [if_neg plain] at kind
    exact absurd kind (Token.kind_ne_indicatorName mem_u)

/-- A token that is no unknown piece stands on one line. -/
theorem onOneLine_value {t : Token}
    (mem : t ∈ (Token.ofText file text).map (Token.markIndicator names))
    (known : t.kind ≠ .unknown) : OnOneLine t.value := by
  obtain ⟨u, mem_u, rfl⟩ := List.mem_map.1 mem
  have same : (u.markIndicator names).value = u.value := by
    unfold Token.markIndicator
    split <;> rfl
  have known_u : u.kind ≠ .unknown := by
    intro unknown
    rw [Token.markIndicator, if_neg (by simp [unknown])] at known
    exact known unknown
  rw [same]
  exact (solid_of_spelling ((Token.spelling_of_mem_ofText mem_u).resolve_left known_u)).line

/-- What is read in the place of arguments is written on one line. -/
theorem onOneLine_arguments {tokens rest : List Token} {arguments : Tree}
    {keep : PhraseCondition}
    (h : grammar.Reads keep (.symbol (.nonTerminal .initializerList)) tokens [arguments] rest)
    (lines : ∀ t ∈ tokens, t.kind ≠ .unknown → OnOneLine t.value) :
    OnOneLine arguments.code := by
  obtain ⟨inside, -, within⟩ := h.within closed_inArguments (show inArguments _ = true from rfl)
  obtain ⟨covered, rfl, u, same, -, covers⟩ := h.covers
  obtain rfl : arguments = u := List.singleton_inj.1 same
  refine Tree.onOneLine_code fun u mem => ?_
  have symbol := within.2 u (by simpa using mem)
  refine ⟨symbol, fun token leaf => ?_⟩
  have mem_tokens : token ∈ arguments.tokens := List.mem_filterMap.2 ⟨u, mem, leaf⟩
  refine lines token (List.mem_append_left _ (covers.lacksCommas.1.subset mem_tokens)) ?_
  intro unknown
  cases u with
  | leaf t =>
    cases leaf
    have known : inArguments (.terminal token.kind) = true := symbol
    rw [unknown] at known
    cases known
  | node => cases leaf

/-- The lines for a declared instance are single lines. -/
theorem Declares.onOneLine {tokens : List Token} {name : Token} {i : Instance}
    (h : Declares tokens name i)
    (lines : ∀ t ∈ tokens, t.kind ≠ .unknown → OnOneLine t.value) :
    OnOneLine i.declarationLine ∧ OnOneLine i.dataLine := by
  cases h with
  | @intro before name less greater identifier semicolon inside after arguments kinds read =>
    simp only [List.map_cons, List.cons.injEq] at kinds
    obtain ⟨name_kind, less_kind, greater_kind, identifier_kind, -⟩ := kinds
    have class_line : OnOneLine name.value := lines name (by simp) (by rw [name_kind]; decide)
    have name_line : OnOneLine identifier.value :=
      lines identifier (by simp) (by rw [identifier_kind]; decide)
    have arguments_line : OnOneLine arguments.code :=
      onOneLine_arguments read fun t mem => lines t (by simp at mem ⊢; tauto)
    have indicator_line : OnOneLine (identifier.value ++ Instance.suffix) :=
      name_line.append (by decide)
    constructor
    · exact ((((((by decide : OnOneLine "\tconst ").append class_line).append (by decide)).append
        indicator_line).append (by decide)).append arguments_line).append (by decide)
    · exact ((((((by decide : OnOneLine "\tconst Indicator& ").append name_line).append
        (by decide)).append indicator_line).append (by decide)).append name_line).append (by decide)

end Script

end TradeScript
