import TradeScript.Proofs.Plugin.Wiring
import TradeScript.Proofs.Source.Directive
import TradeScript.Text.Casing

/-!
# Names of indicator classes in scripts

A directive that gives an indicator its class takes any word that does not start with a digit
(`isIdentifier_of_read`). Such a word is lexed as one token (`Token.ofText_of_isIdentifier`), and this
is an identifier unless the word is reserved (`Token.wordKind_eq_identifier_iff`). Only identifiers are
marked as names of indicators, so an instance of the class can be declared just if its name is not
reserved (`declares_class_unless_reserved`).
-/

namespace TradeScript

open Grammar Script Text

/-! ## Words that directives accept -/

theorem Directive.isIdentifier_of_readArgument {word argument kept : List Char}
    (h : readArgument .className word argument = .ok kept) : isIdentifier kept = true := by
  unfold readArgument at h
  split at h
  · cases h
  · rw [if_neg (by decide)] at h
    split at h
    · cases h
    · next accepted =>
      cases h
      simpa using accepted

theorem Directive.isIdentifier_of_read {line argument : List Char}
    (h : read line = .ok (some (.className, argument))) : isIdentifier argument = true := by
  obtain ⟨⟨⟩, -⟩ | ⟨sign, body, kind, argument, -, -, -, kept, ⟨⟩⟩ := read_eq_ok_cases h
  exact isIdentifier_of_readArgument kept

/-- A directive was read from a line. -/
def Directive.IsRead (d : Directive) : Prop :=
  ∃ line argument, read line = .ok (some (d.kind, argument)) ∧ d.argument = String.ofList argument

mutual

theorem isRead_of_expandFile {files : FileSet} {mode : RequireMode} {active : List Path} {p : Path}
    {journal journal' : Journal} {e : Expansion}
    (h : (expandFile files mode active p).Ends journal e journal') :
    ∀ d ∈ e.directives, d.IsRead := by
  obtain ⟨new, text, body, found, step, rfl⟩ := ends_expandFile_iff.1 h
  exact fun d mem => isRead_of_expandLines step d mem
  termination_by (files.countOutside active, 0)
  decreasing_by exact Prod.Lex.left _ _ (FileSet.countOutside_cons_lt found new)

theorem isRead_of_expandLines {files : FileSet} {mode : RequireMode} {active : List Path} {p : Path}
    {n : Nat} {remaining : List (List Char)} {journal journal' : Journal} {e : Expansion}
    (h : (expandLines files mode active p n remaining).Ends journal e journal') :
    ∀ d ∈ e.directives, d.IsRead := by
  match remaining with
  | [] =>
    obtain ⟨rfl, -⟩ := expandLines_nil h
    simp [Expansion.empty]
  | text :: others =>
    obtain ⟨rest, read, step, rfl⟩ | ⟨kind, argument, rest, read, -, step, rfl⟩ |
      ⟨argument, inner, middle, rest, read, -, step, step', rfl⟩ := expandLines_cons_cases h
    · exact fun d mem => isRead_of_expandLines step d mem
    · have others := isRead_of_expandLines step
      exact List.forall_mem_cons.2 ⟨⟨text, argument, read, rfl⟩, others⟩
    · have others := isRead_of_expandLines step'
      exact List.forall_mem_cons.2 ⟨⟨text, argument, read, rfl⟩,
        List.forall_mem_append.2 ⟨isRead_of_expandFile step, others⟩⟩
  termination_by (files.countOutside active, remaining.length + 1)

end

/-- A class that a script names has a word for its name. -/
theorem isIdentifier_of_expand {files : FileSet} {mode : RequireMode} {p : Path} {e : Expansion}
    (h : (expand files mode p).start.1 = .ok e) {d : Directive} (mem : d ∈ e.directivesOf .className) :
    isIdentifier d.argument.toList = true := by
  obtain ⟨mem_d, kind⟩ := List.mem_filter.1 mem
  obtain ⟨line, argument, read, same⟩ := isRead_of_expandFile (Reading.start_eq_ok_iff.1 h) d mem_d
  rw [of_decide_eq_true kind] at read
  rw [same, String.toList_ofList]
  exact Directive.isIdentifier_of_read read

/-! ## How they are lexed -/

theorem isDigit_eq_false_of_start {c : Char} (h : (isLetter c || c == '_') = true) :
    isDigit c = false := by
  have start : (97 ≤ c.toNat ∧ c.toNat ≤ 122 ∨ 65 ≤ c.toNat ∧ c.toNat ≤ 90) ∨ c.toNat = 95 := by
    rw [Bool.or_eq_true] at h
    exact h.imp toNat_of_isLetter fun underscore => by rw [eq_of_beq underscore]; rfl
  have outside : ¬ (48 ≤ c.toNat ∧ c.toNat ≤ 57) := by omega
  rw [Bool.eq_false_iff]
  intro digit
  simp only [isDigit, Bool.and_eq_true, decide_eq_true_eq, Char.le_def, UInt32.le_iff_toNat_le]
    at digit
  exact outside digit

namespace Token

variable {cs : List Char}

theorem all_isWordChar_of_isIdentifier (h : isIdentifier cs = true) :
    cs ≠ [] ∧ cs.all isWordChar = true := by
  cases cs with
  | nil => cases h
  | cons c others =>
    simp only [isIdentifier, Bool.and_eq_true] at h
    refine ⟨by simp, ?_⟩
    rw [List.all_cons, h.2, Bool.and_true, isWordChar]
    simp only [Bool.or_eq_true] at h ⊢
    tauto

/-- A class name on its own is one token. -/
theorem ofText_of_isIdentifier (h : isIdentifier cs = true) (file : String) :
    ofText file (String.ofList cs) = [⟨wordKind cs, String.ofList cs, .first file⟩] := by
  obtain ⟨some, all⟩ := all_isWordChar_of_isIdentifier h
  have fragment : Fragment.scan (.first file) false cs =
      [⟨.word, cs, .first file, false⟩] := by
    rw [← List.append_nil cs, scan_word some all (by simp), Fragment.scan, List.append_nil]
  rw [ofText, Fragment.ofText, String.toList_ofList, fragment]
  simp [ofFragments, joined]

theorem ofReserved?_ne_identifier (word : String) :
    Terminal.ofReserved? word ≠ some .identifier := by
  unfold Terminal.ofReserved?
  split
  · simp
  · split <;> simp

/-- A class name is an identifier unless it is reserved. -/
theorem wordKind_eq_identifier_iff (h : isIdentifier cs = true) :
    wordKind cs = .identifier ↔ Terminal.ofReserved? (String.ofList cs) = none := by
  cases cs with
  | nil => cases h
  | cons c others =>
    simp only [isIdentifier, Bool.and_eq_true] at h
    have first := isDigit_eq_false_of_start h.1
    have not_reserved := ofReserved?_ne_identifier (String.ofList (c :: others))
    unfold wordKind
    rw [if_neg (by simp [first]), if_neg (by simp [first])]
    cases reserved : Terminal.ofReserved? (String.ofList (c :: others)) with
    | none => simp
    | some k =>
      rw [reserved] at not_reserved
      simpa using not_reserved

theorem kind_of_spelling {k : Terminal} {text : List Char} (h : Spelling k text)
    (all : text.all isWordChar = true) : k = wordKind text := by
  cases h with
  | word some own => rfl
  | decimal some digits some' digits' => simp [isWordChar, isLetter, isDigit] at all
  | fraction some digits => simp [isWordChar, isLetter, isDigit] at all
  | mark m => cases m <;> cases all
  | operator o => cases o <;> cases all
  | literal q closed => cases q <;> cases all

/-- A token whose text is a class name is of the kind of this word. -/
theorem kind_of_mem_ofText {file text : String} {t : Token} (mem : t ∈ ofText file text)
    (h : isIdentifier t.value.toList = true) : t.kind = wordKind t.value.toList := by
  have all := (all_isWordChar_of_isIdentifier h).2
  rcases stray_or_spelling_of_mem_ofText mem with ⟨-, c, value, stray⟩ | spelling
  · rw [value, List.all_cons, stray.not_word] at all
    cases all
  · exact kind_of_spelling spelling all

end Token

/-! ## How a declaration is read -/

namespace Script

variable {tokens rest inside : List Token} {trees : List Tree}
  {name less greater identifier semicolon : Token}

/-- The tree of a script that is one declaration. -/
def declarationTree (name less : Token) (arguments : Tree) (greater identifier semicolon : Token) :
    Tree :=
  .node .program 0 name.start [.node .item 0 name.start [.node .indicatorDeclaration 0 name.start
    [.leaf name, .leaf less, arguments, .leaf greater, .leaf identifier, .leaf semicolon]]]

/-- The kinds of the marks and the names of a declaration. -/
def DeclarationKinds (name less greater identifier semicolon : Token) : Prop :=
  [name, less, greater, identifier, semicolon].map Token.kind =
    [.indicatorName, .mark .less, .mark .greater, .identifier, .mark .semicolon]

theorem yields_program (kinds : DeclarationKinds name less greater identifier semicolon)
    (list : grammar.Yields (.symbol (.nonTerminal .initializerList)) (inside.map Token.kind)) :
    grammar.Yields (.symbol (.nonTerminal .program))
      ((name :: less :: (inside ++ [greater, identifier, semicolon])).map Token.kind) := by
  obtain ⟨program, item, declaration⟩ := alternatives_items
  have declares := Yields.phrase (declaration ▸ List.mem_singleton_self _)
    (.cons (.once (.terminal .indicatorName)) (.cons (.once (.terminal (.mark .less)))
      (.cons (.once list) (.cons (.once (.terminal (.mark .greater)))
        (.cons (.once (.terminal .identifier)) (.cons (.once (.terminal (.mark .semicolon)))
          .nil))))))
  have one := Yields.phrase (item ▸ List.mem_cons_self) (.cons (.once declares) .nil)
  have whole := Yields.phrase (program ▸ List.mem_singleton_self _)
    (.cons (.repeated (.manyCons one (.manyNil _))) .nil)
  simp only [DeclarationKinds, List.map_cons, List.cons.injEq] at kinds
  simpa [kinds] using whole

/-- Arguments have no semicolon and no name of an indicator among them. -/
theorem inArguments_of_yields
    (list : grammar.Yields (.symbol (.nonTerminal .initializerList)) (inside.map Token.kind)) :
    ∀ t ∈ inside, inArguments (.terminal t.kind) = true := by
  obtain ⟨u, parsed⟩ := (Tree.exists_parse_eq_ok_iff decisive).2 list
  obtain ⟨taken, split, within⟩ := (Tree.reads_of_parse_eq_ok parsed).within closed_inArguments
    (show inArguments _ = true from rfl)
  rw [split, List.append_nil]
  exact within.1

theorem exists_eq_cons_of_reads_item {keep : PhraseCondition}
    (h : grammar.Reads keep (.symbol (.nonTerminal .item)) tokens trees rest) :
    ∃ t taken, tokens = t :: taken ++ rest := by
  obtain ⟨taken, rfl, yields⟩ := h.yields
  cases taken with
  | nil =>
    have element : [] ∉ grammar.language (.symbol (.nonTerminal .item)) :=
      checked.element (p := ⟨.nonTerminal .item, .many⟩)
        (alternatives_items.1 ▸ List.mem_singleton_self _) (List.mem_singleton_self _) (.inl rfl)
    exact absurd yields element
  | cons t taken => exact ⟨t, taken, rfl⟩

/-- What begins with the name of an indicator is a declaration. -/
theorem reads_declaration_of_reads_item {keep : PhraseCondition}
    (h : grammar.Reads keep (.symbol (.nonTerminal .item)) (name :: tokens) trees rest)
    (kind : name.kind = .indicatorName) : ∃ t, trees = [.node .item 0 name.start [t]] ∧
      grammar.Reads keep (.symbol (.nonTerminal .indicatorDeclaration)) (name :: tokens) [t] rest := by
  obtain ⟨first, taken, split⟩ := exists_eq_cons_of_reads_item h
  rcases reads_item_cases h with declaration | ⟨t, -, statement⟩
  · exact declaration
  · obtain ⟨taken', split', within⟩ :=
      statement.within closed_inStatement (show inStatement _ = true from rfl)
    obtain rfl : first :: taken = taken' := List.append_cancel_right (split.symm.trans split')
    have stands := within.1 first List.mem_cons_self
    rw [← (List.cons.inj split).1, kind] at stands
    cases stands

/-- Two ways to end some tokens with a declaration's mark, name and semicolon are one if the semicolon
comes only at the end. -/
theorem eq_of_one_semicolon {inside' : List Token} {greater' identifier' semicolon' : Token}
    (once : ∀ t ∈ inside ++ [greater, identifier], t.kind ≠ .mark .semicolon)
    (kind : semicolon'.kind = .mark .semicolon)
    (same : inside ++ [greater, identifier, semicolon] =
      inside' ++ greater' :: identifier' :: semicolon' :: rest) :
    greater' = greater ∧ identifier' = identifier ∧ semicolon' = semicolon ∧ rest = [] := by
  have ends : (inside ++ [greater, identifier]) ++ [semicolon] =
      (inside' ++ [greater', identifier']) ++ semicolon' :: rest := by simpa using same
  have absent : semicolon' ∉ inside ++ [greater, identifier] := fun mem => once _ mem kind
  obtain ⟨before, rfl, rfl⟩ := (List.append_cons_inj_of_notMem absent List.not_mem_nil).1 ends
  have last := (List.append_inj' before rfl).2
  simp only [List.cons.injEq, and_true] at last
  exact ⟨last.1.symm, last.2.symm, rfl, rfl⟩

/-- The semicolon ends the only item among the tokens of a declaration. -/
theorem reads_declaration_of_reads_items
    (kinds : DeclarationKinds name less greater identifier semicolon)
    (list : ∀ t ∈ inside, inArguments (.terminal t.kind) = true)
    (h : grammar.Reads NearestElse (.many (.nonTerminal .item))
      (name :: less :: (inside ++ [greater, identifier, semicolon])) trees []) :
    ∃ arguments, arguments.symbol = .nonTerminal .initializerList ∧
      trees = (declarationTree name less arguments greater identifier semicolon).children := by
  simp only [DeclarationKinds, List.map_cons, List.cons.injEq] at kinds
  obtain ⟨name_kind, -, greater_kind, identifier_kind, -⟩ := kinds
  have once : ∀ t ∈ inside ++ [greater, identifier], t.kind ≠ .mark .semicolon := by
    refine List.forall_mem_append.2 ⟨fun t mem kind => ?_, ?_⟩
    · have stands := list t mem
      rw [kind] at stands
      cases stands
    · simp [greater_kind, identifier_kind]
  cases h with
  | @manyCons _ _ middle _ _ _ first others =>
    obtain ⟨t, rfl, declaration⟩ := reads_declaration_of_reads_item first name_kind
    obtain ⟨name', less', greater', identifier', semicolon', inside', arguments, kinds', same, whole, -,
      symbol, -⟩ := exists_of_reads_declaration declaration
    simp only [List.map_cons, List.cons.injEq] at kinds'
    obtain ⟨-, -, -, -, semicolon_kind, -⟩ := kinds'
    simp only [List.cons.injEq] at same whole
    obtain ⟨rfl, rfl, same⟩ := same
    obtain ⟨rfl, rfl, rfl, rfl⟩ := eq_of_one_semicolon once semicolon_kind same
    obtain ⟨rfl, -⟩ := whole
    cases others with
    | manyNil => exact ⟨arguments, symbol, rfl⟩
    | manyCons more _ =>
      obtain ⟨t, taken, absurd⟩ := exists_eq_cons_of_reads_item more
      cases absurd

/-- The tokens of one declaration are read as one. -/
theorem parse_eq_declarationTree (kinds : DeclarationKinds name less greater identifier semicolon)
    (list : grammar.Yields (.symbol (.nonTerminal .initializerList)) (inside.map Token.kind)) :
    ∃ arguments, arguments.symbol = .nonTerminal .initializerList ∧
      Tree.parse grammar .program (name :: less :: (inside ++ [greater, identifier, semicolon])) =
        .ok (declarationTree name less arguments greater identifier semicolon) := by
  obtain ⟨t, parsed⟩ := (Tree.exists_parse_eq_ok_iff decisive).2 (yields_program kinds list)
  rw [parsed]
  cases nearestElse_of_firstFit (Tree.reads_of_parse_eq_ok parsed) with
  | @phrase _ choice a _ _ children chosen body kept =>
    rw [alternatives_items.1, List.getElem?_singleton] at chosen
    split at chosen
    · next first =>
      subst first
      cases chosen
      obtain ⟨front, middle, back, rfl, items, at_end⟩ := body.split
      cases at_end
      cases items with
      | repeated items =>
        obtain ⟨arguments, symbol, rfl⟩ :=
          reads_declaration_of_reads_items kinds (inArguments_of_yields list) items
        exact ⟨arguments, symbol, rfl⟩
    · cases chosen

/-! ## Lines that declare an instance -/

/-- The tokens of a line that declares an instance of a class: the name of the class, arguments between
angles, a name that no class has, and a semicolon. -/
structure DeclarationLine (names : List String) (className : String) (tokens : List Token)
    (name less : Token) (inside : List Token) (greater identifier semicolon : Token) : Prop where
  tokens_eq : tokens = name :: less :: (inside ++ [greater, identifier, semicolon])
  className : name.value = className
  kinds : [less, greater, identifier, semicolon].map Token.kind =
    [.mark .less, .mark .greater, .identifier, .mark .semicolon]
  /-- The arguments are accepted when the names of classes are marked. -/
  arguments : grammar.Yields (.symbol (.nonTerminal .initializerList))
    ((inside.map (Token.markIndicator names)).map Token.kind)
  fresh : identifier.value ∉ names

theorem markIndicator_eq_self {names : List String} {t : Token}
    (h : t.kind ≠ .identifier ∨ t.value ∉ names) : t.markIndicator names = t :=
  if_neg fun ⟨kind, mem⟩ => h.elim (· kind) (· mem)

variable {names : List String} {className : String}

theorem DeclarationLine.marked
    (h : DeclarationLine names className tokens name less inside greater identifier semicolon) :
    tokens.map (Token.markIndicator names) = name.markIndicator names :: less ::
      (inside.map (Token.markIndicator names) ++ [greater, identifier, semicolon]) := by
  have kinds := h.kinds
  simp only [List.map_cons, List.cons.injEq] at kinds
  obtain ⟨less_kind, greater_kind, -, semicolon_kind, -⟩ := kinds
  have less_eq : less.markIndicator names = less := markIndicator_eq_self (.inl (by simp [less_kind]))
  have greater_eq : greater.markIndicator names = greater :=
    markIndicator_eq_self (.inl (by simp [greater_kind]))
  have semicolon_eq : semicolon.markIndicator names = semicolon :=
    markIndicator_eq_self (.inl (by simp [semicolon_kind]))
  have identifier_eq : identifier.markIndicator names = identifier :=
    markIndicator_eq_self (.inr h.fresh)
  rw [h.tokens_eq]
  simp [less_eq, greater_eq, semicolon_eq, identifier_eq]

/-- A line whose class is marked is read as one declaration. -/
theorem DeclarationLine.parse_eq (h : DeclarationLine names className tokens name less inside greater
      identifier semicolon) (kind : name.kind = .identifier) (mem : className ∈ names) :
    ∃ arguments, arguments.symbol = .nonTerminal .initializerList ∧
      Tree.parse grammar .program (tokens.map (Token.markIndicator names)) =
        .ok (declarationTree { name with kind := .indicatorName } less arguments greater identifier
          semicolon) := by
  have name_eq : name.markIndicator names = { name with kind := .indicatorName } :=
    if_pos ⟨kind, h.className ▸ mem⟩
  have kinds := h.kinds
  simp only [List.map_cons, List.cons.injEq] at kinds
  rw [h.marked, name_eq]
  exact parse_eq_declarationTree (by simp [DeclarationKinds, kinds]) h.arguments

/-- A line whose class is not marked declares nothing. -/
theorem DeclarationLine.phrases_eq_nil (h : DeclarationLine names className tokens name less inside
      greater identifier semicolon) (kind : name.kind ≠ .identifier)
    (unmarked : name.kind ≠ .indicatorName) {t : Tree}
    (parsed : Tree.parse grammar .program (tokens.map (Token.markIndicator names)) = .ok t) :
    t.phrases .indicatorDeclaration = [] := by
  have kinds := h.kinds
  simp only [List.map_cons, List.cons.injEq] at kinds
  have none_inside : namesOf (inside.map (Token.markIndicator names)) = [] := by
    rw [List.filter_eq_nil_iff]
    intro u mem
    have stands := inArguments_of_yields h.arguments u mem
    rw [decide_eq_true_eq]
    intro is_name
    rw [is_name] at stands
    cases stands
  have no_names : namesOf (tokens.map (Token.markIndicator names)) = [] := by
    rw [h.marked, markIndicator_eq_self (.inl kind)]
    simp [none_inside, unmarked, kinds]
  have declared := forall₂_declares parsed
  rw [no_names] at declared
  exact List.forall₂_nil_right_iff.1 declared

end Script

/-- The class that a directive names is lexed as one token, and this is an identifier unless the name is
reserved. If it is not, then a line that declares an instance of the class is read as its declaration
when the class is marked; otherwise no such line declares anything. -/
theorem declares_class_unless_reserved {files : FileSet} {mode : RequireMode} {p : Path} {e : Expansion}
    (h : (expand files mode p).start.1 = .ok e) {d : Directive} (mem : d ∈ e.directivesOf .className) :
    (∀ file, ∃ kind, Token.ofText file d.argument = [⟨kind, d.argument, .first file⟩] ∧
      (kind = .identifier ↔ Terminal.ofReserved? d.argument = none)) ∧
    ∀ names file text name less inside greater identifier semicolon, d.argument ∈ names →
      DeclarationLine names d.argument (Token.ofText file text) name less inside greater identifier
        semicolon →
      (Terminal.ofReserved? d.argument = none →
        ∃ arguments, arguments.symbol = .nonTerminal .initializerList ∧
          Tree.parse grammar .program ((Token.ofText file text).map (Token.markIndicator names)) =
            .ok (declarationTree { name with kind := .indicatorName } less arguments greater identifier
              semicolon)) ∧
      (Terminal.ofReserved? d.argument ≠ none → ∀ t,
        Tree.parse grammar .program ((Token.ofText file text).map (Token.markIndicator names)) =
          .ok t → t.phrases .indicatorDeclaration = []) := by
  have word := isIdentifier_of_expand h mem
  have reserved := Token.wordKind_eq_identifier_iff word
  rw [String.ofList_toList] at reserved
  refine ⟨fun file => ⟨_, ?_, reserved⟩, ?_⟩
  · have alone := Token.ofText_of_isIdentifier word file
    rwa [String.ofList_toList] at alone
  · intro names file text name less inside greater identifier semicolon marked line
    have mem_name : name ∈ Token.ofText file text := by
      rw [line.tokens_eq]
      exact List.mem_cons_self
    have kind := Token.kind_of_mem_ofText mem_name (line.className ▸ word)
    rw [line.className] at kind
    refine ⟨fun free => line.parse_eq (kind.trans (reserved.2 free)) marked, fun taken t parsed => ?_⟩
    exact line.phrases_eq_nil (fun identifier => taken (reserved.1 (kind.symm.trans identifier)))
      (Token.kind_ne_indicatorName mem_name) parsed

/-! ### Two classes of which one has a reserved name -/

theorem declares_class_twins : ∃ arguments,
    arguments.symbol = .nonTerminal .initializerList ∧
      Tree.parse grammar .program
        ((Token.ofText "a.dts" "B<1> x;").map (Token.markIndicator ["B"])) = .ok (declarationTree
          ⟨.indicatorName, "B", ⟨"a.dts", 1, 1⟩⟩ ⟨.mark .less, "<", ⟨"a.dts", 1, 2⟩⟩ arguments
            ⟨.mark .greater, ">", ⟨"a.dts", 1, 4⟩⟩ ⟨.identifier, "x", ⟨"a.dts", 1, 6⟩⟩
              ⟨.mark .semicolon, ";", ⟨"a.dts", 1, 7⟩⟩) := by
  have expanded : (expand Plugin.twins .elide ⟨"b.dti"⟩).start.1 =
      .ok Plugin.twinsIndicatorExpansion :=
    congrArg Prod.fst (Plugin.ends_expand_twins_indicator .empty)
  have line : DeclarationLine ["B"] "B" (Token.ofText "a.dts" "B<1> x;")
      ⟨.identifier, "B", ⟨"a.dts", 1, 1⟩⟩ ⟨.mark .less, "<", ⟨"a.dts", 1, 2⟩⟩
        [⟨.number, "1", ⟨"a.dts", 1, 3⟩⟩] ⟨.mark .greater, ">", ⟨"a.dts", 1, 4⟩⟩
          ⟨.identifier, "x", ⟨"a.dts", 1, 6⟩⟩ ⟨.mark .semicolon, ";", ⟨"a.dts", 1, 7⟩⟩ := by
    refine ⟨by decide +kernel, rfl, rfl, ?_, by decide⟩
    obtain ⟨taken, split, yields⟩ :=
      (reads_numberArgument (t := ⟨.number, "1", ⟨"a.dts", 1, 3⟩⟩) rfl []).yields
    rw [List.append_nil] at split
    subst split
    exact yields
  have named : ⟨.className, "B", ⟨"b.dti"⟩, 2⟩ ∈
      Plugin.twinsIndicatorExpansion.directivesOf .className :=
    List.mem_filter.2 ⟨.tail _ (.head _), rfl⟩
  have declares := declares_class_unless_reserved expanded named
  exact (declares.2 ["B"] "a.dts" "B<1> x;" _ _ _ _ _ _ (by decide) line).1 (by decide)

/-- An indicator whose class has the name of an action. -/
def reservedClass : FileSet :=
  { FileSet.empty with files := [(⟨"b.dti"⟩, "$identifier buy\n")] }

theorem expand_reservedClass : (expand reservedClass .elide ⟨"b.dti"⟩).start.1 =
    .ok ⟨[.marker 1 ⟨"b.dti"⟩, .source [] ⟨"b.dti"⟩ 1], [⟨.className, "buy", ⟨"b.dti"⟩, 1⟩]⟩ := by
  have one_line : lines (stripComments "$identifier buy\n".toList) = ["$identifier buy".toList] := by
    decide
  have read : Directive.read "$identifier buy".toList = .ok (some (.className, "buy".toList)) := rfl
  exact expand_elide_of_line rfl one_line read

/-- A reserved word is accepted as the name of a class, and is not lexed as an identifier. -/
theorem not_forall_class_identifier :
    ¬ ∀ (files : FileSet) (mode : RequireMode) (p : Path) (e : Expansion) (d : Directive),
      (expand files mode p).start.1 = .ok e → d ∈ e.directivesOf .className →
        ∀ file, ∃ t, Token.ofText file d.argument = [t] ∧ t.kind = .identifier ∧
          t.value = d.argument := by
  intro usable
  obtain ⟨t, alone, kind, -⟩ := usable reservedClass .elide ⟨"b.dti"⟩ _
    ⟨.className, "buy", ⟨"b.dti"⟩, 1⟩ expand_reservedClass (List.mem_filter.2 ⟨.head _, rfl⟩) "b.dti"
  have action : Token.ofText "b.dti" "buy" = [⟨.keyword .buy, "buy", ⟨"b.dti", 1, 1⟩⟩] := by
    decide +kernel
  cases List.singleton_inj.1 (action.symm.trans alone)
  cases kind

end TradeScript
