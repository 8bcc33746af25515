import TradeScript.Proofs.Script.Margin

/-!
# The lines of the code of a script

The code of a script stands in lines (`Script.exists_lines_of_code`). Each line ends behind its
first brace or behind its first semicolon that is not in the header of a loop, and is indented by the
number of blocks that are open before it, less the one that it closes (`CodeLine.Follows`). This is
proved along the tokens, with the margin telling where the next word is set
(`CodeLine.exists_lines`).
-/

namespace TradeScript

/-- A word of some code, with the kind of its token. -/
abbrev CodeWord :=
  Terminal × List Char

/-- A line of code. -/
structure CodeLine where
  /-- The number of tabs at its start. -/
  depth : Nat
  words : List CodeWord

namespace CodeLine

open Text

/-- The kinds of the tokens of a line. -/
def kinds (line : CodeLine) : List Terminal :=
  line.words.map Prod.fst

/-- Words with a blank before each of them but the first, and nothing before a comma or a
semicolon. -/
def phrase : List (List Char) → List Char
  | [] => []
  | word :: words => word ++ words.flatMap fun next =>
    (if next = [','] ∨ next = [';'] then [] else [' ']) ++ next

/-- The text of a line. -/
def text (line : CodeLine) : List Char :=
  List.replicate line.depth '\t' ++ phrase (line.words.map Prod.snd)

/-! ## Where lines end -/

/-- Whether a semicolon behind some tokens belongs to the header of a loop, of which it is the first
semicolon or the second. -/
def InHeader (before : List Terminal) : Prop :=
  ∃ front header, before = front ++ .keyword .for :: header ∧
    header.count (.mark .semicolon) < 2

/-- Whether a token ends its line behind some others. -/
def EndsLine (before : List Terminal) (k : Terminal) : Prop :=
  k = .mark .leftBrace ∨ k = .mark .rightBrace ∨ k = .mark .semicolon ∧ ¬ InHeader before

/-- A line is as it has to be behind some tokens. -/
structure Follows (line : CodeLine) (before : List Terminal) : Prop where
  nonempty : line.words ≠ []
  /-- The line is indented by the number of blocks that are open before it, without the block that
  its first token may close. -/
  depth : line.depth + (before ++ line.kinds.take 1).count (.mark .rightBrace) =
    before.count (.mark .leftBrace)
  /-- Of the tokens of the line, the last one alone ends it. -/
  ends : ∀ front w back, line.words = front ++ w :: back →
    (EndsLine (before ++ front.map Prod.fst) w.1 ↔ back = [])

/-- Lines behind some tokens, each behind these and the lines above it. -/
def Stacked (before : List Terminal) (lines : List CodeLine) : Prop :=
  ∀ above line below, lines = above ++ line :: below →
    line.Follows (before ++ above.flatMap kinds)

theorem stacked_nil (before : List Terminal) : Stacked before [] := by
  intro above line below split
  simp at split

theorem Stacked.cons {before : List Terminal} {line : CodeLine} {lines : List CodeLine}
    (first : line.Follows before) (others : Stacked (before ++ line.kinds) lines) :
    Stacked before (line :: lines) := by
  intro above line' below split
  cases above with
  | nil =>
    obtain ⟨rfl, rfl⟩ := List.cons.inj split
    simpa using first
  | cons next above =>
    obtain ⟨rfl, rfl⟩ := List.cons.inj split
    rw [List.flatMap_cons, ← List.append_assoc]
    exact others above line' below rfl

/-! ### Semicolons of headers -/

/-- What is told apart by an element may be the last element or stand before it. -/
theorem concat_cases {α : Type} {front ahead back : List α} {x y : α}
    (h : front ++ [y] = ahead ++ x :: back) :
    (back = [] ∧ ahead = front ∧ x = y) ∨
      ∃ back', back = back' ++ [y] ∧ front = ahead ++ x :: back' := by
  rcases List.eq_nil_or_concat' back with rfl | ⟨back, last, rfl⟩
  · obtain ⟨rfl, same⟩ := List.append_inj' h rfl
    exact .inl ⟨rfl, rfl, (List.singleton_inj.1 same).symm⟩
  · rw [← List.cons_append, ← List.append_assoc] at h
    obtain ⟨rfl, same⟩ := List.append_inj' h rfl
    exact .inr ⟨back, by rw [same], rfl⟩

theorem exists_behind_concat_iff {α : Type} {x y : α} (other : x ≠ y) {before : List α}
    {p : List α → Prop} : (∃ front behind, before ++ [y] = front ++ x :: behind ∧ p behind) ↔
      ∃ front behind, before = front ++ x :: behind ∧ p (behind ++ [y]) := by
  constructor
  · rintro ⟨front, behind, split, holds⟩
    obtain ⟨-, -, same⟩ | ⟨behind, rfl, rfl⟩ := concat_cases split
    · exact absurd same other
    · exact ⟨front, behind, rfl, holds⟩
  · rintro ⟨front, behind, rfl, holds⟩
    exact ⟨front, behind ++ [y], by simp, holds⟩

/-- Semicolons are still to come if fewer than two stand behind a keyword of a loop. -/
theorem lt_pending_iff (before : List Terminal) (n : Nat) :
    n < before.foldl Terminal.pendingAfter 0 ↔ ∃ front header,
      before = front ++ .keyword .for :: header ∧ header.count (.mark .semicolon) + n < 2 := by
  induction before using List.reverseRecOn generalizing n with
  | nil => simp
  | append_singleton before k ih =>
    rw [List.foldl_append, List.foldl_cons, List.foldl_nil, Terminal.pendingAfter]
    split
    case isTrue loop =>
      subst loop
      constructor
      · intro few
        exact ⟨before, [], rfl, by simpa using few⟩
      · rintro ⟨front, header, -, few⟩
        omega
    case isFalse other =>
      rw [exists_behind_concat_iff (Ne.symm other)]
      simp only [List.count_append]
      split
      case isTrue semicolon =>
        subst semicolon
        simp only [List.count_singleton_self, Nat.add_assoc, ← ih, Nat.add_comm 1]
        omega
      case isFalse no_semicolon =>
        simp only [List.count_singleton, beq_iff_eq, no_semicolon, if_false, Nat.add_zero, ← ih]

theorem inHeader_iff (before : List Terminal) :
    InHeader before ↔ before.foldl Terminal.pendingAfter 0 ≠ 0 :=
  ((lt_pending_iff before 0).symm.trans Nat.pos_iff_ne_zero)

theorem endsLine_iff {before : List Terminal} {pending : Nat}
    (reached : pending = before.foldl Terminal.pendingAfter 0) (k : Terminal) :
    EndsLine before k ↔ k.setting (pending ≠ 0) ≠ .within := by
  unfold EndsLine Terminal.setting
  rw [inHeader_iff, ← reached]
  grind

end CodeLine

/-! ## Words as pieces -/

/-- The pieces of some words if the header of a loop still has some semicolons before them. -/
def Piece.ofWords (pending : Nat) : List CodeWord → List Piece
  | [] => []
  | w :: ws => ofSetting (w.1.setting (pending ≠ 0)) w.2 :: ofWords (w.1.pendingAfter pending) ws

theorem length_settings (pending : Nat) (ks : List Terminal) :
    (settings pending ks).length = ks.length := by
  induction ks generalizing pending with
  | nil => rfl
  | cons k ks ih => rw [settings, List.length_cons, ih, List.length_cons]

theorem Piece.map_ofWords (pending : Nat) (ws : List CodeWord) :
    (ofWords pending ws).map setting = settings pending (ws.map Prod.fst) ∧
      (ofWords pending ws).map text = ws.map Prod.snd := by
  induction ws generalizing pending with
  | nil => exact ⟨rfl, rfl⟩
  | cons w ws ih =>
    obtain ⟨set, texts⟩ := ih (w.1.pendingAfter pending)
    rw [ofWords, List.map_cons, List.map_cons, List.map_cons, List.map_cons, settings, set, texts]
    cases w.1.setting (pending ≠ 0) <;> exact ⟨rfl, rfl⟩

namespace CodeLine

open Text

/-! ## Lines one after the other -/

/-- The words of a line up to some margin, behind the tokens above the line. -/
structure Begun (before : List Terminal) (front : List CodeWord) (m : Margin) : Prop where
  fresh : m.fresh = true ↔ front = []
  depth : m.depth + before.count (.mark .rightBrace) = before.count (.mark .leftBrace)
  pending : m.pending = (before ++ front.map Prod.fst).foldl Terminal.pendingAfter 0
  within : ∀ ahead w back, front = ahead ++ w :: back →
    ¬ EndsLine (before ++ ahead.map Prod.fst) w.1

/-- The text of a line that has begun if it has any words. -/
def begun (depth : Nat) (front : List CodeWord) : List Char :=
  if front = [] then [] else text ⟨depth, front⟩

theorem text_concat (depth : Nat) (front : List CodeWord) (w : CodeWord) {fresh : Bool}
    (start : fresh = true ↔ front = []) :
    text ⟨depth, front ++ [w]⟩ = begun depth front ++ Piece.lead depth fresh w.2 ++ w.2 := by
  cases front with
  | nil => simp [text, begun, phrase, Piece.lead, start.2 rfl]
  | cons first front =>
    have within : fresh = false := by simpa using start
    simp [text, begun, phrase, Piece.lead, within]

section

variable {before : List Terminal} {front : List CodeWord} {m m' : Margin} {w : CodeWord}

theorem Begun.endsLine_iff (h : Begun before front m) :
    EndsLine (before ++ front.map Prod.fst) w.1 ↔ w.1.setting (m.pending ≠ 0) ≠ .within :=
  CodeLine.endsLine_iff h.pending w.1

/-- No braces stand in the words that a line begins with. -/
theorem Begun.count_eq_zero (h : Begun before front m) {k : Terminal}
    (brace : k = .mark .leftBrace ∨ k = .mark .rightBrace) : (front.map Prod.fst).count k = 0 := by
  rw [List.count_eq_zero]
  intro mem
  obtain ⟨w, mem_w, rfl⟩ := List.mem_map.1 mem
  obtain ⟨ahead, back, split⟩ := List.append_of_mem mem_w
  exact h.within ahead w back split (brace.elim .inl fun right => .inr (.inl right))

/-- A word within the line goes on with it. -/
theorem Begun.concat (h : Begun before front m)
    (set : w.1.setting (m.pending ≠ 0) = .within) :
    Begun before (front ++ [w]) ⟨m.depth, false, w.1.pendingAfter m.pending⟩ where
  fresh := by simp
  depth := h.depth
  pending := by simp [h.pending]
  within := by
    intro ahead w' back split
    obtain ⟨-, rfl, rfl⟩ | ⟨back, -, at_front⟩ := concat_cases split
    · rw [h.endsLine_iff]
      exact fun ends => ends set
    · exact h.within ahead w' back at_front

/-- Within a line no block is closed. -/
theorem Begun.around_eq (h : Begun before front m) (ended : m.Ended w.1 m') (some : front ≠ []) :
    m.around w.1 = m.depth := by
  have other : w.1 ≠ .mark .rightBrace := fun right => some (h.fresh.1 (ended.closes right))
  have none : [w.1].count (.mark .rightBrace) = 0 :=
    List.count_eq_zero.2 (by simpa using other.symm)
  rw [Margin.around, none, Nat.sub_zero]

/-- A word that ends the line leaves a line that is as it has to be. -/
theorem Begun.follows (h : Begun before front m)
    (set : w.1.setting (m.pending ≠ 0) ≠ .within) (ended : m.Ended w.1 m') :
    Follows ⟨m.around w.1, front ++ [w]⟩ before where
  nonempty := by simp
  depth := by
    have depth := h.depth
    have around := ended.around
    show m.around w.1 +
      (before ++ ((front ++ [w]).map Prod.fst).take 1).count (.mark .rightBrace) = _
    rw [List.count_append]
    cases front with
    | nil =>
      show m.around w.1 + (_ + [w.1].count (.mark .rightBrace)) = _
      omega
    | cons first front =>
      have other : first.1 ≠ .mark .rightBrace := fun right =>
        h.within [] first front rfl (.inr (.inl right))
      have none : [first.1].count (.mark .rightBrace) = 0 :=
        List.count_eq_zero.2 (by simpa using other.symm)
      rw [h.around_eq ended (List.cons_ne_nil _ _)]
      show m.depth + (_ + [first.1].count (.mark .rightBrace)) = _
      omega
  ends := by
    intro ahead w' back split
    obtain ⟨rfl, rfl, rfl⟩ | ⟨back, rfl, at_front⟩ := concat_cases split
    · rw [h.endsLine_iff]
      exact iff_of_true set rfl
    · exact iff_of_false (h.within ahead w' back at_front) (by simp)

/-- Behind a word that ends its line, a new line has begun. -/
theorem Begun.next (h : Begun before front m) (ended : m.Ended w.1 m') :
    Begun (before ++ (front ++ [w]).map Prod.fst) [] m' := by
  have left := h.count_eq_zero (.inl rfl)
  have right := h.count_eq_zero (.inr rfl)
  have depth := h.depth
  have around := ended.around
  have depth' := ended.depth
  refine ⟨iff_of_true ended.fresh rfl, ?_, ?_, by simp⟩
  · rw [List.map_append, List.map_singleton]
    simp only [List.count_append, left, right]
    omega
  · simp [ended.pending, h.pending]

/-- The text of some words, set behind a line that has begun, consists of lines that are as they
have to be. -/
theorem exists_lines {ws : List CodeWord} (h : Begun before front m)
    (run : m.run (ws.map Prod.fst) = some m') (fresh : m'.fresh = true) :
    ∃ lines, lines.flatMap CodeLine.words = front ++ ws ∧ Stacked before lines ∧
      begun m.depth front ++ Piece.render m.depth m.fresh (Piece.ofWords m.pending ws) =
        unlines (lines.map text) := by
  induction ws generalizing before front m with
  | nil =>
    obtain rfl := Option.some.inj run
    obtain rfl := h.fresh.1 fresh
    exact ⟨[], rfl, stacked_nil before, rfl⟩
  | cons w ws ih =>
    rw [List.map_cons, Margin.run_cons] at run
    obtain ⟨next, after, run⟩ := Option.bind_eq_some_iff.1 run
    have line (depth : Nat) := text_concat depth front w h.fresh
    rw [Piece.ofWords]
    rcases Margin.after_cases after with ⟨set, rfl⟩ | ⟨set, ended⟩
    · obtain ⟨lines, words, stacked, rendered⟩ := ih (h.concat set) run
      refine ⟨lines, by simpa using words, stacked, ?_⟩
      have begun_concat : begun m.depth (front ++ [w]) = text ⟨m.depth, front ++ [w]⟩ :=
        if_neg (by simp)
      rw [← rendered, begun_concat, line, set, Piece.ofSetting, Piece.render]
      simp
    · obtain ⟨lines, words, stacked, rendered⟩ := ih (h.next ended) run
      refine ⟨⟨m.around w.1, front ++ [w]⟩ :: lines, by simp [words],
        .cons (h.follows set ended) stacked, ?_⟩
      have begun_around : begun m.depth front = begun (m.around w.1) front := by
        by_cases none : front = []
        · rw [begun, begun, if_pos none, if_pos none]
        · rw [h.around_eq ended none]
      rw [List.map_cons, unlines, ← rendered, ended.render, line, ended.fresh, ended.pending,
        begun_around]
      simp [begun]

end

/-- Where every word has a visible character at its start, so has every line behind its tabs. -/
theorem text_of_visible {line : CodeLine} (some : line.words ≠ [])
    (visible : ∀ w ∈ line.words, ∃ c cs, w.2 = c :: cs ∧ isBlank c = false)
    (solid : ∀ w ∈ line.words, '\n' ∉ w.2) :
    '\n' ∉ line.text ∧ line.text.takeWhile (· = '\t') = List.replicate line.depth '\t' ∧
      ∃ c ∈ line.text, isBlank c = false := by
  obtain ⟨depth, words⟩ := line
  obtain ⟨w, ws, rfl⟩ := List.exists_cons_of_ne_nil some
  rw [List.forall_mem_cons] at visible solid
  obtain ⟨c, cs, spelled, first⟩ := visible.1
  have not_tab : c ≠ '\t' := by
    rintro rfl
    cases first
  have tabs : ∀ d ∈ List.replicate depth '\t', decide (d = '\t') = true := by simp
  refine ⟨?_, ?_, c, by simp [text, phrase, spelled], first⟩
  · simp only [text, phrase, List.map_cons, List.mem_append, List.mem_replicate, List.mem_flatMap,
      List.mem_map, not_or]
    refine ⟨by simp, solid.1, ?_⟩
    rintro ⟨_, ⟨w', mem, rfl⟩, blank | inside⟩
    · split at blank
      · cases blank
      · simp at blank
    · exact solid.2 w' mem inside
  · rw [text, List.takeWhile_append_of_pos tabs]
    simp [phrase, spelled, not_tab]

end CodeLine

/-- A token begins with a visible character. -/
theorem Token.Spelling.visible {k : Terminal} {text : List Char} (h : Spelling k text) :
    ∃ c cs, text = c :: cs ∧ Text.isBlank c = false := by
  have word {c : Char} {cs : List Char} (all : (c :: cs).all Text.isWordChar = true) :
      Text.isBlank c = false :=
    Text.isBlank_eq_false_of_isWordChar (List.all_eq_true.1 all c List.mem_cons_self)
  cases h with
  | word some all =>
    obtain ⟨c, cs, rfl⟩ := List.exists_cons_of_ne_nil some
    exact ⟨c, cs, rfl, word all⟩
  | decimal some all some' all' =>
    obtain ⟨c, cs, rfl⟩ := List.exists_cons_of_ne_nil some
    exact ⟨c, _, rfl, word (all_isWordChar_of_isDigit all)⟩
  | fraction some all => exact ⟨_, _, rfl, rfl⟩
  | mark m => exact ⟨_, _, rfl, by cases m <;> decide⟩
  | operator o => exact ⟨_, _, rfl, by cases o <;> decide⟩
  | literal q closed => exact ⟨_, _, rfl, by cases q <;> decide⟩

namespace Script

open Grammar Text CodeLine

variable {tokens : List Token} {t : Tree}

/-- The code of a script is made of words, set as the kinds of their tokens tell. -/
theorem exists_words (h : Tree.parse grammar .program tokens = .ok t) :
    ∃ ws : List CodeWord, ws.map Prod.fst = (t.rewritten tokens).map Prod.fst ∧
      ws.map Prod.snd = t.codeWords ∧ t.pieces false = Piece.ofWords 0 ws := by
  have set := settings_of_parse h
  have texts := t.text_pieces false
  have length : ((t.rewritten tokens).map Prod.fst).length = t.codeWords.length := by
    rw [← length_settings 0, ← set, ← texts, List.length_map, List.length_map]
  have kinds := List.map_fst_zip (Nat.le_of_eq length)
  have words := List.map_snd_zip (Nat.le_of_eq length.symm)
  refine ⟨_, kinds, words, Piece.eq_of_map_eq ?_ ?_⟩
  · rw [set, (Piece.map_ofWords 0 _).1, kinds]
  · rw [texts, (Piece.map_ofWords 0 _).2, words]

/-- The code of a script stands in some lines. -/
structure StandsIn (tokens : List Token) (t : Tree) (lines : List CodeLine) : Prop where
  kinds : (lines.flatMap CodeLine.words).map Prod.fst = (t.rewritten tokens).map Prod.fst
  words : (lines.flatMap CodeLine.words).map Prod.snd = t.codeWords
  stacked : Stacked [] lines
  code : t.code.toList = unlines (lines.map CodeLine.text)

theorem exists_standsIn (h : Tree.parse grammar .program tokens = .ok t) :
    ∃ lines, StandsIn tokens t lines := by
  obtain ⟨ws, kinds, texts, pieces⟩ := exists_words h
  have run := run_of_parse h
  rw [← kinds] at run
  have start : Begun [] [] Margin.start := ⟨iff_of_true rfl rfl, rfl, rfl, by simp⟩
  obtain ⟨lines, words, stacked, rendered⟩ := exists_lines start run rfl
  rw [List.nil_append] at words
  refine ⟨lines, by rw [words, kinds], by rw [words, texts], stacked, ?_⟩
  rw [← rendered, Tree.code, String.toList_ofList, pieces]
  rfl

/-- Where words spell the kinds of their tokens, these are the words of the lines. -/
theorem StandsIn.words_eq {lines : List CodeLine} (h : StandsIn tokens t lines)
    (spelled : Spell t.codeWords (t.rewritten tokens)) :
    lines.flatMap CodeLine.words = (t.rewritten tokens).map fun l => (l.1, l.2.toList) := by
  rw [List.zip_of_prod h.kinds (h.words.trans spelled.1.symm), List.zip_map']

/-- Where words spell the kinds of their tokens, each line can be told by its text. -/
theorem StandsIn.text_of_mem {lines : List CodeLine} (h : StandsIn tokens t lines)
    (spelled : Spell t.codeWords (t.rewritten tokens)) {line : CodeLine} (mem : line ∈ lines) :
    '\n' ∉ line.text ∧ line.text.takeWhile (· = '\t') = List.replicate line.depth '\t' ∧
      ∃ c ∈ line.text, isBlank c = false := by
  have spells : ∀ w ∈ line.words, Token.Spelling w.1 w.2 := by
    intro w mem_w
    have among : w ∈ lines.flatMap CodeLine.words := List.mem_flatMap.2 ⟨line, mem, mem_w⟩
    rw [h.words_eq spelled] at among
    obtain ⟨l, mem_l, rfl⟩ := List.mem_map.1 among
    exact spelled.2 l mem_l
  obtain ⟨above, below, split⟩ := List.append_of_mem mem
  exact text_of_visible (h.stacked above line below split).nonempty
    (fun w mem_w => (spells w mem_w).visible)
    (fun w mem_w => (solid_of_spelling (spells w mem_w)).line)

/-- The code of a script stands in lines that each end with a newline, break behind braces and
semicolons, and are indented by their blocks. The lines of the code of a script that has been lexed
have the tokens of the code for words, and none is blank. -/
theorem exists_lines_of_code (parsed : Tree.parse grammar .program tokens = .ok t) :
    ∃ lines, StandsIn tokens t lines ∧ (t.code = "" ∨ t.code.toList.getLast? = some '\n') ∧
      ∀ {file text : String} {names : List String},
        tokens = (Token.ofText file text).map (Token.markIndicator names) →
          (∀ file', (Token.ofText file' t.code).map (fun u => (u.kind, u.value.toList)) =
            lines.flatMap CodeLine.words) ∧
          split '\n' t.code.toList = lines.map CodeLine.text ++ [[]] ∧
          ∀ line ∈ lines, line.text.takeWhile (· = '\t') = List.replicate line.depth '\t' ∧
            ∃ c ∈ line.text, isBlank c = false := by
  obtain ⟨lines, stands⟩ := exists_standsIn parsed
  refine ⟨lines, stands, ?_, ?_⟩
  · rw [← String.toList_eq_nil_iff, stands.code]
    exact unlines_eq_nil_or_getLast? _
  · intro file text names lexed
    obtain ⟨-, spelled⟩ := spell_tree parsed (by rw [lexed]; exact fun u mem => written_of_mem mem)
    have each := fun line (mem : line ∈ lines) => stands.text_of_mem spelled mem
    refine ⟨fun file' => ?_, ?_, fun line mem => (each line mem).2⟩
    · have lexemes := lexemes_of_spell spelled t.spaced_code file'
      rw [String.ofList_toList] at lexemes
      rw [stands.words_eq spelled, ← lexemes, List.map_map]
      rfl
    · rw [stands.code, split_unlines]
      rw [List.forall_mem_map]
      exact fun line mem => (each line mem).1

/-! ### A loop in a block -/

/-- A column of the script `{for(;;);}`. -/
def loopColumn (column : Nat) : Position :=
  ⟨"a.dts", 1, column⟩

/-- The tokens of the script `{for(;;);}`. -/
def loopTokens : List Token :=
  [⟨.mark .leftBrace, "\x7b", loopColumn 1⟩, ⟨.keyword .for, "for", loopColumn 2⟩,
    ⟨.mark .leftParen, "(", loopColumn 5⟩, ⟨.mark .semicolon, ";", loopColumn 6⟩,
    ⟨.mark .semicolon, ";", loopColumn 7⟩, ⟨.mark .rightParen, ")", loopColumn 8⟩,
    ⟨.mark .semicolon, ";", loopColumn 9⟩, ⟨.mark .rightBrace, "\x7d", loopColumn 10⟩]

theorem ofText_loop : Token.ofText "a.dts" "\x7bfor(;;);\x7d" = loopTokens := by
  decide +kernel

/-- The tree of the script `{for(;;);}`. -/
def loopTree : Tree :=
  .node .program 0 (loopColumn 1) [.node .item 1 (loopColumn 1)
    [.node .statement 0 (loopColumn 1) [.node .block 0 (loopColumn 1)
      [.leaf ⟨.mark .leftBrace, "\x7b", loopColumn 1⟩,
        .node .statement 4 (loopColumn 2) [.node .forStatement 0 (loopColumn 2)
          [.leaf ⟨.keyword .for, "for", loopColumn 2⟩,
            .leaf ⟨.mark .leftParen, "(", loopColumn 5⟩,
            .node .forInitializer 2 (loopColumn 6) [.node .emptyStatement 0 (loopColumn 6)
              [.leaf ⟨.mark .semicolon, ";", loopColumn 6⟩]],
            .leaf ⟨.mark .semicolon, ";", loopColumn 7⟩,
            .leaf ⟨.mark .rightParen, ")", loopColumn 8⟩,
            .node .statement 10 (loopColumn 9) [.node .emptyStatement 0 (loopColumn 9)
              [.leaf ⟨.mark .semicolon, ";", loopColumn 9⟩]]]],
        .leaf ⟨.mark .rightBrace, "\x7d", loopColumn 10⟩]]]]

theorem parse_loop : Tree.parse grammar .program loopTokens = .ok loopTree := by
  have empty (t : Token) (kind : t.kind = .mark .semicolon) (rest : List Token) := Reads.phrase
    (by decide +kernel : (grammar.alternatives .emptyStatement)[0]? = some [mark .semicolon])
    (reads_leaf kind (.nil rest) : grammar.Reads NearestElse _ (t :: rest) _ rest) trivial
  have initializer := Reads.phrase
    (by decide +kernel : (grammar.alternatives .forInitializer)[2]? =
      some [phrase .emptyStatement])
    (reads_phrase (empty loopTokens[3] rfl (loopTokens.drop 4)) (.nil _)) trivial
  have body := Reads.phrase
    (by decide +kernel : (grammar.alternatives .statement)[10]? = some [phrase .emptyStatement])
    (reads_phrase (empty loopTokens[6] rfl (loopTokens.drop 7)) (.nil _)) trivial
  have loop := Reads.phrase
    (by decide +kernel : (grammar.alternatives .forStatement)[0]? =
      some (keyword .for :: (loopHeader ++ [phrase .statement])))
    (reads_leaf rfl (reads_leaf rfl (reads_phrase initializer (.cons (.omitted _ _)
      (reads_leaf rfl (.cons (.omitted _ _) (reads_leaf rfl (reads_phrase body (.nil _))))))))
      : grammar.Reads NearestElse _ loopTokens.tail _ _) trivial
  have inner := Reads.phrase
    (by decide +kernel : (grammar.alternatives .statement)[4]? = some [phrase .forStatement])
    (reads_phrase loop (.nil _)) trivial
  have block := Reads.phrase
    (by decide +kernel : (grammar.alternatives .block)[0]? =
      some [mark .leftBrace, many .statement, mark .rightBrace])
    (reads_leaf rfl (.cons (.repeated (.manyCons inner (.manyNil _ _))) (reads_leaf rfl (.nil [])))
      : grammar.Reads NearestElse _ loopTokens _ []) trivial
  have item := reads_statementItem
    (by decide +kernel : (grammar.alternatives .statement)[0]? = some [phrase .block]) block
  exact parse_of_items (.manyCons item (.manyNil _ []))

/-- The loop stands on one line of the code, with a tab before it. -/
theorem exists_lines_of_loop :
    ∃ lines : List CodeLine, lines.map CodeLine.text =
        ["\x7b".toList, "\tfor (;; );".toList, "\x7d".toList] ∧
      Stacked [] lines ∧
      lines.flatMap CodeLine.words = loopTokens.map fun u => (u.kind, u.value.toList) := by
  have marked : loopTokens =
      (Token.ofText "a.dts" "\x7bfor(;;);\x7d").map (Token.markIndicator []) := by
    rw [ofText_loop]
    decide
  obtain ⟨lines, stands, -, lexed⟩ := exists_lines_of_code parse_loop
  obtain ⟨words, split, -⟩ := lexed marked
  refine ⟨lines, ?_, stands.stacked, ?_⟩
  · have texts : Text.split '\n' loopTree.code.toList =
        ["\x7b".toList, "\tfor (;; );".toList, "\x7d".toList] ++ [[]] := by
      decide +kernel
    exact List.append_cancel_right (split.symm.trans texts)
  · rw [← words "a.cpp"]
    decide +kernel

end Script

end TradeScript
