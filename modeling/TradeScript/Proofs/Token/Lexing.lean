import TradeScript.Proofs.Token.Spelling

/-!
# Lexing words with gaps between them

Words are written with gaps between them (`Text.Spaced`): runs of blanks, tabs and newlines, which
may be empty before a comma or a semicolon. If each word is read as one token wherever such a gap
follows it (`Token.ReadAlone`), the text is lexed to these tokens (`Token.lexemes_of_spaced`). Words
that spell a token are read like this (`Token.lex_spelling`).
-/

namespace TradeScript

open Fragment

/-! ## Gaps -/

namespace Text

/-- The characters of gaps between words. -/
def isGap (c : Char) : Bool :=
  c = ' ' || c = '\t' || c = '\n'

/-- No word goes on with the given text. -/
def Breaks (rest : List Char) : Prop :=
  ∀ c ∈ rest.head?, isGap c = true ∨ c = ',' ∨ c = ';'

/-- A text consists of the given words with gaps between and around them. -/
inductive Spaced : (words : List (List Char)) → (text : List Char) → Prop
  | nil {gap : List Char} (blank : gap.all isGap = true) : Spaced [] gap
  | cons {gap word rest : List Char} {others : List (List Char)} (blank : gap.all isGap = true)
      (breaks : Breaks rest) (more : Spaced others rest) :
      Spaced (word :: others) (gap ++ word ++ rest)

theorem breaks_nil : Breaks [] := by
  simp [Breaks]

theorem isBlank_of_isGap {c : Char} (h : isGap c = true) : isBlank c = true := by
  simp only [isGap, Bool.or_eq_true, decide_eq_true_eq] at h
  rcases h with (rfl | rfl) | rfl <;> decide

theorem isWordChar_of_breaks {rest : List Char} (h : Breaks rest) :
    ∀ c ∈ rest.head?, isWordChar c = false := by
  intro c mem
  rcases h c mem with gap | rfl | rfl
  · simp only [isGap, Bool.or_eq_true, decide_eq_true_eq] at gap
    rcases gap with (rfl | rfl) | rfl <;> decide
  · decide
  · decide

end Text

open Text

/-! ## Steps of the scanner -/

namespace Fragment

theorem read?_eq_none {c : Char} (unsigned : c ≠ Marker.sign) (body : List Char) :
    Marker.read? (c :: body) = none := by
  unfold Marker.read?
  dsimp only
  split
  · rfl
  · rw [if_neg unsigned]

theorem scan_cut {c : Char} (visible : isBlank c = false) (unsigned : c ≠ Marker.sign)
    (here : Position) (glued : Bool) (cs : List Char) :
    scan here glued (c :: cs) = ⟨(cut c cs).1, (cut c cs).2.1, here, glued⟩ ::
      scan (here.advance (cut c cs).2.1.length) true (cut c cs).2.2 := by
  have not_newline : c ≠ '\n' := by
    rintro rfl
    cases visible
  rw [scan, if_neg not_newline]
  simp [read?_eq_none unsigned, visible]

theorem scan_gap {c : Char} (gap : isGap c = true) (here : Position) (glued : Bool)
    (cs : List Char) : ∃ next, scan here glued (c :: cs) = scan next false cs := by
  rw [scan]
  by_cases newline : c = '\n'
  · exact ⟨here.nextLine, if_pos newline⟩
  · have unsigned : c ≠ Marker.sign := by
      rintro rfl
      cases gap
    refine ⟨here.advance 1, ?_⟩
    rw [if_neg newline]
    simp [read?_eq_none unsigned, isBlank_of_isGap gap]

theorem scan_gaps {gap : List Char} (blank : gap.all isGap = true) (here : Position)
    (glued : Bool) (cs : List Char) :
    ∃ next glued', scan here glued (gap ++ cs) = scan next glued' cs := by
  induction gap generalizing here glued with
  | nil => exact ⟨here, glued, rfl⟩
  | cons c gap ih =>
    simp only [List.all_cons, Bool.and_eq_true] at blank
    obtain ⟨next, step⟩ := scan_gap blank.1 here glued (gap ++ cs)
    obtain ⟨last, glued', steps⟩ := ih blank.2 next false
    exact ⟨last, glued', step.trans steps⟩

theorem glued_of_mem_head?_scan {here : Position} {glued : Bool} {cs : List Char} {f : Fragment}
    (h : f ∈ (scan here glued cs).head?) (loose : glued = false) : f.glued = false := by
  fun_induction scan here glued cs with
  | case1 => cases h
  | case2 here glued cs ih => exact ih h rfl
  | case3 here glued c cs not_newline line file read ih => exact ih h rfl
  | case4 here glued c cs not_newline read blank ih => exact ih h rfl
  | case5 here glued c cs not_newline read visible ih =>
    cases h
    exact loose

/-- No fragment joins the first of the given ones to a token with it. -/
def Detached (fs : List Fragment) : Prop :=
  ∀ f ∈ fs.head?, f.glued = true → f.kind = .mark .comma ∨ f.kind = .mark .semicolon

theorem detached_scan {rest : List Char} (h : Breaks rest) (here : Position) :
    Detached (scan here true rest) := by
  cases rest with
  | nil => simp [scan, Detached]
  | cons c cs =>
    intro f mem glued
    rcases h c rfl with gap | rfl | rfl
    · obtain ⟨next, step⟩ := scan_gap gap here true cs
      rw [step] at mem
      rw [glued_of_mem_head?_scan mem rfl] at glued
      cases glued
    · rw [scan_cut (by decide) (by decide)] at mem
      cases mem
      exact .inl rfl
    · rw [scan_cut (by decide) (by decide)] at mem
      cases mem
      exact .inr rfl

end Fragment

namespace Token

/-! ## Fragments that form a token of their own -/

theorem joined_word {f : Fragment} {fs : List Fragment} (kind : f.kind = .word)
    (h : Detached fs) : joined f fs = (some (wordKind f.text), [], fs) := by
  simp only [joined, kind]
  split
  · next point digits rest =>
    rw [if_neg]
    rintro ⟨-, glued, is_point, -⟩
    have other := h point rfl glued
    simp [is_point] at other
  · rfl

theorem ofMarks?_eq_none (m : Mark) :
    Operator.ofMarks? m .comma = none ∧ Operator.ofMarks? m .semicolon = none := by
  cases m <;> decide

theorem joined_mark {f : Fragment} {fs : List Fragment} {m : Mark} (kind : f.kind = .mark m)
    (h : Detached fs) : joined f fs = (some (.mark m), [], fs) := by
  simp only [joined, kind]
  split
  · next g rest =>
    cases glued : g.glued with
    | false => simp
    | true =>
      have no_operator := ofMarks?_eq_none m
      rcases h g rfl glued with kind_g | kind_g
      · simp [kind_g, Fragment.isDigits, no_operator.1]
      · simp [kind_g, Fragment.isDigits, no_operator.2]
  · rfl

/-! ## Fragments that join -/

theorem joined_decimal {f point digits : Fragment} (whole : f.isDigits = true)
    (is_point : point.kind = .mark .period) (glued : point.glued = true)
    (fraction : digits.isDigits = true) (glued' : digits.glued = true) (fs : List Fragment) :
    joined f (point :: digits :: fs) = (some .number, [point, digits], fs) := by
  simp [joined, (all_isDigit_of_isDigits whole).1, whole, is_point, glued, fraction, glued']

theorem joined_fraction {f digits : Fragment} (is_point : f.kind = .mark .period)
    (fraction : digits.isDigits = true) (glued : digits.glued = true) (fs : List Fragment) :
    joined f (digits :: fs) = (some .number, [digits], fs) := by
  simp [joined, is_point, glued, fraction]

theorem joined_operator {f g : Fragment} {o : Operator} (first : f.kind = .mark o.marks.1)
    (second : g.kind = .mark o.marks.2) (glued : g.glued = true) (fs : List Fragment) :
    joined f (g :: fs) = (some (.operator o), [g], fs) := by
  have found : Operator.ofMarks? o.marks.1 o.marks.2 = some o :=
    Operator.ofMarks?_eq_some_iff.2 rfl
  simp [joined, first, second, glued, found, Fragment.isDigits]

theorem lexemes_cons {f : Fragment} {fs more rest : List Fragment} {k : Terminal}
    (h : joined f fs = (some k, more, rest)) :
    (ofFragments (f :: fs)).map lexeme =
      (k, String.ofList (f.text ++ more.flatMap Fragment.text)) ::
        (ofFragments rest).map lexeme := by
  rw [ofFragments]
  simp [h, lexeme]

/-! ## Words -/

theorem cut_word {c : Char} {cs rest : List Char} (all : (c :: cs).all isWordChar = true)
    (stops : ∀ d ∈ rest.head?, isWordChar d = false) :
    cut c (cs ++ rest) = (.word, c :: cs, rest) := by
  simp only [List.all_cons, Bool.and_eq_true, List.all_eq_true] at all
  have none_more : rest.takeWhile isWordChar = [] ∧ rest.dropWhile isWordChar = rest := by
    cases rest with
    | nil => exact ⟨rfl, rfl⟩
    | cons d rest => simp [stops d rfl]
  simp only [cut, all.1, if_true, List.takeWhile_append_of_pos all.2,
    List.dropWhile_append_of_pos all.2, none_more, List.append_nil]

theorem scan_word {text rest : List Char} (some : text ≠ []) (all : text.all isWordChar = true)
    (stops : ∀ d ∈ rest.head?, isWordChar d = false) (here : Position) (glued : Bool) :
    scan here glued (text ++ rest) =
      ⟨.word, text, here, glued⟩ :: scan (here.advance text.length) true rest := by
  cases text with
  | nil => exact absurd rfl some
  | cons c cs =>
    have first : isWordChar c = true := by
      simp only [List.all_cons, Bool.and_eq_true] at all
      exact all.1
    have unsigned : c ≠ Marker.sign := by
      rintro rfl
      cases first
    rw [List.cons_append, scan_cut (isBlank_eq_false_of_isWordChar first) unsigned,
      cut_word all stops]

theorem scan_mark (m : Mark) (here : Position) (glued : Bool) (rest : List Char) :
    scan here glued (m.char :: rest) =
      ⟨.mark m, [m.char], here, glued⟩ :: scan (here.advance 1) true rest := by
  have visible : isBlank m.char = false := by cases m <;> decide
  have unsigned : m.char ≠ Marker.sign := by cases m <;> decide
  have cut_eq : cut m.char rest = (.mark m, [m.char], rest) := by
    have not_word : isWordChar m.char = false := by cases m <;> decide
    have not_quote : Quote.ofChar? m.char = none := by cases m <;> decide
    have found : Mark.ofChar? m.char = some m := Mark.ofChar?_eq_some_iff.2 rfl
    simp [cut, not_word, not_quote, found]
  rw [scan_cut visible unsigned, cut_eq]
  rfl

theorem scan_literal (q : Quote) {body : List Char}
    (closed : closing? q.char body = some (body, [])) (here : Position) (glued : Bool)
    (rest : List Char) : scan here glued (q.char :: body ++ rest) =
      ⟨.literal q, q.char :: body, here, glued⟩ ::
        scan (here.advance (body.length + 1)) true rest := by
  have visible : isBlank q.char = false := by cases q <;> decide
  have unsigned : q.char ≠ Marker.sign := by cases q <;> decide
  have cut_eq : cut q.char (body ++ rest) = (.literal q, q.char :: body, rest) := by
    have not_word : isWordChar q.char = false := by cases q <;> decide
    have found : Quote.ofChar? q.char = some q := by cases q <;> decide
    simp [cut, not_word, found, closing?_append_right closed rest]
  rw [List.cons_append, scan_cut visible unsigned, cut_eq]
  rfl

theorem all_isWordChar_of_isDigit {text : List Char} (h : text.all isDigit = true) :
    text.all isWordChar = true := by
  rw [List.all_eq_true] at h ⊢
  intro c mem
  simp [isWordChar, h c mem]

/-- If no word goes on with what follows, `text` is read as one token of kind `k`. -/
def ReadAlone (k : Terminal) (text : List Char) : Prop :=
  ∀ rest, Breaks rest → ∀ here glued, ∃ next,
    (ofFragments (scan here glued (text ++ rest))).map lexeme =
      (k, String.ofList text) :: (ofFragments (scan next true rest)).map lexeme

theorem lex_spelling {k : Terminal} {text : List Char} (h : Spelling k text) :
    ReadAlone k text := by
  intro rest breaks here glued
  have stops := isWordChar_of_breaks breaks
  have detached := detached_scan breaks
  cases h with
  | word some all =>
    refine ⟨here.advance text.length, ?_⟩
    rw [scan_word some all stops, lexemes_cons (joined_word rfl (detached _))]
    simp
  | @decimal whole fraction some all some' all' =>
    refine ⟨((here.advance whole.length).advance 1).advance fraction.length, ?_⟩
    have point_stops : ∀ d ∈ ('.' :: (fraction ++ rest)).head?, isWordChar d = false := by
      rintro d ⟨⟩
      decide
    have point : scan (here.advance whole.length) true ('.' :: (fraction ++ rest)) = _ :=
      scan_mark .period _ true _
    rw [List.append_assoc, List.cons_append,
      scan_word some (all_isWordChar_of_isDigit all) point_stops, point,
      scan_word some' (all_isWordChar_of_isDigit all') stops]
    rw [lexemes_cons (joined_decimal (by simp [Fragment.isDigits, all]) rfl rfl
      (by simp [Fragment.isDigits, all']) rfl _)]
    simp [Mark.char]
  | @fraction digits some all =>
    refine ⟨(here.advance 1).advance digits.length, ?_⟩
    have point : scan here glued ('.' :: (digits ++ rest)) = _ := scan_mark .period here glued _
    rw [List.cons_append, point, scan_word some (all_isWordChar_of_isDigit all) stops]
    rw [lexemes_cons (joined_fraction rfl (by simp [Fragment.isDigits, all]) rfl _)]
    simp [Mark.char]
  | mark m =>
    refine ⟨here.advance 1, ?_⟩
    rw [List.singleton_append, scan_mark, lexemes_cons (joined_mark rfl (detached _))]
    simp
  | operator o =>
    refine ⟨(here.advance 1).advance 1, ?_⟩
    rw [List.cons_append, List.singleton_append, scan_mark, scan_mark]
    rw [lexemes_cons (joined_operator rfl rfl rfl _)]
    simp
  | @literal q body closed =>
    refine ⟨here.advance (body.length + 1), ?_⟩
    have alone : joined ⟨.literal q, q.char :: body, here, glued⟩
        (scan (here.advance (body.length + 1)) true rest) = (some q.terminal, [], _) := rfl
    rw [scan_literal q closed, lexemes_cons alone]
    simp

/-- A text is lexed to what its words are read as, whatever the gaps. -/
theorem lexemes_of_spaced {lexemes : List (Terminal × String)} {text : List Char}
    (h : Spaced (lexemes.map fun l => l.2.toList) text)
    (alone : ∀ l ∈ lexemes, ReadAlone l.1 l.2.toList) (here : Position) (glued : Bool) :
    (ofFragments (scan here glued text)).map lexeme = lexemes := by
  generalize words_eq : lexemes.map (fun l => l.2.toList) = words at h
  induction h generalizing lexemes here glued with
  | @nil gap blank =>
    obtain rfl := List.map_eq_nil_iff.1 words_eq
    obtain ⟨next, glued', step⟩ := scan_gaps blank here glued []
    rw [List.append_nil] at step
    rw [step]
    simp [scan, ofFragments]
  | @cons gap word rest others blank breaks more ih =>
    cases lexemes with
    | nil => cases words_eq
    | cons l lexemes =>
      obtain ⟨rfl, rest_eq⟩ := List.cons.inj words_eq
      rw [List.forall_mem_cons] at alone
      obtain ⟨start, glued', step⟩ := scan_gaps blank here glued (l.2.toList ++ rest)
      obtain ⟨next, step'⟩ := alone.1 rest breaks start glued'
      rw [List.append_assoc, step, step', ih alone.2 next true rest_eq]
      simp

end Token

end TradeScript
