import Mathlib.Data.List.DropRight
import Mathlib.Data.List.Infix
import TradeScript.Proofs.Token.Line

/-!
# Lexing in one pass

A text can also be lexed without fragments, in one pass that takes at every place the longest token
that starts there (`Token.longest`, `Token.scanOnce`). On every text without markers this gives the
tokens that adjacent fragments are joined to (`Token.ofText_eq_scanOnce`).
-/

namespace TradeScript

open Text Fragment

namespace Token

/-! ## The longest token at the front of a text -/

/-- The longest run of word characters at the front, if it consists of digits. -/
def digits? (cs : List Char) : Option (List Char) :=
  if cs.takeWhile isWordChar ≠ [] ∧ (cs.takeWhile isWordChar).all isDigit = true then
    some (cs.takeWhile isWordChar)
  else none

/-- A period at the front and the digits directly behind it. -/
def fraction? : List Char → Option (List Char)
  | [] => none
  | c :: cs => if c = '.' then (digits? cs).map (c :: ·) else none

/-- Whether the character behind `front` is escaped: an odd number of backslashes stands directly
before it. -/
def escapes (front : List Char) : Bool :=
  (front.rtakeWhile (· = '\\')).length % 2 = 1

/-- Whether the last of some characters is an unescaped quote. -/
def endsLiteral (quote : Char) (front : List Char) : Bool :=
  front.getLast? = some quote && !escapes front.dropLast

/-- The rest of a literal after its opening quote: the shortest start of the line that ends with an
unescaped quote. -/
def literal? (quote : Char) (line : List Char) : Option (List Char) :=
  line.inits.find? (endsLiteral quote)

/-- The operator whose two characters stand at the front. -/
def operator? (cs : List Char) : Option Operator :=
  Operator.all.find? fun o => [o.marks.1.char, o.marks.2.char].isPrefixOf cs

/-- The kind and the text of the longest token at the front of a text that starts with a character
other than a blank. A literal that its line does not close has no kind. -/
def longest (c : Char) (cs : List Char) : Option Terminal × List Char :=
  if isWordChar c then
    let word := c :: cs.takeWhile isWordChar
    if word.all isDigit then
      (some .number, word ++ (fraction? (cs.dropWhile isWordChar)).getD [])
    else if isDigit c then (some .unknown, word)
    else (some ((Terminal.ofReserved? (String.ofList word)).getD .identifier), word)
  else
    match Quote.ofChar? c, fraction? (c :: cs), operator? (c :: cs) with
    | some q, _, _ =>
      let line := cs.takeWhile (· ≠ '\n')
      match literal? c line with
      | some body => (some q.terminal, c :: body)
      | none => (none, c :: line)
    | none, some number, _ => (some .number, number)
    | none, none, some o => (some (.operator o), [o.marks.1.char, o.marks.2.char])
    | none, none, none => (some (((Mark.ofChar? c).map .mark).getD .unknown), [c])

/-- The tokens of a text whose first character stands at `here`, found in one pass. -/
def scanOnce (here : Position) : List Char → List Token
  | [] => []
  | c :: cs =>
    if c = '\n' then scanOnce here.nextLine cs
    else if isBlank c then scanOnce (here.advance 1) cs
    else
      let text := (longest c cs).2
      let others := scanOnce (here.advance text.length) (cs.drop (text.length - 1))
      match (longest c cs).1 with
      | some kind => ⟨kind, String.ofList text, here⟩ :: others
      | none => others
  termination_by cs => cs.length
  decreasing_by
    · exact Nat.lt_succ_self _
    · exact Nat.lt_succ_self _
    · rw [List.length_drop]
      exact Nat.lt_succ_of_le (Nat.sub_le _ _)

/-! ## Literals -/

theorem escapes_cons {c : Char} (other : c ≠ '\\') (front : List Char) :
    escapes (c :: front) = escapes front := by
  simp only [escapes, List.rtakeWhile, List.reverse_cons, List.length_reverse,
    List.takeWhile_append]
  split
  · next all => simp [all, other]
  · rfl

theorem escapes_backslash (c : Char) (front : List Char) :
    escapes ('\\' :: c :: front) = escapes front := by
  simp only [escapes, List.rtakeWhile, List.reverse_cons, List.append_assoc, List.length_reverse,
    List.takeWhile_append]
  split
  · next all => by_cases backslash : c = '\\' <;> simp [backslash, all]
  · rfl

theorem endsLiteral_nil (quote : Char) : endsLiteral quote [] = false :=
  rfl

theorem endsLiteral_cons {quote c : Char} (other : c ≠ quote) (plain : c ≠ '\\')
    (front : List Char) : endsLiteral quote (c :: front) = endsLiteral quote front := by
  cases front with
  | nil => simp [endsLiteral, other]
  | cons d front => simp [endsLiteral, escapes_cons plain]

theorem endsLiteral_backslash (quote c : Char) (front : List Char) :
    endsLiteral quote ('\\' :: c :: front) = endsLiteral quote front := by
  cases front with
  | nil =>
    have escaped : escapes ['\\'] = true := by decide
    simp [endsLiteral, escaped]
  | cons d front => simp [endsLiteral, escapes_backslash]

/-- The search for the end of a literal finds the first unescaped quote. -/
theorem literal?_eq {quote : Char} (unslashed : quote ≠ '\\') {line : List Char}
    (inside : '\n' ∉ line) :
    literal? quote line = (closing? quote line).map Prod.fst := by
  have slash_only : endsLiteral quote ['\\'] = false := by
    simp [endsLiteral, unslashed.symm]
  fun_induction closing? quote line with
  | case1 => rfl
  | case2 => simp at inside
  | case3 => simp [literal?, endsLiteral_nil, slash_only]
  | case4 => simp at inside
  | case5 d ds _ _ ih =>
    simp only [List.mem_cons, not_or] at inside
    have later := ih inside.2.2
    rw [literal?] at later
    simp [literal?, endsLiteral_nil, slash_only, Function.comp_def,
      endsLiteral_backslash, later]
  | case6 cs _ _ =>
    cases cs <;> simp [literal?, endsLiteral, escapes]
  | case7 c cs _ plain other ih =>
    rw [List.mem_cons, not_or] at inside
    have later := ih inside.2
    rw [literal?] at later
    simp [literal?, endsLiteral_nil, Function.comp_def, endsLiteral_cons other plain, later]

end Token

/-! ## Glued fragments -/

namespace Fragment

/-- A fragment that is glued to what stands before it was cut from the front. -/
theorem Plain.scan_glued {here : Position} {cs : List Char} (h : Plain here cs) {f : Fragment}
    {fs : List Fragment} (whole : scan here true cs = f :: fs) (glued : f.glued = true) :
    ∃ c rest, cs = c :: rest ∧ f.kind = (cut c rest).1 ∧ f.text = (cut c rest).2.1 ∧
      fs = scan (here.advance f.text.length) true (cut c rest).2.2 ∧
      Plain (here.advance f.text.length) (cut c rest).2.2 := by
  cases cs with
  | nil =>
    rw [scan] at whole
    cases whole
  | cons c rest =>
    have step := h.scan_cons true [] (by simp)
    rw [List.append_nil, List.append_nil, whole] at step
    split at step
    · have loose := glued_of_mem_head?_scan (f := f) (by rw [← step]; rfl) rfl
      rw [glued] at loose
      cases loose
    · cases step
      exact ⟨c, rest, rfl, rfl, rfl, rfl, h.behind (cut_text_ne_nil c rest) (cut_append c rest)⟩

/-- What stands behind glued fragments is scanned from where they end. -/
theorem Plain.scan_behind {here : Position} {cs : List Char} (h : Plain here cs)
    {more others : List Fragment} (whole : scan here true cs = more ++ others)
    (glued : ∀ g ∈ more, g.glued = true) :
    ∃ rest, cs = more.flatMap Fragment.text ++ rest ∧
      others = scan (here.advance (more.flatMap Fragment.text).length) true rest := by
  induction more generalizing here cs with
  | nil => exact ⟨cs, rfl, whole.symm⟩
  | cons g more ih =>
    rw [List.forall_mem_cons] at glued
    obtain ⟨c, rest, rfl, -, text, behind, plain⟩ := h.scan_glued whole glued.1
    obtain ⟨rest', split, others_eq⟩ := ih plain behind.symm glued.2
    have front := cut_append c rest
    rw [← text, split] at front
    refine ⟨rest', by simpa using front.symm, ?_⟩
    rw [others_eq, Position.advance_advance]
    simp

theorem cut_of_isWord {c : Char} {cs : List Char} (kind : (cut c cs).1 = .word) :
    isWordChar c = true := by
  unfold cut at kind
  split at kind
  · assumption
  · repeat' split at kind
    all_goals cases kind

theorem Plain.scan_digits {here : Position} {cs : List Char} (h : Plain here cs) {f : Fragment}
    {fs : List Fragment} (whole : scan here true cs = f :: fs) (glued : f.glued = true)
    (digits : f.isDigits = true) : Token.digits? cs = some f.text := by
  obtain ⟨c, rest, rfl, kind, text, -⟩ := h.scan_glued whole glued
  obtain ⟨word, all⟩ := Token.all_isDigit_of_isDigits digits
  have first : isWordChar c = true := cut_of_isWord (kind.symm.trans word)
  have run : (c :: rest).takeWhile isWordChar = f.text := by
    rw [text, cut, if_pos first, List.takeWhile_cons_of_pos first]
  have nonempty : f.text ≠ [] := by
    rw [text]
    exact cut_text_ne_nil c rest
  rw [Token.digits?, run, if_pos ⟨nonempty, all⟩]

theorem Plain.scan_of_mark {here : Position} {cs : List Char} (h : Plain here cs) {f : Fragment}
    {m : Mark} {fs : List Fragment} (whole : scan here true cs = f :: fs) (glued : f.glued = true)
    (kind : f.kind = .mark m) : ∃ rest, cs = m.char :: rest := by
  obtain ⟨c, rest, rfl, kind', text, -⟩ := h.scan_glued whole glued
  have fits := cut_fits c rest
  rw [← kind', kind] at fits
  have front := cut_append c rest
  rw [show (cut c rest).2.1 = [m.char] from fits] at front
  exact ⟨_, front.symm⟩

end Fragment

namespace Token

theorem scan_of_digits? {cs text : List Char} (h : digits? cs = some text) (here : Position) :
    ∃ rest, cs = text ++ rest ∧ text ≠ [] ∧ text.all isDigit = true ∧
      scan here true cs =
        ⟨.word, text, here, true⟩ :: scan (here.advance text.length) true rest := by
  unfold digits? at h
  split at h
  · next run =>
    cases h
    have whole := List.takeWhile_append_dropWhile (p := isWordChar) (l := cs)
    have stops : ∀ d ∈ (cs.dropWhile isWordChar).head?, isWordChar d = false := by
      intro d mem
      have := List.head?_dropWhile_not isWordChar cs
      rw [Option.mem_def.1 mem] at this
      simpa using this
    refine ⟨cs.dropWhile isWordChar, whole.symm, run.1, run.2, ?_⟩
    conv_lhs => rw [← whole]
    exact scan_word run.1 List.all_takeWhile stops here true
  · cases h

/-! ## What a word is joined with -/

theorem scan_of_fraction? {cs text : List Char} (h : fraction? cs = some text) (here : Position) :
    ∃ point digits others, scan here true cs = point :: digits :: others ∧
      point.glued = true ∧ point.kind = .mark .period ∧ digits.glued = true ∧
      digits.isDigits = true ∧ text = point.text ++ digits.text := by
  unfold fraction? at h
  split at h
  · cases h
  · next c cs =>
    split at h
    · next is_point =>
      subst is_point
      obtain ⟨run, digits, rfl⟩ := Option.map_eq_some_iff.1 h
      obtain ⟨rest, rfl, -, all, behind⟩ := scan_of_digits? digits (here.advance 1)
      have point : scan here true ('.' :: (run ++ rest)) = _ := scan_mark .period here true _
      rw [behind] at point
      exact ⟨_, _, _, point, rfl, rfl, rfl, by simp [Fragment.isDigits, all], rfl⟩
    · cases h

theorem fraction?_of_scan {here : Position} {cs : List Char} (h : Plain here cs)
    {point digits : Fragment} {others : List Fragment}
    (whole : scan here true cs = point :: digits :: others) (glued : point.glued = true)
    (is_point : point.kind = .mark .period) (glued' : digits.glued = true)
    (all : digits.isDigits = true) : (fraction? cs).isSome = true := by
  obtain ⟨rest, rfl⟩ := h.scan_of_mark whole glued is_point
  have step : scan here true ('.' :: rest) = _ := scan_mark .period here true rest
  rw [show Mark.period.char = '.' from rfl, step] at whole
  obtain ⟨-, behind⟩ := List.cons.inj whole
  have plain : Plain (here.advance 1) rest := h.behind (List.cons_ne_nil '.' []) rfl
  have run := plain.scan_digits behind glued' all
  simp [fraction?, Mark.char, run]

/-- A word of digits is joined with the period and the digits that stand behind it. -/
theorem joined_digits {here : Position} {cs : List Char} (h : Plain here cs) {f : Fragment}
    (all : f.isDigits = true) :
    (joined f (scan here true cs)).1 = some .number ∧
      (joined f (scan here true cs)).2.1.flatMap Fragment.text = (fraction? cs).getD [] := by
  obtain ⟨kind, digits⟩ := all_isDigit_of_isDigits all
  cases fraction : fraction? cs with
  | some text =>
    obtain ⟨point, digits, others, whole, glued, is_point, glued', all', rfl⟩ :=
      scan_of_fraction? fraction here
    rw [whole, joined_decimal all is_point glued all' glued']
    simp
  | none =>
    have alone : joined f (scan here true cs) = (some (wordKind f.text), [], scan here true cs) := by
      simp only [joined, kind]
      split
      · next point digits others whole =>
        rw [if_neg]
        rintro ⟨-, glued, is_point, glued', all'⟩
        have decimal := fraction?_of_scan h whole glued is_point glued' all'
        rw [fraction] at decimal
        cases decimal
      · rfl
    rw [alone, wordKind, if_pos digits]
    exact ⟨rfl, rfl⟩

theorem joined_other_word {f : Fragment} (kind : f.kind = .word) (other : f.isDigits = false)
    (fs : List Fragment) : joined f fs = (some (wordKind f.text), [], fs) := by
  simp only [joined, kind, other]
  split <;> simp

/-! ## What a mark is joined with -/

theorem char_injective {m n : Mark} (h : m.char = n.char) : m = n := by
  have found := Mark.ofChar?_eq_some_iff.2 h
  rw [Mark.ofChar?_eq_some_iff.2 rfl] at found
  exact (Option.some.inj found).symm

theorem operator?_marks (m n : Mark) (cs : List Char) :
    operator? (m.char :: n.char :: cs) = Operator.ofMarks? m n := by
  unfold operator? Operator.ofMarks?
  congr 1
  funext o
  have same : o.marks = (m, n) ↔ o.marks.1.char = m.char ∧ o.marks.2.char = n.char := by
    rw [Prod.ext_iff]
    exact and_congr ⟨congrArg Mark.char, char_injective⟩ ⟨congrArg Mark.char, char_injective⟩
  simp [List.isPrefixOf, same, beq_eq_decide]

theorem eq_cons_of_operator? {cs : List Char} {o : Operator} (h : operator? cs = some o) :
    ∃ rest, cs = o.marks.1.char :: o.marks.2.char :: rest := by
  have front := List.find?_some h
  rw [List.isPrefixOf_iff_prefix] at front
  obtain ⟨rest, rfl⟩ := front
  exact ⟨rest, rfl⟩

theorem joined_fraction?_mark {here : Position} {cs number : List Char} {f : Fragment} {m : Mark}
    (kind : f.kind = .mark m) (h : fraction? (m.char :: cs) = some number) :
    (joined f (scan here true cs)).1 = some .number ∧
      m.char :: (joined f (scan here true cs)).2.1.flatMap Fragment.text = number := by
  rw [fraction?] at h
  split at h
  · next is_point =>
    obtain rfl : m = .period := char_injective is_point
    obtain ⟨run, digits, rfl⟩ := Option.map_eq_some_iff.1 h
    obtain ⟨rest, rfl, -, all, behind⟩ := scan_of_digits? digits here
    rw [behind, joined_fraction kind (by simp [Fragment.isDigits, all]) rfl]
    simp
  · cases h

theorem joined_operator?_mark {here : Position} {cs : List Char} {f : Fragment} {m : Mark}
    {o : Operator} (kind : f.kind = .mark m) (h : operator? (m.char :: cs) = some o) :
    (joined f (scan here true cs)).1 = some (.operator o) ∧
      m.char :: (joined f (scan here true cs)).2.1.flatMap Fragment.text =
        [o.marks.1.char, o.marks.2.char] := by
  obtain ⟨rest, whole⟩ := eq_cons_of_operator? h
  obtain ⟨first, rfl⟩ := List.cons.inj whole
  obtain rfl := char_injective first
  rw [scan_mark, joined_operator kind rfl rfl]
  simp

theorem joined_alone_mark {here : Position} {cs : List Char} (h : Plain here cs) {f : Fragment}
    {m : Mark} (kind : f.kind = .mark m) (no_fraction : fraction? (m.char :: cs) = none)
    (no_operator : operator? (m.char :: cs) = none) :
    joined f (scan here true cs) = (some (.mark m), [], scan here true cs) := by
  simp only [joined, kind]
  split
  · next second others whole =>
    by_cases glued : second.glued = true
    · have not_fraction : ¬ (m = .period ∧ second.isDigits = true) := by
        rintro ⟨rfl, all⟩
        have digits := h.scan_digits whole glued all
        simp [fraction?, Mark.char, digits] at no_fraction
      simp only [glued, true_and, if_neg not_fraction, if_true]
      split
      · next n kind' =>
        obtain ⟨rest, rfl⟩ := h.scan_of_mark whole glued kind'
        rw [operator?_marks] at no_operator
        rw [no_operator]
      · rfl
    · simp [glued]
  · rfl

/-! ## What the fragment at the front is joined with -/

theorem fraction?_eq_none {c : Char} (other : Mark.ofChar? c = none) (cs : List Char) :
    fraction? (c :: cs) = none := by
  rw [fraction?, if_neg]
  rintro rfl
  cases other

theorem operator?_eq_none {c : Char} (other : Mark.ofChar? c = none) (cs : List Char) :
    operator? (c :: cs) = none := by
  cases found : operator? (c :: cs) with
  | none => rfl
  | some o =>
    obtain ⟨rest, whole⟩ := eq_cons_of_operator? found
    rw [(List.cons.inj whole).1, Mark.ofChar?_eq_some_iff.2 rfl] at other
    cases other

theorem longest_word {here : Position} {c : Char} {cs : List Char} (word : isWordChar c = true)
    (h : Plain here (cs.dropWhile isWordChar)) {f : Fragment} (kind : f.kind = .word)
    (text : f.text = c :: cs.takeWhile isWordChar) :
    longest c cs = ((joined f (scan here true (cs.dropWhile isWordChar))).1,
      f.text ++ (joined f (scan here true (cs.dropWhile isWordChar))).2.1.flatMap Fragment.text) := by
  rw [longest, if_pos word, ← text]
  by_cases all : f.text.all isDigit = true
  · obtain ⟨number, fraction⟩ := joined_digits h (f := f) (by simp [Fragment.isDigits, kind, all])
    rw [number, fraction]
    exact if_pos all
  · have other : f.isDigits = false := by simpa [Fragment.isDigits, kind] using all
    rw [joined_other_word kind other, wordKind, if_neg all]
    split <;> simp_all

theorem longest_quote {c : Char} {cs : List Char} (not_word : ¬ isWordChar c = true) {q : Quote}
    (quote : Quote.ofChar? c = some q) (inside : '\n' ∉ cs) {f : Fragment}
    (kind : f.kind = (cut c cs).1) (text : f.text = (cut c cs).2.1) (fs : List Fragment) :
    longest c cs = ((joined f fs).1, f.text ++ (joined f fs).2.1.flatMap Fragment.text) := by
  have unslashed : c ≠ '\\' := by
    rintro rfl
    cases quote
  obtain ⟨takes, -⟩ := takeWhile_ne_eq_self inside
  rw [longest, if_neg not_word, quote]
  dsimp only
  rw [takes, literal?_eq unslashed inside]
  cases closed : closing? c cs with
  | some parts => simp [joined, kind, text, cut, not_word, quote, closed]
  | none =>
    simp only [joined, kind, text, cut, if_neg not_word, quote, closed, takes]
    simp

theorem longest_mark {here : Position} {m : Mark} {cs : List Char} (h : Plain here cs)
    (not_word : ¬ isWordChar m.char = true) (not_quote : Quote.ofChar? m.char = none) {f : Fragment}
    (kind : f.kind = .mark m) (text : f.text = [m.char]) :
    longest m.char cs = ((joined f (scan here true cs)).1,
      f.text ++ (joined f (scan here true cs)).2.1.flatMap Fragment.text) := by
  rw [longest, if_neg not_word, not_quote, text, List.singleton_append]
  dsimp only
  split
  · next absurd_quote => cases absurd_quote
  · next number fraction =>
    obtain ⟨kind', text'⟩ := joined_fraction?_mark kind fraction
    rw [kind', text']
  · next o no_fraction operator =>
    obtain ⟨kind', text'⟩ := joined_operator?_mark kind operator
    rw [kind', text']
  · next no_fraction no_operator =>
    rw [joined_alone_mark h kind no_fraction no_operator, Mark.ofChar?_eq_some_iff.2 rfl]
    rfl

/-- The fragment at the front of a line and what it is joined with are the longest token there. -/
theorem longest_eq_joined {here : Position} {c : Char} {cs : List Char}
    (h : Plain here (c :: cs)) {f : Fragment} (kind : f.kind = (cut c cs).1)
    (text : f.text = (cut c cs).2.1) {fs : List Fragment}
    (fs_eq : fs = scan (here.advance f.text.length) true (cut c cs).2.2) :
    longest c cs = ((joined f fs).1, f.text ++ (joined f fs).2.1.flatMap Fragment.text) := by
  have behind := h.behind (cut_text_ne_nil c cs) (cut_append c cs)
  have inside := h.inside
  rw [List.mem_cons, not_or] at inside
  rw [← text] at behind
  subst fs_eq
  by_cases word : isWordChar c = true
  · have cut_eq : cut c cs = (.word, c :: cs.takeWhile isWordChar, cs.dropWhile isWordChar) := by
      rw [cut, if_pos word]
    rw [cut_eq] at kind text behind ⊢
    exact longest_word word behind kind text
  cases quote : Quote.ofChar? c with
  | some q => exact longest_quote word quote inside.2 kind text _
  | none =>
    cases mark : Mark.ofChar? c with
    | some m =>
      obtain rfl := Mark.ofChar?_eq_some_iff.1 mark
      have cut_eq : cut m.char cs = (.mark m, [m.char], cs) := by
        simp [cut, word, quote, mark]
      rw [cut_eq] at kind text behind ⊢
      exact longest_mark behind word quote kind text
    | none =>
      have cut_eq : cut c cs = (.stray, [c], cs) := by
        simp [cut, word, quote, mark]
      rw [cut_eq] at kind text
      rw [longest, if_neg word, quote, fraction?_eq_none mark, operator?_eq_none mark, mark]
      simp [joined, kind, text]

/-- The token that stands longest at the front of a text, unless that is an unclosed literal. -/
def longestToken? (here : Position) (c : Char) (cs : List Char) : Option Token :=
  (longest c cs).1.map fun kind => ⟨kind, String.ofList (longest c cs).2, here⟩

/-- The tokens of a line that starts with a character other than a blank: the longest one at its front
and those behind it. -/
theorem ofFragments_scan_cons {here : Position} {c : Char} {cs : List Char}
    (h : Plain here (c :: cs)) (visible : isBlank c = false) (glued : Bool) :
    (longest c cs).2 ≠ [] ∧ ∃ rest, c :: cs = (longest c cs).2 ++ rest ∧
      ofFragments (scan here glued (c :: cs)) = (longestToken? here c cs).toList ++
        ofFragments (scan (here.advance (longest c cs).2.length) true rest) := by
  have behind := h.behind (cut_text_ne_nil c cs) (cut_append c cs)
  have step := h.scan_cons glued [] (by simp)
  rw [List.append_nil, List.append_nil, visible, if_neg Bool.false_ne_true] at step
  obtain ⟨f, f_eq⟩ : ∃ f : Fragment, f = ⟨(cut c cs).1, (cut c cs).2.1, here, glued⟩ := ⟨_, rfl⟩
  have text : f.text = (cut c cs).2.1 := by rw [f_eq]
  have start : f.start = here := by rw [f_eq]
  have front := longest_eq_joined h (by rw [f_eq]) text rfl
  rw [← f_eq, ← text] at step
  rw [← text] at behind
  obtain ⟨rest, split, others⟩ := behind.scan_behind (joined_append f _).symm
    fun g mem => glued_of_mem_joined mem
  refine ⟨?_, rest, ?_, ?_⟩
  · rw [front, text]
    exact List.append_ne_nil_of_left_ne_nil (cut_text_ne_nil c cs) _
  · rw [front, List.append_assoc, ← split, text, cut_append]
  · rw [step, ofFragments_cons, others, longestToken?, front, start, Position.advance_advance,
      List.length_append]

/-! ## Along a line -/

/-- Induction along a line and its tokens: blanks are skipped, and otherwise the longest token is
taken. -/
theorem line_induct {motive : Position → List Char → List Token → Prop}
    (nil : ∀ here, motive here [] [])
    (skip : ∀ here c cs ts, Plain here (c :: cs) → isBlank c = true →
      motive (here.advance 1) cs ts → motive here (c :: cs) ts)
    (take : ∀ here c cs rest ts, Plain here (c :: cs) → isBlank c = false →
      (longest c cs).2 ≠ [] → c :: cs = (longest c cs).2 ++ rest →
      motive (here.advance (longest c cs).2.length) rest ts →
      motive here (c :: cs) ((longestToken? here c cs).toList ++ ts))
    {here : Position} {line : List Char} (h : Plain here line) (glued : Bool) :
    motive here line (ofFragments (scan here glued line)) := by
  induction length : line.length using Nat.strongRecOn generalizing here line glued with
  | _ _ ih =>
    subst length
    cases line with
    | nil =>
      rw [scan, ofFragments]
      exact nil here
    | cons c cs =>
      cases blank : isBlank c with
      | true =>
        have step := h.scan_cons glued [] (by simp)
        rw [List.append_nil, List.append_nil, if_pos blank] at step
        have more : Plain (here.advance 1) cs := h.behind (List.cons_ne_nil c []) rfl
        rw [step]
        exact skip here c cs _ h blank (ih _ (Nat.lt_succ_self _) more false rfl)
      | false =>
        obtain ⟨nonempty, rest, whole, tokens⟩ := ofFragments_scan_cons h blank glued
        have more : Plain (here.advance (longest c cs).2.length) rest :=
          h.behind nonempty whole.symm
        have shorter : rest.length < (c :: cs).length := by
          rw [whole, List.length_append]
          exact Nat.lt_add_of_pos_left (List.length_pos_iff.2 nonempty)
        rw [tokens]
        exact take here c cs rest _ h blank nonempty whole (ih _ shorter more true rfl)

theorem takeWhile_of_ends {p : Char → Bool} (stops : p '\n' = false) {tail : List Char}
    (ends : ∀ d ∈ tail.head?, d = '\n') (line : List Char) :
    (line ++ tail).takeWhile p = line.takeWhile p ∧
      (line ++ tail).dropWhile p = line.dropWhile p ++ tail := by
  have none_taken : tail.takeWhile p = [] ∧ tail.dropWhile p = tail := by
    cases tail with
    | nil => exact ⟨rfl, rfl⟩
    | cons d tail => simp [ends d rfl, stops]
  induction line with
  | nil => exact none_taken
  | cons c line ih =>
    cases more : p c <;> simp [more, ih]

section

variable {tail : List Char} (ends : ∀ d ∈ tail.head?, d = '\n')

include ends

theorem fraction?_of_ends (line : List Char) : fraction? (line ++ tail) = fraction? line := by
  cases line with
  | nil =>
    cases tail with
    | nil => rfl
    | cons d tail => simp [fraction?, ends d rfl]
  | cons c line =>
    have run := (takeWhile_of_ends (p := isWordChar) (by decide) ends line).1
    rw [List.cons_append, fraction?, fraction?, digits?, digits?, run]

theorem operator?_of_ends (c : Char) (line : List Char) :
    operator? (c :: (line ++ tail)) = operator? (c :: line) := by
  cases line with
  | nil =>
    cases tail with
    | nil => rfl
    | cons d tail =>
      have not_newline : ∀ m : Mark, (m.char == '\n') = false := by
        intro m
        cases m <;> decide
      simp only [operator?, List.nil_append, List.isPrefixOf, ends d rfl, not_newline,
        Bool.false_and, Bool.and_false]
  | cons d line => simp [operator?, List.isPrefixOf]

/-- The longest token at the front of a line does not depend on the lines behind it. -/
theorem longest_of_ends (c : Char) (line : List Char) :
    longest c (line ++ tail) = longest c line := by
  obtain ⟨word, behind⟩ := takeWhile_of_ends (p := isWordChar) (by decide) ends line
  have literal := (takeWhile_of_ends (p := (· ≠ '\n')) (by decide) ends line).1
  have number : fraction? (c :: (line ++ tail)) = fraction? (c :: line) :=
    fraction?_of_ends ends (c :: line)
  unfold longest
  rw [word, behind, literal, fraction?_of_ends ends, number, operator?_of_ends ends]

end

theorem scanOnce_cons {c : Char} (visible : isBlank c = false) (here : Position)
    (cs : List Char) : scanOnce here (c :: cs) = (longestToken? here c cs).toList ++
      scanOnce (here.advance (longest c cs).2.length) (cs.drop ((longest c cs).2.length - 1)) := by
  have not_newline : c ≠ '\n' := by
    rintro rfl
    cases visible
  rw [scanOnce, if_neg not_newline, visible, if_neg Bool.false_ne_true, longestToken?]
  cases (longest c cs).1 <;> rfl

theorem drop_pred_of_append {c : Char} {cs front rest : List Char} (nonempty : front ≠ [])
    (whole : c :: cs = front ++ rest) (tail : List Char) :
    (cs ++ tail).drop (front.length - 1) = rest ++ tail := by
  cases front with
  | nil => exact absurd rfl nonempty
  | cons d front =>
    have split : cs = front ++ rest := (List.cons.inj whole).2
    rw [List.length_cons, Nat.add_sub_cancel, split, List.append_assoc, List.drop_left]

/-- The pass over a line finds the tokens that the fragments of the line are joined to, and goes on
behind the line. -/
theorem scanOnce_line {here : Position} {line tail : List Char} (h : Plain here line)
    (glued : Bool) (ends : ∀ d ∈ tail.head?, d = '\n') : scanOnce here (line ++ tail) =
      ofFragments (scan here glued line) ++ scanOnce (here.advance line.length) tail := by
  refine line_induct (motive := fun here line tokens => scanOnce here (line ++ tail) =
    tokens ++ scanOnce (here.advance line.length) tail) ?_ ?_ ?_ h glued
  · intro here
    rfl
  · intro here c cs tokens plain blank ih
    have inside := plain.inside
    rw [List.mem_cons, not_or] at inside
    rw [List.cons_append, scanOnce, if_neg (Ne.symm inside.1), if_pos blank, ih,
      Position.advance_advance, List.length_cons, Nat.add_comm]
  · intro here c cs rest tokens plain visible nonempty whole ih
    rw [List.cons_append, scanOnce_cons visible, longestToken?, longest_of_ends ends,
      drop_pred_of_append nonempty whole, ih, Position.advance_advance, whole,
      List.length_append, List.append_assoc]
    rfl

/-- On a text without markers, joining adjacent fragments finds the tokens of one pass that takes the
longest token at every place. -/
theorem ofText_eq_scanOnce {file text : String}
    (unmarked : ∀ line ∈ split '\n' text.toList, Marker.read? line = none) :
    ofText file text = scanOnce (Position.first file) text.toList := by
  suffices all : ∀ cs n, (∀ line ∈ split '\n' cs, Marker.read? line = none) →
      ofFragments (scan ⟨file, n, 1⟩ false cs) = scanOnce ⟨file, n, 1⟩ cs from
    all text.toList 1 unmarked
  intro cs
  induction cs using split_induct '\n' with
  | last line inside =>
    intro n unmarked
    rw [split_eq_singleton inside, List.forall_mem_singleton] at unmarked
    have plain : Plain ⟨file, n, 1⟩ line := ⟨inside, Nat.le_refl 1, fun _ => unmarked⟩
    have pass := @scanOnce_line _ line [] plain false (by simp)
    rw [List.append_nil, scanOnce, List.append_nil] at pass
    exact pass.symm
  | piece line rest inside ih =>
    intro n unmarked
    rw [split_append_cons inside, List.forall_mem_cons] at unmarked
    have plain : Plain ⟨file, n, 1⟩ line := ⟨inside, Nat.le_refl 1, fun _ => unmarked.1⟩
    have behind := ih (n + 1) unmarked.2
    rw [scanOnce_line plain false (by simp), ofFragments_scan_line plain, scanOnce, if_pos rfl]
    exact congrArg _ behind

/-- Runs of digits, periods and marks, and a literal that is not closed. -/
theorem values_of_runs :
    (ofText "a.dts" "1.2.3 a.5 1..2 5.x +++= 7 \"b;\n8").map Token.value =
      ["1.2", ".3", "a", ".5", "1", ".", ".2", "5", ".", "x", "++", "+=", "7", "8"] := by
  rw [ofText_eq_scanOnce (by decide +kernel)]
  decide +kernel

end Token

end TradeScript
