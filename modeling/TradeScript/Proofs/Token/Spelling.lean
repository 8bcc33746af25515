import TradeScript.Proofs.Text.Lines
import TradeScript.Token.Lexing

/-!
# Spellings of tokens

Standing on its own, the text of a token is a token of the same kind again (`Token.Spelling`). Every
token of a text has such a spelling unless it is an unknown piece, that is one stray character
(`Token.stray_or_spelling_of_mem_ofText`), and a spelling is read back as one token if a blank, a
comma or a semicolon follows it (`Token.lex_spelling`).
-/

namespace TradeScript

namespace Token

/-- The kind and the text of a token. -/
def lexeme (t : Token) : Terminal × String :=
  (t.kind, t.value)

/-- On its own, `text` is a token of kind `k`. -/
inductive Spelling : (k : Terminal) → (text : List Char) → Prop
  | word {text : List Char} (some : text ≠ []) (all : text.all Text.isWordChar = true) :
      Spelling (wordKind text) text
  | decimal {whole fraction : List Char} (some : whole ≠ []) (all : whole.all Text.isDigit = true)
      (some' : fraction ≠ []) (all' : fraction.all Text.isDigit = true) :
      Spelling .number (whole ++ '.' :: fraction)
  | fraction {digits : List Char} (some : digits ≠ []) (all : digits.all Text.isDigit = true) :
      Spelling .number ('.' :: digits)
  | mark (m : Mark) : Spelling (.mark m) [m.char]
  | operator (o : Operator) : Spelling (.operator o) [o.marks.1.char, o.marks.2.char]
  | literal (q : Quote) {body : List Char}
      (closed : Fragment.closing? q.char body = some (body, [])) :
      Spelling q.terminal (q.char :: body)

end Token

namespace Fragment

/-! ## Fragments of a text -/

theorem closing?_append_right {quote : Char} {cs body rest : List Char}
    (h : closing? quote cs = some (body, rest)) (more : List Char) :
    closing? quote (body ++ more) = some (body, more) := by
  fun_induction closing? quote cs generalizing body rest with
  | case1 => cases h
  | case2 => cases h
  | case3 => cases h
  | case4 => cases h
  | case5 d ds not_newline _ ih =>
    obtain ⟨⟨b, r⟩, found, whole⟩ := Option.map_eq_some_iff.1 h
    obtain ⟨rfl, rfl⟩ := Prod.mk.inj whole
    rw [closing?.eq_def]
    simp [not_newline, ih found]
  | case6 cs not_newline not_backslash =>
    obtain ⟨rfl, rfl⟩ := Prod.mk.inj (Option.some.inj h)
    rw [closing?.eq_def]
    simp [not_newline, not_backslash]
  | case7 c cs not_newline not_backslash not_quote ih =>
    obtain ⟨⟨b, r⟩, found, whole⟩ := Option.map_eq_some_iff.1 h
    obtain ⟨rfl, rfl⟩ := Prod.mk.inj whole
    rw [closing?.eq_def]
    simp [not_newline, not_backslash, not_quote, ih found]

/-- The text of a fragment fits its kind. -/
def Fits (kind : Kind) (text : List Char) : Prop :=
  match kind with
  | .word => text ≠ [] ∧ text.all Text.isWordChar = true
  | .mark m => text = [m.char]
  | .literal q => ∃ body, text = q.char :: body ∧ closing? q.char body = some (body, [])
  | .stray => True
  | .unclosed _ => True

theorem quote_char {c : Char} {q : Quote} (h : Quote.ofChar? c = some q) : c = q.char := by
  unfold Quote.ofChar? at h
  split at h
  · cases h
    assumption
  · split at h
    · cases h
      assumption
    · cases h

theorem cut_fits (c : Char) (cs : List Char) : Fits (cut c cs).1 (cut c cs).2.1 := by
  unfold cut
  split
  · next is_word => simp [Fits, is_word]
  · split
    · next q found =>
      obtain rfl := quote_char found
      split
      · next body rest closed =>
        refine ⟨body, rfl, ?_⟩
        simpa using closing?_append_right closed []
      · trivial
    · split
      · next m found =>
        have char_eq := Mark.ofChar?_eq_some_iff.1 found
        simp [Fits, char_eq]
      · trivial

/-- What holds of every cut at a visible character holds of every fragment of a text. -/
theorem of_mem_scan {P : Kind → List Char → Prop}
    (cuts : ∀ c, Text.isBlank c = false → ∀ cs, P (cut c cs).1 (cut c cs).2.1) {here : Position}
    {glued : Bool} {cs : List Char} {f : Fragment} (h : f ∈ scan here glued cs) :
    P f.kind f.text := by
  fun_induction scan here glued cs with
  | case1 => cases h
  | case2 here glued cs ih => exact ih h
  | case3 here glued c cs not_newline line file read ih => exact ih h
  | case4 here glued c cs not_newline read blank ih => exact ih h
  | case5 here glued c cs not_newline read visible ih =>
    rcases List.mem_cons.1 h with rfl | h
    · exact cuts c (by simpa using visible) cs
    · exact ih h

theorem fits_of_mem_scan {here : Position} {glued : Bool} {cs : List Char} {f : Fragment}
    (h : f ∈ scan here glued cs) : Fits f.kind f.text :=
  of_mem_scan (fun c _ cs => cut_fits c cs) h

/-- A character that belongs to no other kind of fragment. -/
structure Stray (c : Char) : Prop where
  visible : Text.isBlank c = false
  not_word : Text.isWordChar c = false
  not_quote : Quote.ofChar? c = none
  not_mark : Mark.ofChar? c = none

theorem stray_of_cut {c : Char} (visible : Text.isBlank c = false) {cs : List Char}
    (kind : (cut c cs).1 = .stray) : (cut c cs).2.1 = [c] ∧ Stray c := by
  unfold cut at kind ⊢
  split at kind
  · cases kind
  · next not_word =>
    split at kind
    · split at kind <;> cases kind
    · next not_quote =>
      split at kind
      · cases kind
      · next not_mark =>
        rw [if_neg not_word]
        exact ⟨rfl, visible, by simpa using not_word, not_quote, not_mark⟩

theorem stray_of_mem_scan {here : Position} {glued : Bool} {cs : List Char} {f : Fragment}
    (h : f ∈ scan here glued cs) (kind : f.kind = .stray) : ∃ c, f.text = [c] ∧ Stray c := by
  refine of_mem_scan (P := fun kind text => kind = .stray → ∃ c, text = [c] ∧ Stray c) ?_ h kind
  intro c visible cs stray
  exact ⟨c, stray_of_cut visible stray⟩

end Fragment

namespace Token

open Fragment

/-! ## Tokens of a text -/

theorem all_isDigit_of_isDigits {f : Fragment} (h : f.isDigits = true) :
    f.kind = .word ∧ f.text.all Text.isDigit = true := by
  simpa [Fragment.isDigits] using h

theorem ne_nil_of_isDigits {f : Fragment} (h : f.isDigits = true) (fits : Fits f.kind f.text) :
    f.text ≠ [] := by
  rw [(all_isDigit_of_isDigits h).1] at fits
  exact fits.1

theorem spelling_joined_word {f : Fragment} {fs : List Fragment}
    (fits : ∀ g ∈ f :: fs, Fits g.kind g.text) (kind : f.kind = .word) {k : Terminal}
    (h : (joined f fs).1 = some k) :
    Spelling k (f.text ++ (joined f fs).2.1.flatMap Fragment.text) := by
  have fits_f := fits f List.mem_cons_self
  rw [kind] at fits_f
  have alone : Spelling (wordKind f.text) (f.text ++ [].flatMap Fragment.text) := by
    simpa using Spelling.word fits_f.1 fits_f.2
  simp only [joined, kind] at h ⊢
  match fs with
  | [] =>
    cases h
    exact alone
  | [point] =>
    cases h
    exact alone
  | point :: digits :: rest =>
    by_cases decimal : f.isDigits = true ∧ point.glued = true ∧ point.kind = .mark .period ∧
        digits.glued = true ∧ digits.isDigits = true
    · simp only [decimal, and_self, if_true] at h ⊢
      cases h
      obtain ⟨whole, -, is_point, -, fraction⟩ := decimal
      have fits_point := fits point (by simp)
      rw [is_point] at fits_point
      have point_text : point.text = ['.'] := fits_point
      have some_digits := ne_nil_of_isDigits fraction (fits digits (by simp))
      have spelling := Spelling.decimal fits_f.1 (all_isDigit_of_isDigits whole).2 some_digits
        (all_isDigit_of_isDigits fraction).2
      simpa [point_text] using spelling
    · simp only [if_neg decimal] at h ⊢
      cases h
      exact alone

theorem spelling_joined_mark {f : Fragment} {fs : List Fragment} {m : Mark}
    (fits : ∀ g ∈ f :: fs, Fits g.kind g.text) (kind : f.kind = .mark m) {k : Terminal}
    (h : (joined f fs).1 = some k) :
    Spelling k (f.text ++ (joined f fs).2.1.flatMap Fragment.text) := by
  have fits_f := fits f List.mem_cons_self
  rw [kind] at fits_f
  have text : f.text = [m.char] := fits_f
  have alone : Spelling (.mark m) (f.text ++ [].flatMap Fragment.text) := by
    simpa [text] using Spelling.mark m
  simp only [joined, kind] at h ⊢
  match fs with
  | [] =>
    cases h
    exact alone
  | g :: rest =>
    have fits_g := fits g (by simp)
    by_cases fraction : g.glued = true ∧ m = .period ∧ g.isDigits = true
    · simp only [fraction, and_self, if_true] at h ⊢
      cases h
      obtain ⟨-, rfl, digits⟩ := fraction
      have spelling := Spelling.fraction (ne_nil_of_isDigits digits fits_g)
        (all_isDigit_of_isDigits digits).2
      simpa [text, Mark.char] using spelling
    · simp only [if_neg fraction] at h ⊢
      cases glued : g.glued with
      | false =>
        simp only [glued] at h ⊢
        cases h
        exact alone
      | true =>
        simp only [glued, if_true] at h ⊢
        cases kind_g : g.kind with
        | mark n =>
          rw [kind_g] at fits_g
          have text_g : g.text = [n.char] := fits_g
          simp only [kind_g] at h ⊢
          cases found : Operator.ofMarks? m n with
          | none =>
            simp only [found] at h ⊢
            cases h
            exact alone
          | some o =>
            simp only [found] at h ⊢
            cases h
            have spelling := Spelling.operator o
            rw [Operator.ofMarks?_eq_some_iff.1 found] at spelling
            simpa [text, text_g] using spelling
        | word | literal q | stray | unclosed q =>
          simp only [kind_g] at h ⊢
          cases h
          exact alone

/-- What adjacent fragments are joined to is spelled in full, or one stray fragment. -/
theorem spelling_joined {f : Fragment} {fs : List Fragment}
    (fits : ∀ g ∈ f :: fs, Fits g.kind g.text) {k : Terminal} (h : (joined f fs).1 = some k) :
    (k = .unknown ∧ f.kind = .stray ∧ (joined f fs).2.1 = []) ∨
      Spelling k (f.text ++ (joined f fs).2.1.flatMap Fragment.text) := by
  cases kind : f.kind with
  | word => exact .inr (spelling_joined_word fits kind h)
  | mark m => exact .inr (spelling_joined_mark fits kind h)
  | literal q =>
    have fits_f := fits f List.mem_cons_self
    rw [kind] at fits_f
    obtain ⟨body, text, closed⟩ := fits_f
    simp only [joined, kind] at h ⊢
    cases h
    exact .inr (by simpa [text] using Spelling.literal q closed)
  | stray =>
    simp only [joined, kind] at h
    cases h
    exact .inl ⟨rfl, rfl, by simp [joined, kind]⟩
  | unclosed q =>
    simp only [joined, kind] at h
    cases h

theorem spelling_of_mem_ofFragments {fs : List Fragment} (fits : ∀ f ∈ fs, Fits f.kind f.text)
    {t : Token} (h : t ∈ ofFragments fs) :
    (t.kind = .unknown ∧ ∃ f ∈ fs, f.kind = .stray ∧ t.value.toList = f.text) ∨
      Spelling t.kind t.value.toList := by
  have behind {f : Fragment} {fs : List Fragment} {g : Fragment} (mem : g ∈ (joined f fs).2.2) :
      g ∈ f :: fs := by
    refine List.mem_cons_of_mem f ?_
    rw [← joined_append f fs]
    exact List.mem_append_right _ mem
  fun_induction ofFragments fs with
  | case1 => cases h
  | case2 f fs parts others kind found ih =>
    rcases List.mem_cons.1 h with rfl | h
    · rcases spelling_joined fits found with ⟨unknown, stray, alone⟩ | spelling
      · exact .inl ⟨unknown, f, List.mem_cons_self, stray, by simp [parts, alone]⟩
      · exact .inr (by simpa using spelling)
    · refine (ih (fun g mem => fits g (behind mem)) h).imp_left ?_
      rintro ⟨unknown, g, mem, stray, text⟩
      exact ⟨unknown, g, behind mem, stray, text⟩
  | case3 f fs parts others none_found ih =>
    refine (ih (fun g mem => fits g (behind mem)) h).imp_left ?_
    rintro ⟨unknown, g, mem, stray, text⟩
    exact ⟨unknown, g, behind mem, stray, text⟩

/-- A token of a text is one stray character, or spelled in full. -/
theorem stray_or_spelling_of_mem_ofText {file text : String} {t : Token}
    (h : t ∈ ofText file text) :
    (t.kind = .unknown ∧ ∃ c, t.value.toList = [c] ∧ Stray c) ∨ Spelling t.kind t.value.toList := by
  refine (spelling_of_mem_ofFragments (fun _ mem => fits_of_mem_scan mem) h).imp_left ?_
  rintro ⟨unknown, f, mem, kind, text⟩
  obtain ⟨c, alone, stray⟩ := stray_of_mem_scan mem kind
  exact ⟨unknown, c, text.trans alone, stray⟩

theorem spelling_of_mem_ofText {file text : String} {t : Token} (h : t ∈ ofText file text) :
    t.kind = .unknown ∨ Spelling t.kind t.value.toList :=
  (stray_or_spelling_of_mem_ofText h).imp_left And.left

/-- The kinds of words. -/
theorem wordKind_cases (text : List Char) :
    wordKind text ∈ [.number, .unknown, .identifier, .typeName] ∨
      ∃ k, wordKind text = .keyword k := by
  unfold wordKind
  split
  · simp
  · split
    · simp
    · unfold Terminal.ofReserved?
      split
      · next k _ => exact .inr ⟨k, rfl⟩
      · split <;> simp

theorem wordKind_ne_mark (text : List Char) (m : Mark) : wordKind text ≠ .mark m := by
  intro kind
  rcases wordKind_cases text with plain | ⟨k, reserved⟩
  · rw [kind] at plain
    simp at plain
  · cases kind.symm.trans reserved

theorem wordKind_ne_indicatorName (text : List Char) : wordKind text ≠ .indicatorName := by
  intro kind
  rcases wordKind_cases text with plain | ⟨k, reserved⟩
  · rw [kind] at plain
    simp at plain
  · cases kind.symm.trans reserved

/-- Names of indicators are not told apart from other identifiers in a text. -/
theorem kind_ne_indicatorName {file text : String} {t : Token} (h : t ∈ ofText file text) :
    t.kind ≠ .indicatorName := by
  rcases spelling_of_mem_ofText h with unknown | spelling
  · rw [unknown]
    decide
  · intro kind
    generalize t.kind = k at kind spelling
    generalize t.value.toList = text at spelling
    cases spelling with
    | word nonempty all => exact wordKind_ne_indicatorName _ kind
    | literal q closed => cases q <;> cases kind
    | _ => cases kind

theorem text_of_spelling_mark {m : Mark} {text : List Char} (h : Spelling (.mark m) text) :
    text = [m.char] := by
  generalize kind : Terminal.mark m = k at h
  cases h with
  | word nonempty all => exact absurd kind.symm (wordKind_ne_mark text m)
  | mark m' =>
    cases kind
    rfl
  | literal q closed => cases q <;> cases kind
  | _ => cases kind

end Token

/-! ## Words on one line -/

theorem closing?_solid {quote : Char} (not_newline : quote ≠ '\n') {cs body rest : List Char}
    (h : Fragment.closing? quote cs = some (body, rest)) :
    '\n' ∉ body ∧ body.getLast? = some quote := by
  fun_induction Fragment.closing? quote cs generalizing body rest with
  | case1 => cases h
  | case2 => cases h
  | case3 => cases h
  | case4 => cases h
  | case5 d ds same_line _ ih =>
    obtain ⟨⟨b, r⟩, found, whole⟩ := Option.map_eq_some_iff.1 h
    obtain ⟨rfl, rfl⟩ := Prod.mk.inj whole
    obtain ⟨line, last⟩ := ih found
    refine ⟨by simp [line, Ne.symm same_line], ?_⟩
    simp [List.getLast?_cons, last]
  | case6 cs _ _ =>
    obtain ⟨rfl, rfl⟩ := Prod.mk.inj (Option.some.inj h)
    exact ⟨by simp [Ne.symm not_newline], rfl⟩
  | case7 c cs same_line _ _ ih =>
    obtain ⟨⟨b, r⟩, found, whole⟩ := Option.map_eq_some_iff.1 h
    obtain ⟨rfl, rfl⟩ := Prod.mk.inj whole
    obtain ⟨line, last⟩ := ih found
    refine ⟨by simp [line, Ne.symm same_line], ?_⟩
    simp [List.getLast?_cons, last]

theorem solid_of_spelling {k : Terminal} {text : List Char} (h : Token.Spelling k text) :
    Text.Solid text := by
  have no_marks : ∀ m : Mark, m.char ≠ '\n' ∧ m.char ≠ '\r' := by
    intro m
    cases m <;> decide
  have digits : ∀ {text : List Char}, text.all Text.isDigit = true →
      text.all (fun c => Text.isDigit c || c = '.') = true := by
    intro text all
    rw [List.all_eq_true] at all ⊢
    intro c mem
    simp [all c mem]
  cases h with
  | word nonempty all => exact Text.solid_of_all nonempty all rfl rfl
  | @decimal whole fraction nonempty all nonempty' all' =>
    have number : (whole ++ '.' :: fraction).all (fun c => Text.isDigit c || c = '.') = true := by
      rw [List.all_append, List.all_cons, digits all, digits all']
      rfl
    exact Text.solid_of_all (by simp) number rfl rfl
  | @fraction fraction nonempty all =>
    have number : ('.' :: fraction).all (fun c => Text.isDigit c || c = '.') = true := by
      rw [List.all_cons, digits all]
      rfl
    exact Text.solid_of_all (by simp) number rfl rfl
  | mark m => exact ⟨by simp, by simpa using (no_marks m).1.symm, by simpa using (no_marks m).2⟩
  | operator o =>
    obtain ⟨first, -⟩ := no_marks o.marks.1
    obtain ⟨second, last⟩ := no_marks o.marks.2
    exact ⟨by simp, by simp [first.symm, second.symm], by simpa using last⟩
  | @literal q body closed =>
    have quote : q.char ≠ '\n' ∧ q.char ≠ '\r' := by cases q <;> decide
    obtain ⟨line, last⟩ := closing?_solid quote.1 closed
    refine ⟨by simp, by simp [quote.1.symm, line], ?_⟩
    rw [List.getLast?_cons, last]
    simpa using quote.2

end TradeScript
