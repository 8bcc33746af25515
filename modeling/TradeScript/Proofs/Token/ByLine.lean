import TradeScript.Proofs.Token.OnePass

/-!
# Lexing lines one by one

Nothing that the scanner keeps goes beyond the end of a line but the file and the number of the
next line. So a text is lexed like its lines, each of them alone (`Token.ofLines`): a marker gives
no token and sets the file and the number, and any other line gives its own tokens
(`Token.ofText_line_by_line`).
-/

namespace TradeScript

open Text Fragment

/-! ## The form of markers -/

/-- A text is a numeral for `n`: digits, which one plus sign may precede, whose value fits a machine
word. -/
def Text.Numeral (cs : List Char) (n : Nat) : Prop :=
  ∃ digits, (cs = digits ∨ cs = '+' :: digits) ∧ digits ≠ [] ∧ digits.all isDigit = true ∧
    decimalValue digits = n ∧ n < lineLimit

namespace Text

theorem lineNumber?_eq_some_iff {cs : List Char} {n : Nat} :
    lineNumber? cs = some n ↔ Numeral cs n := by
  have unsigned {digits : List Char} (all : digits.all isDigit = true) :
      digits.head? ≠ some '+' := by
    intro sign
    have digit := List.all_eq_true.1 all _ (List.mem_of_mem_head? sign)
    cases digit
  have value (digits : List Char) : (if digits ≠ [] ∧ digits.all isDigit ∧
      decimalValue digits < lineLimit then some (decimalValue digits) else none) = some n ↔
      digits ≠ [] ∧ digits.all isDigit = true ∧ decimalValue digits = n ∧ n < lineLimit := by
    grind
  unfold lineNumber?
  by_cases sign : cs.head? = some '+'
  · obtain ⟨digits, rfl⟩ := List.head?_eq_some_iff.1 sign
    rw [if_pos sign]
    refine (value digits).trans ⟨fun h => ⟨digits, .inr rfl, h⟩, ?_⟩
    rintro ⟨digits', rfl | same, h⟩
    · exact absurd sign (unsigned h.2.1)
    · rwa [(List.cons.inj same).2]
  · rw [if_neg sign]
    refine (value cs).trans ⟨fun h => ⟨cs, .inl rfl, h⟩, ?_⟩
    rintro ⟨digits, rfl | rfl, h⟩
    · exact h
    · exact absurd rfl sign

theorem Numeral.not_mem {cs : List Char} {n : Nat} (h : Numeral cs n) {c : Char}
    (other : isDigit c = false) (no_sign : c ≠ '+') : c ∉ cs := by
  obtain ⟨digits, whole, -, all, -, -⟩ := h
  have outside : c ∉ digits := by
    intro mem
    rw [List.all_eq_true.1 all c mem] at other
    cases other
  rcases whole with rfl | rfl
  · exact outside
  · simpa [no_sign] using outside

end Text

theorem Marker.read?_eq_some_iff {line : List Char} {n : Nat} {path : List Char} :
    Marker.read? line = some (n, path) ↔
      ∃ numeral, line = '@' :: (numeral ++ ':' :: path) ∧ Numeral numeral n := by
  constructor
  · intro h
    unfold Marker.read? at h
    split at h
    · cases h
    · next c body =>
      split at h
      · cases h
      · next colon path' behind =>
        split at h
        · next sign =>
          subst sign
          obtain ⟨number, found, same⟩ := Option.map_eq_some_iff.1 h
          cases same
          have is_colon : colon = ':' := by
            have := List.head?_dropWhile_not (· ≠ ':') body
            rw [behind] at this
            simpa using this
          subst is_colon
          refine ⟨body.takeWhile (· ≠ ':'), ?_, lineNumber?_eq_some_iff.1 found⟩
          rw [← behind, List.takeWhile_append_dropWhile]
          rfl
        · cases h
  · rintro ⟨numeral, rfl, number⟩
    have no_colon : ':' ∉ numeral := number.not_mem rfl (by decide)
    obtain ⟨takes, drops⟩ := takeWhile_ne no_colon path
    rw [Marker.read?, takes, drops]
    dsimp only
    rw [if_pos (by rfl), lineNumber?_eq_some_iff.2 number]
    rfl

/-! ## The tokens of one line -/

namespace Position

/-- The place in the same column of another line. -/
def atLine (n : Nat) (p : Position) : Position :=
  { p with line := n }

theorem advance_atLine (n : Nat) (p : Position) (count : Nat) :
    (p.atLine n).advance count = (p.advance count).atLine n :=
  rfl

end Position

namespace Token

/-- The same token on another line. -/
def atLine (n : Nat) (t : Token) : Token :=
  { t with start := t.start.atLine n }

/-- On which line a text without newlines stands does not matter to its tokens. -/
theorem scanOnce_atLine {cs : List Char} (inside : '\n' ∉ cs) (here : Position) (n : Nat) :
    scanOnce (here.atLine n) cs = (scanOnce here cs).map (atLine n) := by
  induction here, cs using scanOnce.induct with
  | case1 here => simp [scanOnce]
  | case2 here cs ih => simp at inside
  | case3 here c cs not_newline blank ih =>
    rw [List.mem_cons, not_or] at inside
    rw [scanOnce, scanOnce, if_neg not_newline, if_neg not_newline, if_pos blank, if_pos blank,
      Position.advance_atLine, ih inside.2]
  | case4 here c cs not_newline visible text kind found ih
  | case5 here c cs not_newline visible text found ih =>
    rw [List.mem_cons, not_or] at inside
    have behind := ih fun mem => inside.2 (List.mem_of_mem_drop mem)
    have visible : isBlank c = false := by simpa using visible
    rw [scanOnce_cons visible, scanOnce_cons visible, Position.advance_atLine, behind,
      List.map_append, longestToken?, longestToken?]
    cases (longest c cs).1 <;> rfl

/-- A line that is no marker gives the tokens that it gives alone. -/
theorem ofFragments_scan_alone {file : String} {n : Nat} {line : List Char}
    (h : Plain ⟨file, n, 1⟩ line) : ofFragments (scan ⟨file, n, 1⟩ false line) =
      (ofText file (String.ofList line)).map (atLine n) := by
  have alone : Plain (Position.first file) line :=
    ⟨h.inside, Nat.le_refl 1, fun _ => h.unmarked rfl⟩
  have pass := @scanOnce_line _ line [] h false (by simp)
  have pass' := @scanOnce_line _ line [] alone false (by simp)
  rw [List.append_nil, scanOnce, List.append_nil] at pass pass'
  rw [ofText, Fragment.ofText, String.toList_ofList, ← pass, ← pass']
  exact scanOnce_atLine h.inside (Position.first file) n

end Token

/-- At the start of a line, a marker gives no fragment and sets the place of the next line. -/
theorem Fragment.scan_of_read? {here : Position} (first : here.column = 1) {line path : List Char}
    {n : Nat} (inside : '\n' ∉ line) (marker : Marker.read? line = some (n, path))
    {tail : List Char} (ends : ∀ d ∈ tail.head?, d = '\n') (glued : Bool) :
    scan here glued (line ++ tail) = scan ⟨String.ofList path, n, 1⟩ false (tail.drop 1) := by
  obtain ⟨numeral, rfl, -⟩ := Marker.read?_eq_some_iff.1 marker
  rw [List.mem_cons, not_or] at inside
  obtain ⟨takes, drops⟩ := Token.takeWhile_of_ends (p := (· ≠ '\n')) (by decide) ends
    (numeral ++ ':' :: path)
  obtain ⟨takes', drops'⟩ := takeWhile_ne_eq_self inside.2
  rw [List.cons_append, scan, if_neg (by decide), takes, takes', if_pos first, marker, drops,
    drops']
  rfl

/-! ## All lines -/

namespace Token

/-- The tokens of lines that are each lexed alone, if the first of them is line `n` of a file. A
marker says which line the next one is. -/
def ofLines (file : String) (n : Nat) : List (List Char) → List Token
  | [] => []
  | line :: others =>
    match Marker.read? line with
    | some (number, path) => ofLines (String.ofList path) number others
    | none => (ofText file (String.ofList line)).map (atLine n) ++ ofLines file (n + 1) others

theorem ofFragments_scan_eq_ofLines (cs : List Char) (file : String) (n : Nat) :
    ofFragments (scan ⟨file, n, 1⟩ false cs) = ofLines file n (split '\n' cs) := by
  induction cs using split_induct '\n' generalizing file n with
  | last line inside =>
    rw [split_eq_singleton inside, ofLines]
    split
    · next number path marker =>
      have skipped :=
        @scan_of_read? ⟨file, n, 1⟩ rfl line path number inside marker [] (by simp) false
      rw [List.append_nil] at skipped
      rw [skipped, List.drop_nil, scan, ofFragments, ofLines]
    · next unmarked =>
      rw [ofFragments_scan_alone ⟨inside, Nat.le_refl 1, fun _ => unmarked⟩, ofLines,
        List.append_nil]
  | piece line rest inside ih =>
    rw [split_append_cons inside, ofLines]
    split
    · next number path marker =>
      have ends : ∀ d ∈ ('\n' :: rest).head?, d = '\n' := by simp
      rw [scan_of_read? rfl inside marker ends]
      exact ih (String.ofList path) number
    · next unmarked =>
      have plain : Plain ⟨file, n, 1⟩ line := ⟨inside, Nat.le_refl 1, fun _ => unmarked⟩
      rw [ofFragments_scan_line plain, ofFragments_scan_alone plain]
      exact congrArg _ (ih file (n + 1))

/-- A text is lexed line by line: a line that consists of the sign of markers, a numeral, a colon and
a path gives no token and says which line of which file the next one is, and every other line gives
the tokens that it gives alone. -/
theorem ofText_line_by_line (file text : String) :
    ofText file text = ofLines file 1 (split '\n' text.toList) ∧
      ∀ line n path, Marker.read? line = some (n, path) ↔
        ∃ numeral, line = '@' :: (numeral ++ ':' :: path) ∧ Numeral numeral n :=
  ⟨ofFragments_scan_eq_ofLines text.toList file 1, fun _ _ _ => Marker.read?_eq_some_iff⟩

end Token

end TradeScript
