import Mathlib.Data.List.Basic
import Mathlib.Data.List.TakeWhile
import TradeScript.Text.Lines
import TradeScript.Text.Numeral

/-!
# Lines and line numbers

A line has no newline in it, and a text has no more lines than characters. Lines that are each ended
by a newline are found again when the text is split (`split_unlines`) or cut after some of its lines
(`firstLines_unlines`), and so are pieces that are joined by a separator (`split_join`). Every line
stands in the text behind the lines before it (`exists_append_of_getElem?_lines`). A line number is
read back from its decimal form (`lineNumber?_decimal`).
-/

namespace TradeScript

namespace Text

/-! ## Up to a separator -/

theorem forall_ne_of_not_mem {c : Char} {cs : List Char} (absent : c ∉ cs) :
    ∀ d ∈ cs, decide (d ≠ c) = true := by
  intro d mem
  rw [decide_eq_true_eq]
  rintro rfl
  exact absent mem

theorem takeWhile_ne {c : Char} {cs : List Char} (absent : c ∉ cs) (rest : List Char) :
    (cs ++ c :: rest).takeWhile (· ≠ c) = cs ∧
      (cs ++ c :: rest).dropWhile (· ≠ c) = c :: rest := by
  have all := forall_ne_of_not_mem absent
  rw [List.takeWhile_append_of_pos all, List.dropWhile_append_of_pos all]
  simp

theorem takeWhile_ne_eq_self {c : Char} {cs : List Char} (absent : c ∉ cs) :
    cs.takeWhile (· ≠ c) = cs ∧ cs.dropWhile (· ≠ c) = [] := by
  have all := forall_ne_of_not_mem absent
  exact ⟨List.takeWhile_eq_self_iff.2 all, List.dropWhile_eq_nil_iff.2 all⟩

/-! ## Lines -/

theorem newline_not_mem_of_mem_lines {cs line : List Char} (h : line ∈ lines cs) : '\n' ∉ line := by
  fun_induction lines cs generalizing line with
  | case1 => cases h
  | case2 cs ih =>
    rcases List.mem_cons.1 h with rfl | h
    · simp
    · exact ih h
  | case3 c cs not_newline return_before ih => exact ih h
  | case4 c cs not_newline other none_left ih =>
    obtain rfl := List.mem_singleton.1 h
    simpa using Ne.symm not_newline
  | case5 c cs not_newline other first others found ih =>
    rcases List.mem_cons.1 h with rfl | h
    · rw [List.mem_cons, not_or]
      exact ⟨Ne.symm not_newline, ih (by rw [found]; exact List.mem_cons_self)⟩
    · exact ih (by rw [found]; exact List.mem_cons_of_mem first h)

theorem length_lines_le (cs : List Char) : (lines cs).length ≤ cs.length := by
  fun_induction lines cs with
  | case1 => exact Nat.le_refl 0
  | case2 cs ih => exact Nat.succ_le_succ ih
  | case3 c cs not_newline return_before ih => exact Nat.le_succ_of_le ih
  | case4 c cs not_newline other none_left ih => simp
  | case5 c cs not_newline other first others found ih =>
    rw [found] at ih
    exact Nat.le_succ_of_le ih

/-! ## Splitting and joining -/

theorem split_append_cons {separator : Char} {piece : List Char} (absent : separator ∉ piece)
    (rest : List Char) :
    split separator (piece ++ separator :: rest) = piece :: split separator rest := by
  induction piece with
  | nil => simp [split]
  | cons c piece ih =>
    rw [List.mem_cons, not_or] at absent
    rw [List.cons_append, split, if_neg (Ne.symm absent.1), ih absent.2]

theorem split_eq_singleton {separator : Char} {piece : List Char} (absent : separator ∉ piece) :
    split separator piece = [piece] := by
  induction piece with
  | nil => rfl
  | cons c piece ih =>
    rw [List.mem_cons, not_or] at absent
    rw [split, if_neg (Ne.symm absent.1), ih absent.2]

/-- Induction along the pieces between separators, from the last one on. -/
theorem split_induct (separator : Char) {motive : List Char → Prop}
    (last : ∀ piece, separator ∉ piece → motive piece)
    (piece : ∀ piece rest, separator ∉ piece → motive rest → motive (piece ++ separator :: rest))
    (cs : List Char) : motive cs := by
  induction length : cs.length using Nat.strongRecOn generalizing cs with
  | _ _ ih =>
    subst length
    by_cases mem : separator ∈ cs
    · obtain ⟨front, rest, rfl, absent⟩ := List.eq_append_cons_of_mem mem
      refine piece front rest absent (ih _ ?_ rest rfl)
      simp
      omega
    · exact last cs mem

theorem split_join {separator : Char} {pieces : List (List Char)} (some : pieces ≠ [])
    (absent : ∀ piece ∈ pieces, separator ∉ piece) :
    split separator (join [separator] pieces) = pieces := by
  fun_induction join [separator] pieces with
  | case1 => exact absurd rfl some
  | case2 piece => exact split_eq_singleton (absent piece List.mem_cons_self)
  | case3 piece next others ih =>
    rw [List.forall_mem_cons] at absent
    rw [List.append_assoc, List.singleton_append, split_append_cons absent.1,
      ih (List.cons_ne_nil _ _) absent.2]

/-- A piece stands in a text that pieces are joined to. -/
theorem infix_join (separator : List Char) {piece : List Char} {pieces : List (List Char)}
    (mem : piece ∈ pieces) : piece <:+: join separator pieces := by
  fun_induction join separator pieces with
  | case1 => cases mem
  | case2 only =>
    obtain rfl := List.mem_singleton.1 mem
    exact List.infix_rfl
  | case3 first next others ih =>
    rcases List.mem_cons.1 mem with rfl | mem
    · exact (List.prefix_append _ _).isInfix.trans (List.prefix_append _ _).isInfix
    · exact (ih mem).trans (List.suffix_append _ _).isInfix

theorem mem_split {separator : Char} {cs segment : List Char} (h : segment ∈ split separator cs) :
    separator ∉ segment := by
  induction cs generalizing segment with
  | nil =>
    obtain rfl := List.mem_singleton.1 h
    exact List.not_mem_nil
  | cons c cs ih =>
    rw [split] at h
    split at h
    · rcases List.mem_cons.1 h with rfl | h
      · exact List.not_mem_nil
      · exact ih h
    · next other =>
      split at h
      · obtain rfl := List.mem_singleton.1 h
        simpa using Ne.symm other
      · next first others segments =>
        rcases List.mem_cons.1 h with rfl | h
        · rw [List.mem_cons, not_or]
          exact ⟨Ne.symm other, ih (by rw [segments]; exact List.mem_cons_self)⟩
        · exact ih (by rw [segments]; exact List.mem_cons_of_mem first h)

theorem split_unlines {pieces : List (List Char)} (inside : ∀ piece ∈ pieces, '\n' ∉ piece) :
    split '\n' (unlines pieces) = pieces ++ [[]] := by
  induction pieces with
  | nil => rfl
  | cons piece pieces ih =>
    rw [List.forall_mem_cons] at inside
    rw [unlines, split_append_cons inside.1, ih inside.2]
    rfl

theorem unlines_append (pieces pieces' : List (List Char)) :
    unlines (pieces ++ pieces') = unlines pieces ++ unlines pieces' := by
  induction pieces with
  | nil => rfl
  | cons piece pieces ih =>
    rw [List.cons_append, unlines, unlines, ih, List.append_assoc, List.cons_append]

/-- Where one of some lines stands. -/
theorem exists_unlines_of_mem {piece : List Char} {pieces : List (List Char)}
    (mem : piece ∈ pieces) : ∃ before after,
      unlines pieces = unlines before ++ (piece ++ '\n' :: unlines after) := by
  obtain ⟨before, after, rfl⟩ := List.append_of_mem mem
  exact ⟨before, after, unlines_append before (piece :: after)⟩

theorem unlines_eq_nil_or_getLast? (pieces : List (List Char)) :
    unlines pieces = [] ∨ (unlines pieces).getLast? = some '\n' := by
  induction pieces with
  | nil => exact .inl rfl
  | cons piece pieces ih =>
    rw [unlines, List.getLast?_append, List.getLast?_cons]
    rcases ih with none | last
    · simp [none]
    · simp [last]

/-! ## The first lines -/

/-- The first lines of a text, with their ends. -/
def firstLines : Nat → List Char → List Char
  | 0, _ => []
  | _ + 1, [] => []
  | n + 1, c :: cs => c :: firstLines (if c = '\n' then n else n + 1) cs

theorem firstLines_append_newline {piece : List Char} (inside : '\n' ∉ piece) (n : Nat)
    (rest : List Char) :
    firstLines (n + 1) (piece ++ '\n' :: rest) = piece ++ '\n' :: firstLines n rest := by
  induction piece with
  | nil => simp [firstLines]
  | cons c piece ih =>
    rw [List.mem_cons, not_or] at inside
    rw [List.cons_append, firstLines, if_neg (Ne.symm inside.1), ih inside.2, List.cons_append]

theorem firstLines_unlines {pieces : List (List Char)} (inside : ∀ piece ∈ pieces, '\n' ∉ piece)
    (n : Nat) : firstLines n (unlines pieces) = unlines (pieces.take n) := by
  induction pieces generalizing n with
  | nil => cases n <;> rfl
  | cons piece pieces ih =>
    rw [List.forall_mem_cons] at inside
    cases n with
    | zero => simp [firstLines, unlines]
    | succ n =>
      rw [unlines, firstLines_append_newline inside.1, ih inside.2]
      rfl

theorem firstLines_unlines_append {pieces : List (List Char)}
    (inside : ∀ piece ∈ pieces, '\n' ∉ piece) (cs : List Char) :
    firstLines pieces.length (unlines pieces ++ cs) = unlines pieces := by
  induction pieces with
  | nil => simp [firstLines, unlines]
  | cons piece pieces ih =>
    rw [List.forall_mem_cons] at inside
    rw [unlines, List.append_assoc, List.cons_append, List.length_cons,
      firstLines_append_newline inside.1, ih inside.2]

theorem exists_lines_append_newline {piece : List Char} (inside : '\n' ∉ piece)
    (rest : List Char) : ∃ line, lines (piece ++ '\n' :: rest) = line :: lines rest := by
  induction piece with
  | nil => exact ⟨[], lines_newline rest⟩
  | cons c piece ih =>
    rw [List.mem_cons, not_or] at inside
    obtain ⟨line, ih⟩ := ih inside.2
    rw [List.cons_append, lines, if_neg (Ne.symm inside.1), ih]
    split
    · exact ⟨line, rfl⟩
    · exact ⟨c :: line, rfl⟩

theorem length_lines_append_newline {piece : List Char} (inside : '\n' ∉ piece)
    (rest : List Char) : (lines (piece ++ '\n' :: rest)).length = (lines rest).length + 1 := by
  obtain ⟨line, all⟩ := exists_lines_append_newline inside rest
  rw [all, List.length_cons]

/-- Lines that are each ended by a newline are as many lines. -/
theorem length_lines_unlines {pieces : List (List Char)} (inside : ∀ piece ∈ pieces, '\n' ∉ piece) :
    (lines (unlines pieces)).length = pieces.length := by
  induction pieces with
  | nil => rfl
  | cons piece pieces ih =>
    rw [List.forall_mem_cons] at inside
    rw [unlines, length_lines_append_newline inside.1, ih inside.2, List.length_cons]

/-! ## Words on one line -/

/-- A word that is part of one line. -/
structure Solid (word : List Char) : Prop where
  nonempty : word ≠ []
  line : '\n' ∉ word
  ending : word.getLast? ≠ some '\r'

theorem solid_of_all {word : List Char} {p : Char → Bool} (nonempty : word ≠ [])
    (all : word.all p = true) (no_newline : p '\n' = false) (no_return : p '\r' = false) :
    Solid word := by
  rw [List.all_eq_true] at all
  refine ⟨nonempty, fun mem => ?_, fun last => ?_⟩
  · rw [all _ mem] at no_newline
    cases no_newline
  · rw [all _ (List.mem_of_getLast? last)] at no_return
    cases no_return

theorem Solid.append_left {front word : List Char} (h : Solid word) (line : '\n' ∉ front) :
    Solid (front ++ word) := by
  refine ⟨List.append_ne_nil_of_right_ne_nil front h.nonempty, ?_, ?_⟩
  · rw [List.mem_append, not_or]
    exact ⟨line, h.line⟩
  · rw [List.getLast?_append_of_ne_nil front h.nonempty]
    exact h.ending

/-- No line ends before or after the first character of a word. -/
theorem same_line {c : Char} {word : List Char} (line : '\n' ∉ c :: word)
    (ending : (c :: word).getLast? ≠ some '\r') (rest : List Char) :
    c ≠ '\n' ∧ ¬ (c = '\r' ∧ (word ++ rest).head? = some '\n') := by
  simp only [List.mem_cons, not_or] at line
  refine ⟨Ne.symm line.1, ?_⟩
  rintro ⟨rfl, next⟩
  cases word with
  | nil => exact ending rfl
  | cons d word =>
    cases next
    exact line.2 List.mem_cons_self

/-! ## Where the lines of a text stand -/

/-- Behind some lines the lines of the rest follow. -/
theorem getElem?_lines_unlines_append {pieces : List (List Char)}
    (inside : ∀ piece ∈ pieces, '\n' ∉ piece) (cs : List Char) (i : Nat) :
    (lines (unlines pieces ++ cs))[pieces.length + i]? = (lines cs)[i]? := by
  induction pieces with
  | nil => simp [unlines]
  | cons piece pieces ih =>
    rw [List.forall_mem_cons] at inside
    obtain ⟨line, all⟩ := exists_lines_append_newline inside.1 (unlines pieces ++ cs)
    rw [unlines, List.append_assoc, List.cons_append, all, List.length_cons,
      Nat.add_right_comm, List.getElem?_cons_succ, ih inside.2]

/-- A word stands at the start of the line that it begins. -/
theorem exists_lines_append {word : List Char} (solid : Solid word) (rest : List Char) :
    ∃ more others, lines (word ++ rest) = (word ++ more) :: others := by
  obtain ⟨nonempty, line, ending⟩ := solid
  induction word with
  | nil => exact absurd rfl nonempty
  | cons c word ih =>
    obtain ⟨not_newline, not_ending⟩ := same_line line ending rest
    rw [List.cons_append, lines, if_neg not_newline, if_neg not_ending]
    cases word with
    | nil =>
      rw [List.nil_append]
      cases lines rest with
      | nil => exact ⟨[], [], rfl⟩
      | cons first others => exact ⟨first, others, rfl⟩
    | cons d word =>
      have line' : '\n' ∉ d :: word := fun mem => line (List.mem_cons_of_mem c mem)
      rw [List.getLast?_cons_cons] at ending
      obtain ⟨more, others, all⟩ := ih (List.cons_ne_nil d word) line' ending
      exact ⟨more, others, by rw [all]; rfl⟩

/-- A character in front of some lines belongs to the first of them. -/
theorem exists_unlines_cons {c : Char} (not_newline : c ≠ '\n') {pieces : List (List Char)}
    (nonempty : pieces ≠ []) (inside : ∀ piece ∈ pieces, '\n' ∉ piece) : ∃ longer,
      longer.length = pieces.length ∧ (∀ piece ∈ longer, '\n' ∉ piece) ∧
        c :: unlines pieces = unlines longer := by
  obtain ⟨piece, others, rfl⟩ := List.exists_cons_of_ne_nil nonempty
  rw [List.forall_mem_cons] at inside
  refine ⟨(c :: piece) :: others, rfl, ?_, rfl⟩
  rw [List.forall_mem_cons, List.mem_cons, not_or]
  exact ⟨⟨Ne.symm not_newline, inside.1⟩, inside.2⟩

/-- Where a line of a text stands in it. -/
theorem exists_append_of_getElem?_lines {cs line : List Char} {n : Nat}
    (h : (lines cs)[n]? = some line) : ∃ pieces rest, pieces.length = n ∧
      (∀ piece ∈ pieces, '\n' ∉ piece) ∧ cs = unlines pieces ++ (line ++ rest) := by
  fun_induction lines cs generalizing n line with
  | case1 => cases h
  | case2 cs ih =>
    cases n with
    | zero =>
      cases h
      exact ⟨[], '\n' :: cs, rfl, by simp, rfl⟩
    | succ n =>
      obtain ⟨pieces, rest, length, inside, rfl⟩ := ih h
      exact ⟨[] :: pieces, rest, by simp [length], by simpa using inside, rfl⟩
  | case3 c cs not_newline return_before ih =>
    cases n with
    | zero =>
      -- nothing stands before the carriage return
      obtain ⟨rest, rfl⟩ := List.head?_eq_some_iff.1 return_before.2
      rw [lines_newline] at h
      cases h
      exact ⟨[], c :: '\n' :: rest, rfl, by simp, rfl⟩
    | succ n =>
      obtain ⟨pieces, rest, length, inside, rfl⟩ := ih h
      have nonempty : pieces ≠ [] := List.ne_nil_of_length_eq_add_one length
      obtain ⟨longer, same, inside, whole⟩ := exists_unlines_cons not_newline nonempty inside
      exact ⟨longer, rest, same.trans length, inside, by rw [← whole, List.cons_append]⟩
  | case4 c cs not_newline other none_left ih =>
    cases n with
    | zero =>
      cases h
      exact ⟨[], cs, rfl, by simp, rfl⟩
    | succ n => simp at h
  | case5 c cs not_newline other first others found ih =>
    rw [found] at ih
    cases n with
    | zero =>
      cases h
      obtain ⟨pieces, rest, length, inside, rfl⟩ := @ih first 0 rfl
      rw [List.length_eq_zero_iff.1 length]
      exact ⟨[], rest, rfl, by simp, rfl⟩
    | succ n =>
      obtain ⟨pieces, rest, length, inside, rfl⟩ := @ih line (n + 1) h
      have nonempty : pieces ≠ [] := List.ne_nil_of_length_eq_add_one length
      obtain ⟨longer, same, inside, whole⟩ := exists_unlines_cons not_newline nonempty inside
      exact ⟨longer, rest, same.trans length, inside, by rw [← whole, List.cons_append]⟩

/-! ## Numbers in decimal -/

theorem all_isDigit_decimal (n : Nat) : (decimal n).all isDigit = true := by
  unfold decimal
  rw [Nat.toString_eq_ofList_toDigits, String.toList_ofList, List.all_eq_true]
  intro c mem
  have digit := Nat.isDigit_of_mem_toDigits (by decide) (by decide) mem
  exact digit

theorem not_mem_decimal {c : Char} (other : isDigit c = false) (n : Nat) : c ∉ decimal n := by
  intro mem
  have digit := List.all_eq_true.1 (all_isDigit_decimal n) c mem
  rw [other] at digit
  cases digit

theorem decimalValue_decimal (n : Nat) : decimalValue (decimal n) = n := by
  unfold decimal
  rw [Nat.toString_eq_ofList_toDigits, String.toList_ofList]
  calc decimalValue (Nat.toDigits 10 n) = Nat.ofDigitChars 10 (Nat.toDigits 10 n) 0 :=
        Nat.ofDigitChars_eq_foldl.symm
    _ = n := Nat.ofDigitChars_ten_toDigits

theorem decimal_ne_nil (n : Nat) : decimal n ≠ [] := by
  unfold decimal
  rw [Nat.toString_eq_ofList_toDigits, String.toList_ofList]
  exact Nat.toDigits_ne_nil

theorem lineNumber?_decimal {n : Nat} (small : n < lineLimit) :
    lineNumber? (decimal n) = some n := by
  have unsigned : (decimal n).head? ≠ some '+' := by
    intro sign
    have digit := List.all_eq_true.1 (all_isDigit_decimal n) _ (List.mem_of_mem_head? sign)
    cases digit
  unfold lineNumber?
  rw [if_neg unsigned]
  dsimp only
  rw [if_pos ⟨decimal_ne_nil n, all_isDigit_decimal n, by rwa [decimalValue_decimal]⟩,
    decimalValue_decimal]

end Text

end TradeScript
