import TradeScript.Code.Layout
import TradeScript.Proofs.Token.Lexing

/-!
# The layout of generated code

However code is set out in lines, it consists of the words of its pieces with gaps between them
(`Piece.spaced_render`), and so it does after each of its lines has been indented
(`Text.Spaced.indent`).
-/

namespace TradeScript

open Text

namespace Piece

/-- The word of a piece. -/
def text : Piece → List Char
  | word text => text
  | opening text => text
  | closing text => text
  | ending text => text

end Piece

namespace Text

theorem Spaced.gap {words : List (List Char)} {text gap : List Char} (h : Spaced words text)
    (blank : gap.all isGap = true) : Spaced words (gap ++ text) := by
  cases h with
  | nil blank' => exact .nil (by rw [List.all_append, blank, blank']; rfl)
  | @cons gap' word rest others blank' breaks more =>
    rw [← List.append_assoc, ← List.append_assoc]
    exact .cons (by rw [List.all_append, blank, blank']; rfl) breaks more

theorem Spaced.newline {words : List (List Char)} {text : List Char} (h : Spaced words text) :
    Spaced words ('\n' :: text) := by
  have one : Spaced words (['\n'] ++ text) := h.gap rfl
  exact one

theorem breaks_of_isGap {c : Char} (h : isGap c = true) (rest : List Char) :
    Breaks (c :: rest) := by
  rintro d ⟨⟩
  exact .inl h

theorem all_isGap_tabs (depth : Nat) : (List.replicate depth '\t').all isGap = true := by
  simp [isGap]

end Text

namespace Piece

/-! ## Rendering -/

theorem all_isGap_lead (depth : Nat) (fresh : Bool) (text : List Char) :
    (lead depth fresh text).all isGap = true := by
  unfold lead
  split
  · exact all_isGap_tabs depth
  · split <;> rfl

theorem breaks_lead (depth : Nat) (text rest : List Char) :
    Breaks (lead depth false text ++ text ++ rest) := by
  unfold lead
  rw [if_neg (by decide)]
  split
  · next tight =>
    rcases tight with rfl | rfl
    · rintro d ⟨⟩
      exact .inr (.inl rfl)
    · rintro d ⟨⟩
      exact .inr (.inr rfl)
  · exact breaks_of_isGap rfl _

/-- Rendered pieces are their words with gaps between them, and what is rendered within a line does
not go on with the word before it. -/
theorem spaced_render (pieces : List Piece) (depth : Nat) (fresh : Bool) :
    Spaced (pieces.map text) (render depth fresh pieces) ∧
      (fresh = false → Breaks (render depth fresh pieces)) := by
  induction pieces generalizing depth fresh with
  | nil => exact ⟨.nil rfl, fun _ => breaks_nil⟩
  | cons piece others ih =>
    have newline : ∀ (depth : Nat), Spaced (others.map text) ('\n' :: render depth true others) :=
      fun depth => (ih depth true).1.newline
    have blank := all_isGap_lead
    cases piece with
    | word word =>
      rw [render]
      refine ⟨.cons (blank depth fresh word) ((ih depth false).2 rfl) (ih depth false).1, ?_⟩
      rintro rfl
      exact breaks_lead depth word _
    | opening word =>
      rw [render]
      refine ⟨.cons (blank depth fresh word) (breaks_of_isGap rfl _) (newline _), ?_⟩
      rintro rfl
      exact breaks_lead depth word _
    | ending word =>
      rw [render]
      refine ⟨.cons (blank depth fresh word) (breaks_of_isGap rfl _) (newline _), ?_⟩
      rintro rfl
      exact breaks_lead depth word _
    | closing word =>
      rw [render]
      have line : Spaced (text (.closing word) :: others.map text)
          (lead (depth - 1) true word ++ word ++ '\n' :: render (depth - 1) true others) :=
        .cons (blank _ _ _) (breaks_of_isGap rfl _) (newline _)
      cases fresh with
      | true => exact ⟨line, fun within => by cases within⟩
      | false =>
        refine ⟨?_, fun _ => breaks_of_isGap rfl _⟩
        simpa using line.newline

end Piece

/-! ## Indentation

`tabbed` indents a text character by character, given whether a line has just begun.
-/

/-- A text with tabs before each line that is not empty, without the newline at its end. -/
def tabbed (depth : Nat) (fresh : Bool) : List Char → List Char
  | [] => []
  | c :: cs =>
    if c = '\n' then if cs = [] then [] else '\n' :: tabbed depth true cs
    else if c = '\r' ∧ cs.head? = some '\n' then tabbed depth fresh cs
    else (if fresh then List.replicate depth '\t' else []) ++ c :: tabbed depth false cs

/-- A line with tabs before it unless it is empty. -/
def tabbedLine (depth : Nat) (line : List Char) : List Char :=
  if line = [] then [] else List.replicate depth '\t' ++ line

namespace Text

theorem join_cons (separator piece : List Char) (others : List (List Char)) :
    join separator (piece :: others) =
      piece ++ if others = [] then [] else separator ++ join separator others := by
  cases others with
  | nil => simp [join]
  | cons next others => simp [join]

theorem lines_eq_nil_iff {cs : List Char} : lines cs = [] ↔ cs = [] := by
  induction cs with
  | nil => simp [lines]
  | cons c cs ih =>
    rw [lines]
    simp only [reduceCtorEq, iff_false]
    split
    · simp
    · split
      · next ending =>
        rw [ih]
        rintro rfl
        cases ending.2
      · split <;> simp

end Text

theorem tabbed_eq (depth : Nat) (cs : List Char) :
    tabbed depth true cs = join ['\n'] ((lines cs).map (tabbedLine depth)) ∧
      tabbed depth false cs = match lines cs with
        | [] => []
        | first :: others => first ++
            (if others = [] then [] else '\n' :: join ['\n'] (others.map (tabbedLine depth))) := by
  induction cs with
  | nil => exact ⟨rfl, rfl⟩
  | cons c cs ih =>
    rw [tabbed, tabbed, lines]
    by_cases newline : c = '\n'
    · simp only [newline, if_true, List.map_cons, join_cons, List.map_eq_nil_iff,
        lines_eq_nil_iff, tabbedLine, List.nil_append, List.singleton_append, ih.1, and_self]
    · rw [if_neg newline, if_neg newline, if_neg newline]
      by_cases ending : c = '\r' ∧ cs.head? = some '\n'
      · rw [if_pos ending, if_pos ending, if_pos ending]
        exact ih
      · rw [if_neg ending, if_neg ending, if_neg ending, ih.2]
        cases lines cs with
        | nil => simp [join, tabbedLine]
        | cons first others => simp [join_cons, tabbedLine]

theorem indent_eq_tabbed (depth : Nat) (cs : List Char) : indent depth cs = tabbed depth true cs :=
  (tabbed_eq depth cs).1.symm

theorem tabbed_append {word : List Char} (line : '\n' ∉ word) (ending : word.getLast? ≠ some '\r')
    (depth : Nat) (rest : List Char) :
    tabbed depth false (word ++ rest) = word ++ tabbed depth false rest := by
  induction word with
  | nil => rfl
  | cons c word ih =>
    obtain ⟨not_newline, not_ending⟩ := same_line line ending rest
    have line' : '\n' ∉ word := fun mem => line (List.mem_cons_of_mem c mem)
    have ending' : word.getLast? ≠ some '\r' := by
      cases word with
      | nil => simp
      | cons d word => rwa [List.getLast?_cons_cons] at ending
    rw [List.cons_append, tabbed, if_neg not_newline, if_neg not_ending, ih line' ending']
    simp

theorem tabbed_gap {gap : List Char} (blank : gap.all isGap = true) (depth : Nat) (fresh : Bool) :
    (tabbed depth fresh gap).all isGap = true := by
  induction gap generalizing fresh with
  | nil => rfl
  | cons c gap ih =>
    simp only [List.all_cons, Bool.and_eq_true] at blank
    rw [tabbed]
    split
    · split
      · rfl
      · simpa [isGap] using ih blank.2 true
    · split
      · exact ih blank.2 fresh
      · rw [List.all_append, List.all_cons, blank.1, ih blank.2 false]
        cases fresh <;> simp [isGap]

theorem tabbed_gap_append {gap word : List Char} (blank : gap.all isGap = true)
    (solid : Solid word) (depth : Nat) (fresh : Bool) (rest : List Char) :
    ∃ gap', gap'.all isGap = true ∧
      tabbed depth fresh (gap ++ word ++ rest) = gap' ++ word ++ tabbed depth false rest := by
  induction gap generalizing fresh with
  | nil =>
    have within := tabbed_append solid.line solid.ending depth rest
    cases word with
    | nil => exact absurd rfl solid.nonempty
    | cons c word =>
      obtain ⟨not_newline, not_ending⟩ := same_line solid.line solid.ending rest
      rw [List.cons_append, tabbed, if_neg not_newline, if_neg not_ending] at within
      refine ⟨if fresh then List.replicate depth '\t' else [], ?_, ?_⟩
      · cases fresh <;> simp [isGap]
      · rw [List.nil_append, List.cons_append, tabbed, if_neg not_newline, if_neg not_ending,
          List.append_assoc, ← within]
        simp
  | cons c gap ih =>
    simp only [List.all_cons, Bool.and_eq_true] at blank
    rw [List.cons_append, List.cons_append, tabbed]
    by_cases newline : c = '\n'
    · have more : gap ++ word ++ rest ≠ [] := by simp [solid.nonempty]
      obtain ⟨gap', blank', whole⟩ := ih blank.2 true
      refine ⟨'\n' :: gap', by simpa [isGap] using blank', ?_⟩
      rw [if_pos newline, if_neg more, whole]
      rfl
    · have not_ending : ¬ (c = '\r' ∧ (gap ++ word ++ rest).head? = some '\n') := by
        rintro ⟨rfl, -⟩
        cases blank.1
      obtain ⟨gap', blank', whole⟩ := ih blank.2 false
      refine ⟨(if fresh then List.replicate depth '\t' else []) ++ c :: gap', ?_, ?_⟩
      · rw [List.all_append, List.all_cons, blank.1, blank']
        cases fresh <;> simp [isGap]
      · rw [if_neg newline, if_neg not_ending, whole]
        simp

theorem breaks_tabbed {rest : List Char} (h : Breaks rest) (depth : Nat) :
    Breaks (tabbed depth false rest) := by
  cases rest with
  | nil => exact h
  | cons c rest =>
    have first := h c rfl
    have not_return : c ≠ '\r' := by
      rintro rfl
      rcases first with gap | comma | semicolon
      · cases gap
      · cases comma
      · cases semicolon
    rw [tabbed]
    split
    · split
      · exact breaks_nil
      · exact breaks_of_isGap rfl _
    · rw [if_neg (fun ending => not_return ending.1)]
      rintro d ⟨⟩
      exact first

/-- Indented text consists of the same words. -/
theorem Text.Spaced.tabbed {words : List (List Char)} {text : List Char} (h : Spaced words text)
    (solid : ∀ word ∈ words, Solid word) (depth : Nat) (fresh : Bool) :
    Spaced words (tabbed depth fresh text) := by
  induction h generalizing fresh with
  | nil blank => exact .nil (tabbed_gap blank depth fresh)
  | @cons gap word rest others blank breaks more ih =>
    rw [List.forall_mem_cons] at solid
    obtain ⟨gap', blank', whole⟩ := tabbed_gap_append blank solid.1 depth fresh rest
    rw [whole]
    exact .cons blank' (breaks_tabbed breaks depth) (ih solid.2 false)

theorem Text.Spaced.indent {words : List (List Char)} {text : List Char} (h : Spaced words text)
    (solid : ∀ word ∈ words, Solid word) (depth : Nat) :
    Spaced words (indent depth text) := by
  rw [indent_eq_tabbed]
  exact h.tabbed solid depth true

end TradeScript
