import TradeScript.Diagnostic
import TradeScript.Proofs.Text.Lines

/-!
# The caret of a diagnostic

A diagnostic in its context is printed in three rows: the message, the line of the script behind its
number, and a caret. The number is set flush right in five places and takes more if it is longer, but
the row of the caret always begins with the margin of a short number. So the caret stands under the
character that is meant just in the first 99999 lines of a file, and behind them too far to the left
by each digit beyond the fifth.

Main statement: `Diagnostic.caret_of_inContext`.
-/

namespace TradeScript

open Text

namespace Diagnostic

variable {d : Diagnostic} {source : String}

/-- The message before the line of the script. -/
def messageRow (d : Diagnostic) : List Char :=
  ("dtbuild: " ++ d.start.file ++ ":" ++ toString d.start.line ++ ":" ++
    toString d.start.column ++ ": error: " ++ d.text).toList

/-- What stands before the line of the script in its row. -/
def margin (d : Diagnostic) : List Char :=
  padLeft 5 (decimal d.start.line) ++ " | ".toList

/-- What stands before the caret in its row. -/
def indent (d : Diagnostic) : List Char :=
  "      | ".toList ++ List.replicate (d.start.column - 1) ' '

theorem bar_eq : " | ".toList = [' ', '|', ' '] :=
  rfl

theorem blankBar_eq : "      | ".toList = List.replicate 6 ' ' ++ ['|', ' '] :=
  rfl

theorem length_margin (d : Diagnostic) :
    d.margin.length = max 5 (decimal d.start.line).length + 3 := by
  unfold margin padLeft
  rw [bar_eq, List.length_append, List.length_append, List.length_replicate, Nat.sub_add_eq_max]
  rfl

theorem length_indent (d : Diagnostic) : d.indent.length = 8 + (d.start.column - 1) := by
  unfold indent
  rw [blankBar_eq, List.length_append, List.length_replicate]
  rfl

theorem caret_not_mem_indent (d : Diagnostic) : '^' ∉ d.indent := by
  unfold indent
  rw [blankBar_eq]
  simp

/-! ## The rows -/

theorem newline_not_mem_messageRow (file : '\n' ∉ d.start.file.toList)
    (text : '\n' ∉ d.text.toList) : '\n' ∉ d.messageRow := by
  have number (n : Nat) : '\n' ∉ (toString n).toList := not_mem_decimal rfl n
  simp only [messageRow, String.toList_append, List.mem_append, file, text, number]
  decide

theorem newline_not_mem_sourceRow {line : List Char} (inside : '\n' ∉ line) :
    '\n' ∉ d.sourceRow line := by
  have number : '\n' ∉ decimal d.start.line := not_mem_decimal rfl _
  unfold sourceRow padLeft
  rw [bar_eq]
  simp [inside, number]

theorem newline_not_mem_caretRow : '\n' ∉ d.caretRow := by
  unfold caretRow
  rw [blankBar_eq]
  simp

theorem sourceRow_eq (d : Diagnostic) (line : List Char) : d.sourceRow line = d.margin ++ line :=
  rfl

theorem caretRow_eq (d : Diagnostic) :
    d.caretRow = d.indent ++ '^' :: List.replicate (max d.width 1 - 1) '~' := by
  have tildes : d.width - 1 = max d.width 1 - 1 := by omega
  unfold caretRow indent
  rw [tildes]

/-- A diagnostic in its context has three rows. -/
theorem split_inContext (file : '\n' ∉ d.start.file.toList) (text : '\n' ∉ d.text.toList)
    (line : '\n' ∉ source.toList) : split '\n' (d.inContext source).toList =
      [d.messageRow, d.sourceRow source.toList, d.caretRow] := by
  have rows : (d.inContext source).toList =
      d.messageRow ++ '\n' :: (d.sourceRow source.toList ++ '\n' :: d.caretRow) := by
    unfold inContext messageRow
    simp
  rw [rows, split_append_cons (newline_not_mem_messageRow file text),
    split_append_cons (newline_not_mem_sourceRow line),
    split_eq_singleton newline_not_mem_caretRow]

/-! ## The place of the caret -/

/-- The caret stands under the character of the script that is meant, and a tilde stands for each
further one. -/
def Aligned (d : Diagnostic) (source : String) : Prop :=
  ∃ message margin indent, split '\n' (d.inContext source).toList =
      [message, margin ++ source.toList, indent ++ '^' :: List.replicate (max d.width 1 - 1) '~'] ∧
    '^' ∉ indent ∧ indent.length = margin.length + (d.start.column - 1)

theorem caret_place (d : Diagnostic) : d.margin.length + (d.start.column - 1) =
    d.indent.length + ((decimal d.start.line).length - 5) := by
  rw [length_margin, length_indent]
  omega

/-- A number that fits in five places. -/
theorem length_decimal_le_five_iff {n : Nat} : (decimal n).length ≤ 5 ↔ n < 100000 := by
  unfold decimal
  rw [Nat.toString_eq_ofList_toDigits, String.toList_ofList]
  exact Nat.length_toDigits_le_iff (by decide) (by decide)

theorem length_indent_eq_iff :
    d.indent.length = d.margin.length + (d.start.column - 1) ↔ d.start.line < 100000 := by
  rw [← length_decimal_le_five_iff, caret_place]
  omega

theorem aligned_iff (file : '\n' ∉ d.start.file.toList) (text : '\n' ∉ d.text.toList)
    (line : '\n' ∉ source.toList) : Aligned d source ↔ d.start.line < 100000 := by
  have rows := split_inContext file text line
  rw [sourceRow_eq, caretRow_eq] at rows
  rw [← length_indent_eq_iff]
  constructor
  · rintro ⟨message, margin, indent, split, -, same⟩
    simp only [rows, List.cons.injEq, List.append_cancel_right_eq, and_true] at split
    obtain ⟨-, rfl, rfl⟩ := split
    exact same
  · exact fun same => ⟨_, _, _, rows, d.caret_not_mem_indent, same⟩

/-- The caret stands under the character that is meant just if the number of the line has at most
five digits; else it stands further left by one place for each digit more. Tildes stand for the other
characters that are meant, and nothing follows them. -/
theorem caret_of_inContext (file : '\n' ∉ d.start.file.toList) (text : '\n' ∉ d.text.toList)
    (line : '\n' ∉ source.toList) : (Aligned d source ↔ d.start.line < 100000) ∧
      ∃ message margin indent, split '\n' (d.inContext source).toList =
        [message, margin ++ source.toList,
          indent ++ '^' :: List.replicate (max d.width 1 - 1) '~'] ∧
        '^' ∉ indent ∧ margin.length + (d.start.column - 1) =
          indent.length + ((decimal d.start.line).length - 5) := by
  refine ⟨aligned_iff file text line, d.messageRow, d.margin, d.indent, ?_,
    d.caret_not_mem_indent, d.caret_place⟩
  rw [split_inContext file text line, sourceRow_eq, caretRow_eq]

/-- A missing semicolon in the third line of a script. -/
def early : Diagnostic :=
  ⟨⟨"algo.dts", 3, 5⟩, "expected ';', found '\x7d'", 1⟩

/-- A word in a line with a longer number. -/
def late : Diagnostic :=
  ⟨⟨"algo.dts", 123456, 2⟩, "unexpected 'else'", 4⟩

theorem caret_of_inContext_early_late :
    Aligned early "    \x7d" ∧ ¬ Aligned late "\telse" := by
  have below := @caret_of_inContext early "    \x7d" (by decide) (by decide) (by decide)
  have apart := @caret_of_inContext late "\telse" (by decide) (by decide) (by decide)
  exact ⟨below.1.2 (by decide), fun aligned => absurd (apart.1.1 aligned) (by decide)⟩

/-- On the first line with a number of six digits the caret is one place off. -/
theorem not_forall_aligned : ¬ ∀ (d : Diagnostic) (source : String),
    '\n' ∉ d.start.file.toList → '\n' ∉ d.text.toList → '\n' ∉ source.toList →
      1 ≤ d.start.column → d.start.column ≤ source.length → Aligned d source := by
  intro claim
  have aligned := claim ⟨⟨"a.dts", 100000, 1⟩, "m", 1⟩ "x" (by decide) (by decide) (by decide)
    (by decide) (by decide)
  exact absurd ((aligned_iff (by decide) (by decide) (by decide)).1 aligned) (by decide)

end Diagnostic

end TradeScript
