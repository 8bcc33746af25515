import TradeScript.Proofs.Script.Parsing
import TradeScript.Proofs.Tree.CutShort

/-!
# Brackets left open

Tokens that could go on with a closing bracket are no script themselves, and reading them fails at
their end, where that bracket is expected (`Script.parse_eq_error_of_open`).
-/

namespace TradeScript

namespace Script

open Grammar

/-- The marks that close a bracket. -/
def closingBrackets : List Mark :=
  [.rightBrace, .rightParen, .rightBracket]

set_option maxRecDepth 10000 in
theorem closing_of_bracket {bracket : Mark} (closes : bracket ∈ closingBrackets) :
    grammar.Closing (.mark bracket) := by
  have all : ∀ m ∈ closingBrackets, (Terminal.mark m ≠ .mark .comma ∧
      ∀ r ∈ grammar.rules, ∀ a ∈ r.2, Alternative.closes (.mark m) false a = true) := by
    decide +kernel
  obtain ⟨ne_comma, only_closes⟩ := all bracket closes
  exact ⟨ne_comma, only_closes⟩

/-- A script may be empty. -/
theorem parse_nil : ∃ t, Tree.parse grammar .program [] = .ok t :=
  (Tree.exists_parse_eq_ok_iff decisive).2
    (.phrase (by decide +kernel : [many .item] ∈ grammar.alternatives .program)
      (.cons (.repeated (.manyNil _)) .nil))

theorem message_expected (m : Mark) :
    (Misfit.expected (.terminal (.mark m))).message "end of input" =
      "expected '" ++ String.singleton m.char ++ "', found end of input" := by
  apply String.toList_injective
  simp [Misfit.message, Symbol.describe, Terminal.describe]

/-- Tokens behind which a closing bracket can stand are refused directly behind the last of them,
where that bracket is expected. -/
theorem parse_eq_error_of_open {tokens : List Token} {bracket : Mark}
    (closes : bracket ∈ closingBrackets)
    (viable : grammar.Viable .program (tokens.map Token.kind ++ [.mark bracket])) :
    ∃ last, tokens.getLast? = some last ∧ Tree.parse grammar .program tokens =
      .error ⟨⟨last.start.file, last.start.line, last.start.column + last.value.length⟩,
        "expected '" ++ String.singleton bracket.char ++ "', found end of input", 1⟩ := by
  obtain ⟨ks, yields⟩ := viable
  let next : Token := ⟨.mark bracket, "", Position.none⟩
  let after : List Token := ks.map fun k => ⟨k, "", Position.none⟩
  have kinds : (tokens ++ next :: after).map Token.kind =
      tokens.map Token.kind ++ [.mark bracket] ++ ks := by
    simp [next, after, Function.comp_def]
  rw [← kinds] at yields
  obtain ⟨t, whole⟩ := (Tree.exists_parse_eq_ok_iff decisive).2 yields
  have short := Tree.parse_cutShort (closing_of_bracket closes) whole
  cases last : tokens.getLast? with
  | none =>
    obtain rfl := List.getLast?_eq_none_iff.1 last
    obtain ⟨t', empty⟩ := parse_nil
    rw [empty] at short
    cases short
  | some token =>
    refine ⟨token, rfl, ?_⟩
    rw [short, ← message_expected]
    simp [Misfit.diagnose, last, Token.stop, Position.advance, Token.width, next]

/-! ### A loop whose header is left open -/

/-- The tokens of the text `{for(;;`. -/
def openHeader : List Token :=
  [⟨.mark .leftBrace, "\x7b", ⟨"a.dts", 1, 1⟩⟩, ⟨.keyword .for, "for", ⟨"a.dts", 1, 2⟩⟩,
    ⟨.mark .leftParen, "(", ⟨"a.dts", 1, 5⟩⟩, ⟨.mark .semicolon, ";", ⟨"a.dts", 1, 6⟩⟩,
    ⟨.mark .semicolon, ";", ⟨"a.dts", 1, 7⟩⟩]

theorem viable_openHeader :
    grammar.Viable .program (openHeader.map Token.kind ++ [.mark .rightParen]) := by
  have empty := Yields.phrase
    (by decide +kernel : [mark .semicolon] ∈ grammar.alternatives .emptyStatement)
    (.cons (.once (.terminal _)) .nil)
  have initializer := Yields.phrase
    (by decide +kernel : [phrase .emptyStatement] ∈ grammar.alternatives .forInitializer)
    (.cons (.once empty) .nil)
  have body := Yields.phrase
    (by decide +kernel : [phrase .emptyStatement] ∈ grammar.alternatives .statement)
    (.cons (.once empty) .nil)
  have loop := Yields.phrase
    (by decide +kernel : [keyword .for, mark .leftParen, phrase .forInitializer,
        maybe .expression, mark .semicolon, maybe .expression, mark .rightParen,
        phrase .statement] ∈ grammar.alternatives .forStatement)
    (.cons (.once (.terminal _)) (.cons (.once (.terminal _)) (.cons (.once initializer)
      (.cons (.omitted _) (.cons (.once (.terminal _)) (.cons (.omitted _)
        (.cons (.once (.terminal _)) (.cons (.once body) .nil))))))))
  have inner := Yields.phrase
    (by decide +kernel : [phrase .forStatement] ∈ grammar.alternatives .statement)
    (.cons (.once loop) .nil)
  have block := Yields.phrase
    (by decide +kernel :
      [mark .leftBrace, many .statement, mark .rightBrace] ∈ grammar.alternatives .block)
    (.cons (.once (.terminal _)) (.cons (.repeated (.manyCons inner (.manyNil _)))
      (.cons (.once (.terminal _)) .nil)))
  have outer := Yields.phrase
    (by decide +kernel : [phrase .block] ∈ grammar.alternatives .statement)
    (.cons (.once block) .nil)
  have item := Yields.phrase
    (by decide +kernel : [phrase .statement] ∈ grammar.alternatives .item)
    (.cons (.once outer) .nil)
  have program := Yields.phrase
    (by decide +kernel : [many .item] ∈ grammar.alternatives .program)
    (.cons (.repeated (.manyCons item (.manyNil _))) .nil)
  exact ⟨[.mark .semicolon, .mark .rightBrace], program⟩

theorem parse_openHeader : ∃ last, openHeader.getLast? = some last ∧
    Tree.parse grammar .program openHeader =
      .error ⟨⟨last.start.file, last.start.line, last.start.column + last.value.length⟩,
        "expected '" ++ String.singleton Mark.rightParen.char ++ "', found end of input", 1⟩ :=
  parse_eq_error_of_open (by decide) viable_openHeader

end Script

end TradeScript
