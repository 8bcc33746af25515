import TradeScript.Proofs.Script.NearestElse
import TradeScript.Proofs.Tree.Parsing

/-!
# Reading a script

The parser of scripts reads exactly the tokens whose kinds can be derived, and returns the only
reading that gives every else to the nearest if (`Script.parse_eq_ok_iff`). Otherwise it reports the
first token that no script can have after the tokens before it, or the end of the input
(`Script.pointsAt_or_pointsBehind`).
-/

namespace TradeScript

namespace Script

open Grammar

/-- A reading that gives every else to the nearest if is what the parser returns. -/
theorem parse_eq_ok_of_reads {n : NonTerminal} {tokens : List Token} {t : Tree}
    (h : grammar.Reads NearestElse (.symbol (.nonTerminal n)) tokens [t] []) :
    Tree.parse grammar n tokens = .ok t := by
  obtain ⟨taken, split, yields⟩ := h.yields
  rw [List.append_nil] at split
  rw [← split] at yields
  obtain ⟨u, parsed⟩ := (Tree.exists_parse_eq_ok_iff decisive).2 yields
  have reading := nearestElse_of_firstFit (Tree.reads_of_parse_eq_ok parsed)
  rwa [nearestElse_unique h reading]

/-- The tokens that are read are those that can be derived, and the tree is their only reading that
gives every else to the nearest if. -/
theorem parse_eq_ok_iff (n : NonTerminal) (tokens : List Token) :
    ((∃ t, Tree.parse grammar n tokens = .ok t) ↔
      grammar.Yields (.symbol (.nonTerminal n)) (tokens.map Token.kind)) ∧
    ∀ t, Tree.parse grammar n tokens = .ok t ↔
      grammar.Reads NearestElse (.symbol (.nonTerminal n)) tokens [t] [] ∧
        ∀ t', grammar.Reads NearestElse (.symbol (.nonTerminal n)) tokens [t'] [] → t' = t := by
  refine ⟨Tree.exists_parse_eq_ok_iff decisive, fun t => ⟨fun h => ?_, fun h => ?_⟩⟩
  · have reading := nearestElse_of_firstFit (Tree.reads_of_parse_eq_ok h)
    exact ⟨reading, fun t' other => nearestElse_unique other reading⟩
  · exact parse_eq_ok_of_reads h.1

/-- A diagnostic is about the first token that is impossible after those before it, or about the end
of the input if there is no such token. -/
theorem pointsAt_or_pointsBehind {n : NonTerminal} {tokens : List Token} {d : Diagnostic}
    (h : Tree.parse grammar n tokens = .error d) :
    (∀ i t, grammar.FirstImpossible n tokens i → tokens[i]? = some t → d.PointsAt t) ∧
      ((∀ i, ¬ grammar.FirstImpossible n tokens i) → d.PointsBehind tokens) :=
  ⟨fun _ _ first at_i => Tree.pointsAt_of_parse_eq_error decisive h first at_i,
    Tree.pointsBehind_of_parse_eq_error decisive h⟩

/-! ### A break without its semicolon -/

theorem alternatives_breakStatement :
    grammar.alternatives .breakStatement = [[keyword .break, mark .semicolon]] := by
  decide +kernel

theorem mem_breakStatement {ks : List Terminal} :
    ks ∈ grammar.language (.symbol (.nonTerminal .breakStatement)) ↔
      ks = [.keyword .break, .mark .semicolon] := by
  have parts : grammar.language (.parts [keyword .break, mark .semicolon]) =
      {[.keyword .break]} * {[.mark .semicolon]} := by
    simp only [keyword, mark, token, language_cons, language_once, language_terminal,
      language_nil, mul_one]
  rw [mem_language_phrase, alternatives_breakStatement]
  simp only [List.mem_singleton, exists_eq_left, parts]
  constructor
  · rintro ⟨_, rfl, _, rfl, rfl⟩
    rfl
  · rintro rfl
    exact ⟨_, rfl, _, rfl, rfl⟩

/-- Tokens of a break statement that has a number in place of its semicolon. -/
def brokenBreak : List Token :=
  [⟨.keyword .break, "break", ⟨"a.dts", 1, 1⟩⟩, ⟨.number, "5", ⟨"a.dts", 1, 7⟩⟩]

theorem parse_brokenBreak : Tree.parse grammar .breakStatement brokenBreak =
    .error ⟨⟨"a.dts", 1, 7⟩, "expected ';', found '5'", 1⟩ := by
  simp [Tree.parse, Matching.phrase, alternatives_breakStatement, Matching.alternatives,
    Matching.parts, Matching.part, Matching.symbol, keyword, mark, token, Matching.enteredAfter,
    brokenBreak]
  decide

theorem firstImpossible_brokenBreak :
    grammar.FirstImpossible .breakStatement brokenBreak 1 := by
  refine ⟨by decide, ?_, ?_⟩
  · rintro ⟨ks, yields⟩
    have whole := mem_breakStatement.1 yields
    cases whole
  · intro j lt
    obtain rfl : j = 0 := by omega
    exact ⟨[.mark .semicolon], mem_breakStatement.2 rfl⟩

/-- Tokens of a break statement that end before its semicolon. -/
def openBreak : List Token :=
  [⟨.keyword .break, "break", ⟨"a.dts", 1, 1⟩⟩]

theorem parse_openBreak : Tree.parse grammar .breakStatement openBreak =
    .error ⟨⟨"a.dts", 1, 6⟩, "expected ';', found end of input", 1⟩ := by
  simp [Tree.parse, Matching.phrase, alternatives_breakStatement, Matching.alternatives,
    Matching.parts, Matching.part, Matching.symbol, keyword, mark, token, Matching.enteredAfter,
    openBreak]
  decide

theorem not_firstImpossible_openBreak (i : Nat) :
    ¬ grammar.FirstImpossible .breakStatement openBreak i := by
  rintro ⟨lt, impossible, -⟩
  obtain rfl : i = 0 := Nat.lt_one_iff.1 lt
  exact impossible ⟨[.mark .semicolon], mem_breakStatement.2 rfl⟩

theorem pointsAt_brokenBreak_and_pointsBehind_openBreak :
    Diagnostic.PointsAt ⟨⟨"a.dts", 1, 7⟩, "expected ';', found '5'", 1⟩
        ⟨.number, "5", ⟨"a.dts", 1, 7⟩⟩ ∧
      Diagnostic.PointsBehind ⟨⟨"a.dts", 1, 6⟩, "expected ';', found end of input", 1⟩
        openBreak :=
  ⟨(pointsAt_or_pointsBehind parse_brokenBreak).1 1 _ firstImpossible_brokenBreak rfl,
    (pointsAt_or_pointsBehind parse_openBreak).2 not_firstImpossible_openBreak⟩

end Script

end TradeScript
