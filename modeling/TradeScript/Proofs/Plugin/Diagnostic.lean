import TradeScript.Command.Execution
import TradeScript.Proofs.Plugin.Return
import TradeScript.Proofs.Source.Elision

/-!
# The places of syntax errors

A syntax error that keeps an algorithm from being composed is at a token of a script or directly
behind its last token. It therefore names the file of the algorithm or of a script that it leads
to, a line that this file has, and a column of this line or the one behind it; so the report can
always show the line (`Plugin.places_of_compose`).
-/

namespace TradeScript

open Text Relation
open Requirement (Requires requires_iff)

/-! ## Paths without newlines -/

namespace Requirement

theorem exists_line_of_mem_named {number k : Nat} {lines : List (List Char)} {argument : List Char}
    (h : (argument, k) ∈ named number lines) : ∃ line ∈ lines, argument? line = some argument := by
  induction lines generalizing number with
  | nil => cases h
  | cons line others ih =>
    rw [named] at h
    split at h
    · obtain ⟨found, mem, same⟩ := ih h
      exact ⟨found, List.mem_cons_of_mem _ mem, same⟩
    · next own at_line =>
      rcases List.mem_cons.1 h with same | later
      · cases same
        exact ⟨line, List.mem_cons_self, at_line⟩
      · obtain ⟨found, mem, same⟩ := ih later
        exact ⟨found, List.mem_cons_of_mem _ mem, same⟩

variable {files : FileSet} {p q : Path}

/-- The scripts that a script requires have no newlines in their paths if it has none. -/
theorem Requires.newline_not_mem (h : Requires files p q) (inside : '\n' ∉ p.chars) :
    '\n' ∉ q.chars := by
  obtain ⟨targets, readable, mem⟩ := requires_iff.1 h
  cases loaded : files.load p with
  | error failure =>
    simp only [requiredBy, loaded] at readable
    cases readable
  | ok text =>
    cases found : ofText p text with
    | error failure =>
      simp only [requiredBy, loaded, bind, Except.bind, found] at readable
      cases readable
    | ok requirements =>
      simp only [requiredBy, loaded, bind, Except.bind, found] at readable
      cases readable
      obtain ⟨r, mem_r, rfl⟩ := List.mem_map.1 mem
      intro newline
      rcases Path.mem_resolve newline with slash | dot | here | there
      · cases slash
      · cases dot
      · exact inside here
      · have names := (ofLines_eq_ok_iff.1 found).1
        have written_mem : r.written ∈ named 1 (lines text.toList) := by
          rw [names]
          exact List.mem_map_of_mem mem_r
        obtain ⟨line, mem_line, argument⟩ := exists_line_of_mem_named written_mem
        have in_argument : '\n' ∈ '"' :: r.target.toList ++ ['"'] :=
          List.mem_append_left _ (List.mem_cons_of_mem _ there)
        exact newline_not_mem_of_mem_lines mem_line
          (Directive.mem_of_mem_argument? argument in_argument)

theorem newline_not_mem_of_transGen (h : TransGen (Requires files) p q) (inside : '\n' ∉ p.chars) :
    '\n' ∉ q.chars := by
  induction h with
  | single requires => exact requires.newline_not_mem inside
  | tail _ requires ih => exact requires.newline_not_mem ih

end Requirement

/-! ## Places among tokens -/

/-- A diagnostic starts at one of some tokens or directly behind one. -/
def Diagnostic.StartsIn (d : Diagnostic) (tokens : List Token) : Prop :=
  ∃ t ∈ tokens, d.start = t.start ∨ d.start = t.stop

namespace Script

variable {tokens : List Token} {script : Tree} {d : Diagnostic}

theorem exists_parse_nil : ∃ t, Tree.parse grammar .program [] = .ok t :=
  ⟨_, Plugin.parse_no_tokens⟩

/-- The error of a parser is at the token where it stops, or behind the last one. -/
theorem startsIn_of_parse (h : Tree.parse grammar .program tokens = .error d) :
    d.StartsIn tokens := by
  obtain ⟨misfit, taken, rest, split, rfl, -⟩ := Tree.stop_of_parse_eq_error decisive h
  cases rest with
  | cons t others =>
    refine ⟨t, ?_, .inl rfl⟩
    rw [split]
    exact List.mem_append_right _ List.mem_cons_self
  | nil =>
    cases last : tokens.getLast? with
    | none =>
      rw [List.getLast?_eq_none_iff.1 last] at h
      obtain ⟨t, parsed⟩ := exists_parse_nil
      rw [parsed] at h
      cases h
    | some t => exact ⟨t, List.mem_of_getLast? last, .inr (by simp [Misfit.diagnose, last])⟩

theorem IndicatorOffence.startsIn (h : IndicatorOffence script tokens d) : d.StartsIn tokens := by
  cases h with
  | action _ here => exact ⟨_, List.mem_of_getElem? here, .inl rfl⟩
  | value _ _ here => exact ⟨_, List.mem_of_getElem? here, .inl rfl⟩

theorem AlgorithmOffence.startsIn (h : AlgorithmOffence script tokens d) : d.StartsIn tokens := by
  cases h with
  | nothing _ here => exact ⟨_, List.mem_of_getElem? here, .inl rfl⟩

end Script

theorem Diagnostic.StartsIn.of_marked {d : Diagnostic} {tokens : List Token} {names : List String}
    (h : d.StartsIn (tokens.map (Token.markIndicator names))) : d.StartsIn tokens := by
  obtain ⟨_, mem, place⟩ := h
  obtain ⟨t, mem_t, rfl⟩ := List.mem_map.1 mem
  refine ⟨t, mem_t, ?_⟩
  unfold Token.markIndicator at place
  split at place <;> exact place

/-! ## Places in scripts -/

/-- A diagnostic is about a place in a script: the script has its line, and what comments leave of
that line reaches up to its column. -/
structure Diagnostic.PlacedIn (d : Diagnostic) (script : String) : Prop where
  line : 1 ≤ d.start.line ∧ d.start.line ≤ (lines script.toList).length
  column : ∃ kept, line? (stripComments script.toList) d.start.line = some kept ∧
    1 ≤ d.start.column ∧ d.start.column ≤ kept.length + 1

theorem Token.LiesIn.placedIn {d : Diagnostic} {t : Token} {q : Path} {script : String}
    (lies : t.LiesIn q script) (starts : d.start = t.start ∨ d.start = t.stop) :
    d.start.file = q.text ∧ d.PlacedIn script := by
  have here : d.start.file = t.start.file ∧ d.start.line = t.start.line ∧
      t.start.column ≤ d.start.column ∧ d.start.column ≤ t.start.column + t.value.length := by
    rcases starts with same | same
    all_goals simp [same, Token.stop, Position.advance, Token.width]
  obtain ⟨file, line, from_column, to_column⟩ := here
  obtain ⟨row, at_row⟩ := lies.row
  obtain ⟨gap, rest, column, kept⟩ := lies.kept
  refine ⟨file.trans lies.file, ?_, _, line ▸ kept, by omega, ?_⟩
  · rw [line]
    cases number : t.start.line with
    | zero =>
      rw [number] at at_row
      cases at_row
    | succ n =>
      rw [number] at at_row
      obtain ⟨within, -⟩ := List.getElem?_eq_some_iff.1 at_row
      exact ⟨by omega, within⟩
  · rw [← String.length_toList] at to_column
    rw [List.length_append, List.length_append]
    omega

theorem Diagnostic.PlacedIn.report_eq {d : Diagnostic} {script : String}
    (placed : d.PlacedIn script) {read : Path → Except Failure String} (found : read ⟨d.start.file⟩ = .ok script) :
    ∃ row, line? script.toList d.start.line = some row ∧
      Failure.report read (.malformed d) = d.inContext (String.ofList row) ++ "\n" := by
  obtain ⟨positive, within⟩ := placed.line
  obtain ⟨n, number⟩ := Nat.exists_eq_add_of_le' positive
  have row : line? script.toList d.start.line = some (lines script.toList)[n] := by
    rw [number, line?, List.getElem?_eq_getElem]
  refine ⟨_, row, ?_⟩
  simp only [Failure.report, Failure.sourceLine?, found, row, Option.map_some]

/-! ## Where composing fails -/

namespace Plugin

variable {templates : Templates} {files : FileSet} {p : Path} {d : Diagnostic}
  {indicators composed : List Indicator} {paths : List Path} {journal journal' : Journal}

/-- A diagnostic starts in the tokens of the script at a path. -/
def StartsIn (files : FileSet) (p : Path) (d : Diagnostic) : Prop :=
  ∃ e, (expand files .elide p).start.1 = .ok e ∧ d.StartsIn (Token.ofText p.text e.text)

theorem ne_malformed_of_theDirective {e : Expansion} {kind : DirectiveKind} {failure : Failure}
    (h : e.theDirective kind p = .error failure) : failure ≠ .malformed d := by
  rintro rfl
  unfold Expansion.theDirective at h
  split at h <;> cases h

theorem startsIn_of_composeIndicator
    (h : (composeIndicator Script.grammar templates files p).Fails journal
      (.malformed d) journal') : StartsIn files p d := by
  have expandable := tame_expand files .elide p
  unfold composeIndicator at h
  rcases Reading.fails_bind_iff.1 h with failed | ⟨e, _, expanded, h⟩
  · exact (expandable.failure _ _ _ failed).elim
  refine ⟨e, expandable.start_eq_ok expanded, ?_⟩
  rcases Reading.fails_bind_iff.1 h with failed | ⟨label, _, -, h⟩
  · exact absurd rfl (ne_malformed_of_theDirective (Reading.fails_ofExcept_iff.1 failed).1)
  rcases Reading.fails_bind_iff.1 h with failed | ⟨className, _, -, h⟩
  · exact absurd rfl (ne_malformed_of_theDirective (Reading.fails_ofExcept_iff.1 failed).1)
  rcases Reading.fails_bind_iff.1 h with failed | ⟨tokens, _, lexed, h⟩
  · cases failed
  obtain ⟨rfl, -⟩ := ends_tokensOf_iff.1 lexed
  rcases Reading.fails_bind_iff.1 h with failed | ⟨script, _, parsed, h⟩
  · obtain ⟨⟨_, unread, ⟨⟩⟩, -⟩ := fails_parse_iff.1 failed
    exact Script.startsIn_of_parse unread
  rcases Reading.fails_bind_iff.1 h with failed | ⟨⟨⟩, _, -, h⟩
  · obtain ⟨_, ⟨⟩, offence⟩ :=
      Script.offence_of_indicatorFault? (ends_parse_iff.1 parsed).1 (fails_check_iff.1 failed).1
    exact offence.startsIn
  · exact absurd h Reading.not_fails_pure

theorem startsIn_of_composeIndicators
    (h : (composeIndicators Script.grammar templates files composed paths).Fails journal
      (.malformed d) journal') : ∃ q ∈ paths, StartsIn files q d := by
  induction paths generalizing composed journal with
  | nil => exact absurd h Reading.not_fails_pure
  | cons p others ih =>
    rcases Reading.fails_bind_iff.1 h with failed | ⟨new, _, -, h⟩
    · exact ⟨p, List.mem_cons_self, startsIn_of_composeIndicator failed⟩
    rcases Reading.fails_bind_iff.1 h with failed | ⟨⟨⟩, _, -, h⟩
    · obtain ⟨i, -, ⟨-, other⟩ | ⟨-, other⟩⟩ := clash?_eq_some (fails_check_iff.1 failed).1
      all_goals cases other
    · obtain ⟨q, mem, starts⟩ := ih h
      exact ⟨q, List.mem_cons_of_mem _ mem, starts⟩

theorem startsIn_of_composeAlgorithm
    (h : (composeAlgorithm Script.grammar templates files p indicators).Fails journal
      (.malformed d) journal') : StartsIn files p d := by
  rcases refused_of_fails h with outside | ⟨e, expanded, refused⟩
  · exact outside.elim
  refine ⟨e, expanded, ?_⟩
  cases refused with
  | label h => exact absurd rfl (ne_malformed_of_theDirective h)
  | className h =>
    obtain ⟨_, -, other⟩ := Option.map_eq_some_iff.1 h
    cases other
  | unread h => exact (Script.startsIn_of_parse h).of_marked
  | returns parsed h =>
    obtain ⟨_, ⟨⟩, offence⟩ := Script.offence_of_algorithmFault? parsed h
    exact offence.startsIn.of_marked
  | instances _ h =>
    obtain ⟨_, _, _, -, -, other⟩ := collect_eq_error h
    cases other

/-- A syntax error is in the algorithm or in a script that it leads to. -/
theorem startsIn_of_compose
    (h : (compose Script.grammar templates files p).Fails journal (.malformed d) journal') :
    ∃ q, (q.normalize = p.normalize ∨
      q.normalize = q ∧ TransGen (Requires files) p.normalize q) ∧ StartsIn files q d := by
  unfold compose at h
  rcases Reading.fails_bind_iff.1 h with failed | ⟨ds, _, found, h⟩
  · exact (Requirement.ofFiles_of_fails failed).elim
  rcases Reading.fails_bind_iff.1 h with failed | ⟨indicators, _, -, h⟩
  · obtain ⟨q, mem, starts⟩ := startsIn_of_composeIndicators failed
    obtain ⟨s, hs, rfl⟩ := Requirement.surveyed_of_dependencies found
    have perm := (Requirement.perm_compositionOrder (s.dependencies p.normalize)).map
      Dependency.path
    have reached := (hs.mem_path_iff q).1 (perm.mem_iff.1 mem)
    have normal : q.IsNormal := hs.normal q ((hs.mem_order q).2 reached.to_reflTransGen)
    exact ⟨q, .inr ⟨normal.normalize_eq, reached⟩, starts⟩
  · exact ⟨p, .inl rfl, startsIn_of_composeAlgorithm h⟩

/-- A syntax error names the algorithm or a script that it leads to, and a place in it; the report
shows the line of that place whenever the script can still be read. -/
theorem places_of_compose (templates : Templates) (files : FileSet) (p : Path)
    (inside : '\n' ∉ p.text.toList) (d : Diagnostic)
    (h : (compose Script.grammar templates files p).start.1 = .error (.malformed d)) :
    ∃ q script, (q = p.normalize ∨ TransGen (Requires files) p.normalize q) ∧
      d.start.file = q.text ∧ files.load ⟨d.start.file⟩ = .ok script ∧ d.PlacedIn script ∧
      ∀ read, read ⟨d.start.file⟩ = .ok script → ∃ row,
        line? script.toList d.start.line = some row ∧
        Failure.report read (.malformed d) = d.inContext (String.ofList row) ++ "\n" := by
  obtain ⟨q, reached, e, expanded, t, mem, starts⟩ :=
    startsIn_of_compose (Reading.start_eq_error_iff.1 h)
  have inside_root : '\n' ∉ p.normalize.chars := newline_not_mem_normalize inside
  have known : (q.normalize = p.normalize ∨ TransGen (Requires files) p.normalize q.normalize) ∧
      '\n' ∉ q.normalize.chars := by
    rcases reached with same | ⟨same, reached⟩
    · exact ⟨.inl same, same ▸ inside_root⟩
    · rw [same]
      exact ⟨.inr reached, Requirement.newline_not_mem_of_transGen reached inside_root⟩
  obtain ⟨script, loaded, lies⟩ := liesIn_of_expand known.2 expanded
  obtain ⟨file, placed⟩ := (lies _ t mem).placedIn starts
  refine ⟨q.normalize, script, known.1, file, ?_, placed, fun read found =>
    placed.report_eq found⟩
  rw [file]
  exact loaded

/-! ### The algorithm that returns nothing -/

section Leavers

open Script

/-- What is wrong with the algorithm: it returns, but not the code of an action. -/
def returningDiagnostic : Diagnostic :=
  ⟨⟨"b.dts", 1, 1⟩, "'return' in an algorithm script needs an action code", "return".length⟩

theorem fails_compose_returning : (compose grammar .default leavers ⟨"b.dts"⟩).start.1 =
    .error (.malformed returningDiagnostic) := by
  have fault : returningTree.algorithmFault? = some (.malformed returningDiagnostic) := by
    simp [Tree.algorithmFault?, returningTree, returningTokens, returningDiagnostic, phrases_node,
      phrases_leaf, Tree.returnsValue, Tree.child?, Tree.children, Tree.isPhrase, Tree.symbol,
      Tree.complaint, Tree.start]
  have expanded := ends_expand_returning ⟨[⟨"b.dts"⟩], []⟩
  have algorithm := fails_composeAlgorithm .default readsAlgorithm_returning expanded fault
  have no_indicators := ends_composeIndicators_nil grammar .default leavers ⟨[⟨"b.dts"⟩], []⟩
  have composing := Reading.fails_bind_iff.2 (.inr ⟨[], _, no_indicators, algorithm⟩)
  exact Reading.start_eq_error_of_fails
    (Reading.fails_bind_iff.2 (.inr ⟨[], _, ends_dependencies_returning, composing⟩))

theorem places_of_compose_returning : '\n' ∉ (Path.mk "b.dts").text.toList ∧
    (compose grammar .default leavers ⟨"b.dts"⟩).start.1 = .error (.malformed returningDiagnostic) ∧
    ∃ q script, (q = (Path.mk "b.dts").normalize ∨
        TransGen (Requires leavers) (Path.mk "b.dts").normalize q) ∧
      "b.dts" = q.text ∧ leavers.load ⟨"b.dts"⟩ = .ok script ∧
      returningDiagnostic.PlacedIn script ∧
      ∀ read, read ⟨"b.dts"⟩ = .ok script → ∃ row, line? script.toList 1 = some row ∧
        Failure.report read (.malformed returningDiagnostic) =
          returningDiagnostic.inContext (String.ofList row) ++ "\n" :=
  ⟨by decide, fails_compose_returning,
    places_of_compose .default leavers ⟨"b.dts"⟩ (by decide) returningDiagnostic
      fails_compose_returning⟩

end Leavers

end Plugin

end TradeScript
