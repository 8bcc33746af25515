import TradeScript.Proofs.Source.Column

/-!
# Expansions without splicing

A script whose requirements are blanked is expanded from its own text alone (`expand_elide_eq`). The
only marker of such an expansion is in front, so every token lies in the file where its start says,
however long the file is (`liesIn_of_expand`).
-/

namespace TradeScript

open Text

/-! ## The lines of such an expansion -/

variable {files : FileSet} {p : Path} {e : Expansion}

theorem elidedLines_cons_cases {n : Nat} {text : List Char} {others : List (List Char)}
    (h : elidedLines p n (text :: others) = .ok e) : ∃ rest kept,
      elidedLines p (n + 1) others = .ok rest ∧ e.lines = .source kept p n :: rest.lines ∧
        (kept = [] ∨ kept = text) ∧ Marker.read? kept = none := by
  rw [elidedLines] at h
  cases read : readDirective p n text with
  | error failure =>
    rw [read] at h
    cases h
  | ok d =>
    rw [read] at h
    cases behind : elidedLines p (n + 1) others with
    | error failure => cases d <;> simp only [behind] at h <;> cases h
    | ok rest =>
      simp only [behind] at h
      cases d with
      | none =>
        cases h
        obtain ⟨found, code, -⟩ := readDirective_eq_ok read
        exact ⟨rest, text, rfl, rfl, .inr rfl, Directive.read?_eq_none_of_read code⟩
      | some d =>
        cases h
        exact ⟨rest, [], rfl, rfl, .inl rfl, rfl⟩

/-- The lines are those of the script in order, blank where there is a directive. -/
theorem traced_elidedLines {n : Nat} {remaining : List (List Char)}
    (inside : ∀ line ∈ remaining, '\n' ∉ line) (h : elidedLines p n remaining = .ok e) :
    Traced p n e.lines ∧ ∀ line ∈ e.lines, ∃ kept i, line = .source kept p (n + i) ∧
      (kept = [] ∨ remaining[i]? = some kept) := by
  induction remaining generalizing n e with
  | nil =>
    cases h
    exact ⟨.nil p n, fun _ mem => by cases mem⟩
  | cons text others ih =>
    rw [List.forall_mem_cons] at inside
    obtain ⟨rest, kept, behind, lines, from_text, unmarked⟩ := elidedLines_cons_cases h
    obtain ⟨traced, own⟩ := ih inside.2 behind
    rw [lines, List.forall_mem_cons]
    refine ⟨.source ?_ unmarked traced, ⟨kept, 0, rfl, ?_⟩, fun line mem => ?_⟩
    · rcases from_text with rfl | rfl
      · exact List.not_mem_nil
      · exact inside.1
    · exact from_text.imp_right fun same => by rw [same, List.getElem?_cons_zero]
    · obtain ⟨kept, i, rfl, from_line⟩ := own line mem
      exact ⟨kept, i + 1, by rw [Nat.add_assoc, Nat.add_comm 1 i], from_line⟩

/-- A token lies in a script: on the line of its start the script has text, and what comments leave
of that line has the token at its column. -/
structure Token.LiesIn (t : Token) (q : Path) (script : String) : Prop where
  file : t.start.file = q.text
  row : ∃ row, line? script.toList t.start.line = some row
  kept : ∃ gap rest, t.start.column = gap.length + 1 ∧
    line? (stripComments script.toList) t.start.line = some (gap ++ (t.value.toList ++ rest))

theorem Token.liesIn_of_source {text : List Char} {q : Path} {n : Nat} {script : String}
    (plain : Fragment.Plain ⟨q.text, n, 1⟩ text)
    (found : line? (stripComments script.toList) n = some text) {t : Token}
    (mem : t ∈ (ExpandedLine.source text q n).tokens) : t.LiesIn q script := by
  obtain ⟨file, line⟩ := ExpandedLine.start_of_mem_tokens plain mem
  obtain ⟨front, kept, written, -⟩ := Token.exists_writtenBehind plain found mem
  obtain ⟨gap, rest, split, start⟩ := stands_of_mem_line plain mem
  obtain ⟨behind, row⟩ := written.line
  refine ⟨file, ⟨_, row⟩, gap, rest, ?_, by rw [line, found, split]⟩
  rw [start]
  exact Nat.add_comm 1 gap.length

/-- Every token of such an expansion lies in the script. -/
theorem liesIn_of_expand (inside : '\n' ∉ p.normalize.chars)
    (h : (expand files .elide p).start.1 = .ok e) : ∃ script,
      files.load p.normalize = .ok script ∧
      ∀ file, ∀ t ∈ Token.ofText file e.text, t.LiesIn p.normalize script := by
  have expanded := Reading.start_eq_ok_iff.1 h
  rw [expand_elide_eq] at expanded
  obtain ⟨-, _, -, ends⟩ := Reading.ends_bind_iff.1 expanded
  have read := (Reading.ends_ofExcept_iff.1 ends).1
  cases loaded : files.load p.normalize with
  | error failure =>
    rw [loaded] at read
    cases read
  | ok script =>
    rw [loaded] at read
    change elided p.normalize script = .ok e at read
    cases body : elidedLines p.normalize 1 (lines (stripComments script.toList)) with
    | error failure =>
      rw [elided, body] at read
      cases read
    | ok lines_of =>
      rw [elided, body] at read
      cases read
      obtain ⟨traced, own⟩ :=
        traced_elidedLines (fun line mem => newline_not_mem_of_mem_lines mem) body
      have restarts : Restarts (lines_of.consLine (.marker 1 p.normalize)).lines :=
        restarts_marker (by decide) inside traced
      refine ⟨script, rfl, fun file t mem => ?_⟩
      rw [restarts.ofText] at mem
      obtain ⟨line, mem_line, mem⟩ := List.mem_flatMap.1 mem
      rcases List.mem_cons.1 mem_line with rfl | mem_line
      · cases mem
      · obtain ⟨kept, i, rfl, rfl | from_line⟩ := own line mem_line
        · -- a blanked directive has no tokens
          simp [ExpandedLine.tokens, Fragment.scan, Token.ofFragments] at mem
        · refine Token.liesIn_of_source (traced.plain _ _ _ mem_line) ?_ mem
          rw [Nat.add_comm]
          exact from_line

end TradeScript
