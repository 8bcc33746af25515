import TradeScript.Proofs.Source.Provenance

/-!
# Two ways to find the origin of a line

An expansion knows the origin of each of its lines (`Expansion.origin?`), and the lexer finds it again
from the markers in the text. To compare the two, the text is lexed line by line: what line `n` adds
to the tokens of the lines before it (`Token.ofFirstLines`).

Main statement: `origin_of_new_tokens`. A line without origin is a marker and adds no token; the tokens
that any other line adds stand on the line of the file that is its origin.
-/

namespace TradeScript

open Text

theorem Traced.take {p : Path} {n : Nat} {lines : List ExpandedLine} (h : Traced p n lines)
    (count : Nat) : Traced p n (lines.take count) := by
  induction h generalizing count with
  | nil p n =>
    rw [List.take_nil]
    exact .nil p n
  | @marker p q n m lines small inside more ih =>
    cases count with
    | zero => exact .nil p n
    | succ count => exact .marker small inside (ih count)
  | @source p n text lines inside unmarked more ih =>
    cases count with
    | zero => exact .nil p n
    | succ count => exact .source inside unmarked (ih count)

/-- The line numbers of markers in a traced text can be read back. -/
theorem Traced.number_lt {p : Path} {n : Nat} {lines : List ExpandedLine} (h : Traced p n lines) :
    ∀ m q, .marker m q ∈ lines → m < lineLimit := by
  intro m q mem
  induction h with
  | nil p n => cases mem
  | marker small inside more ih =>
    rcases List.mem_cons.1 mem with same | mem
    · cases same
      exact small
    · exact ih mem
  | source inside unmarked more ih => exact ih (List.mem_of_ne_of_mem ExpandedLine.noConfusion mem)

namespace Token

/-- The tokens of the first lines of a text that belongs to `file` until a marker says otherwise. -/
def ofFirstLines (file : String) (count : Nat) (text : String) : List Token :=
  ofText file (String.ofList (firstLines count text.toList))

end Token

namespace Restarts

variable {e : Expansion}

theorem newline_not_mem (h : Restarts e.lines) :
    ∀ line ∈ e.lines.map ExpandedLine.chars, '\n' ∉ line :=
  (h ⟨""⟩ 1).newline_not_mem

theorem length_lines (h : Restarts e.lines) : (lines e.text.toList).length = e.lines.length := by
  rw [Expansion.text, String.toList_ofList, length_lines_unlines h.newline_not_mem, List.length_map]

theorem ofFirstLines (h : Restarts e.lines) (file : String) (count : Nat) :
    Token.ofFirstLines file count e.text = (e.lines.take count).flatMap ExpandedLine.tokens := by
  have first : firstLines count e.text.toList =
      unlines ((e.lines.take count).map ExpandedLine.chars) := by
    rw [Expansion.text, String.toList_ofList, firstLines_unlines h.newline_not_mem, List.map_take]
  unfold Token.ofFirstLines Token.ofText Fragment.ofText
  rw [String.toList_ofList, first]
  exact ((h ⟨file⟩ 1).take count).ofFragments

/-- Each line adds its own tokens to those of the lines before it. -/
theorem ofFirstLines_succ (h : Restarts e.lines) (file : String) {count : Nat} {line : ExpandedLine}
    (found : e.lines[count]? = some line) : Token.ofFirstLines file (count + 1) e.text =
      Token.ofFirstLines file count e.text ++ line.tokens := by
  rw [h.ofFirstLines, h.ofFirstLines, List.take_add_one, found, List.flatMap_append]
  simp

end Restarts

/-- The origin that an expansion gives to a line is where the lexer places the tokens that the line
adds to those of the lines before it; a line without origin is a marker and adds none. -/
theorem origin_of_new_tokens {files : FileSet} {mode : RequireMode} {p : Path} {e : Expansion}
    (bounded : files.Bounded) (inside : '\n' ∉ p.text.toList)
    (h : (expand files mode p).start.1 = .ok e) :
    e.origin? 0 = none ∧ (∀ n, (lines e.text.toList).length < n → e.origin? n = none) ∧
    ∀ file n, 1 ≤ n → n ≤ (lines e.text.toList).length → ∃ new,
      Token.ofFirstLines file n e.text = Token.ofFirstLines file (n - 1) e.text ++ new ∧
      (e.origin? n = none → new = [] ∧ ∃ line m path,
        (split '\n' e.text.toList)[n - 1]? = some line ∧ Marker.read? line = some (m, path)) ∧
      ∀ q m, e.origin? n = some (q, m) → ∀ t ∈ new, t.start.file = q.text ∧ t.start.line = m := by
  have restarts := (traced_of_expand bounded inside h).2
  have traced := restarts p 1
  rw [restarts.length_lines]
  refine ⟨rfl, fun n beyond => ?_, fun file n positive within => ?_⟩
  · cases n with
    | zero => rfl
    | succ n =>
      have none_there : e.lines[n]? = none := List.getElem?_eq_none (by omega)
      simp [Expansion.origin?, none_there]
  · obtain ⟨n, rfl⟩ : ∃ k, n = k + 1 := ⟨n - 1, by omega⟩
    obtain ⟨line, found⟩ : ∃ line, e.lines[n]? = some line :=
      ⟨e.lines[n], List.getElem?_eq_getElem (by omega)⟩
    have origin : e.origin? (n + 1) = line.origin? := by simp [Expansion.origin?, found]
    have mem := List.mem_of_getElem? found
    refine ⟨line.tokens, restarts.ofFirstLines_succ file found, ?_, ?_⟩
    · intro no_origin
      rw [origin] at no_origin
      cases line with
      | source text q m => cases no_origin
      | marker m q =>
        refine ⟨rfl, Marker.write m q.text, m, q.chars, ?_, ?_⟩
        · rw [Nat.add_sub_cancel, Expansion.text, String.toList_ofList,
            split_unlines restarts.newline_not_mem]
          have within' : n < (e.lines.map ExpandedLine.chars).length := by
            rw [List.length_map]
            omega
          rw [List.getElem?_append_left within', List.getElem?_map, found]
          rfl
        · exact Marker.read?_write (traced.number_lt m q mem) q.text
    · intro q m at_origin
      rw [origin] at at_origin
      cases line with
      | marker m' q' => cases at_origin
      | source text q' m' =>
        cases at_origin
        exact fun t mem_tokens =>
          ExpandedLine.start_of_mem_tokens (traced.plain text q m mem) mem_tokens

/-- The third line of the spliced pair is the first one of the required script, and its tokens stand
there; the fourth line is a marker. -/
theorem origin_of_new_tokens_splicedPair :
    (expand splicedPair .splice ⟨"a.dts"⟩).start.1 = .ok splicedPairExpansion ∧
    (splicedPairExpansion.origin? 3 = some (⟨"b.dti"⟩, 1) ∧ ∃ new,
      Token.ofFirstLines "" 3 splicedPairExpansion.text =
        Token.ofFirstLines "" 2 splicedPairExpansion.text ++ new ∧
      ∀ t ∈ new, t.start.file = "b.dti" ∧ t.start.line = 1) ∧
    splicedPairExpansion.origin? 4 = none ∧
      Token.ofFirstLines "" 4 splicedPairExpansion.text =
        Token.ofFirstLines "" 3 splicedPairExpansion.text := by
  have expanded : (expand splicedPair .splice ⟨"a.dts"⟩).start.1 = .ok splicedPairExpansion :=
    congrArg Prod.fst ends_expand_splicedPair
  have five_lines : (lines splicedPairExpansion.text.toList).length = 5 := by decide +kernel
  obtain ⟨-, -, at_line⟩ := origin_of_new_tokens bounded_splicedPair (by decide) expanded
  rw [five_lines] at at_line
  obtain ⟨new, third, -, stand⟩ := at_line "" 3 (by decide) (by decide)
  obtain ⟨none_new, fourth, marker, -⟩ := at_line "" 4 (by decide) (by decide)
  obtain ⟨rfl, -⟩ := marker rfl
  exact ⟨expanded, ⟨rfl, new, third, stand _ _ rfl⟩, rfl, by rw [fourth, List.append_nil]⟩

end TradeScript
