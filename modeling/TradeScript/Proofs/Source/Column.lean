import TradeScript.Proofs.Source.Provenance

/-!
# Columns

The columns of tokens count the characters of a line after its comments have been taken out. So a
token stands in the script behind some text `front` of its line, and its column counts what the
comments leave of that text (`Token.WrittenBehind`): the column of the token in the script if there is
no comment before it on the line, and a smaller one otherwise (`columns_of_expand`).

The lexer and the removal of comments agree on what is quoted, piece by piece
(`exists_passes_of_mem_scan`); without that, what one of them takes for a literal could be a comment
for the other.
-/

namespace TradeScript

open Text

/-! ## Pieces that comments leave alone -/

/-- A text that no comment can interrupt: it has no blanks and quotes, or is one literal. -/
inductive Text.Whole : (text : List Char) → Prop
  | bare {text : List Char} (nonempty : text ≠ []) (bare : Bare text) : Whole text
  | literal (q : Quote) {body : List Char}
      (closed : Fragment.closing? q.char body = some (body, [])) : Whole (q.char :: body)

theorem Text.Whole.solid {text : List Char} (h : Whole text) : Solid text := by
  cases h with
  | bare nonempty bare =>
    refine ⟨nonempty, fun mem => ?_, fun last => ?_⟩
    · cases (bare _ mem).1
    · cases (bare _ (List.mem_of_getLast? last)).1
  | literal q closed => exact solid_of_spelling (.literal q closed)

theorem exists_passes_whole {text raw out : List Char} (whole : Whole text)
    (h : stripFrom .code raw = text ++ out) :
    ∃ rest, raw = text ++ rest ∧ Region.code.Passes text text rest := by
  cases whole with
  | bare nonempty bare => exact exists_passes_bare bare h
  | literal q closed => exact exists_passes_literal closed h

namespace Fragment

/-- The text of a fragment is a closed literal, or is bare, or belongs to a literal that is not
closed. -/
def Uninterrupted (kind : Kind) (text : List Char) : Prop :=
  match kind with
  | .literal q => ∃ body, text = q.char :: body ∧ closing? q.char body = some (body, [])
  | .unclosed _ => True
  | _ => text ≠ [] ∧ Bare text

theorem bare_of_isWordChar {text : List Char} (all : text.all isWordChar = true) : Bare text := by
  intro c mem
  have word := List.all_eq_true.1 all c mem
  refine ⟨isBlank_eq_false_of_isWordChar word, ?_⟩
  rintro (rfl | rfl)
  · cases word
  · cases word

theorem bare_mark (m : Mark) : Bare [m.char] := by
  rw [Bare, List.forall_mem_singleton]
  cases m <;> decide

theorem cut_stray {c : Char} {cs : List Char} (h : (cut c cs).1 = .stray) :
    (cut c cs).2.1 = [c] ∧ Quote.ofChar? c = none := by
  unfold cut at h ⊢
  split at h
  · cases h
  · next no_word =>
    split at h
    · split at h <;> cases h
    · next no_quote =>
      split at h
      · cases h
      · simp [no_word, no_quote]

theorem cut_unclosed {c : Char} {cs : List Char} {q : Quote} (inside : '\n' ∉ cs)
    (h : (cut c cs).1 = .unclosed q) : (cut c cs).2.2 = [] := by
  unfold cut at h ⊢
  split at h
  · cases h
  · next no_word =>
    split at h
    · next quote =>
      split at h
      · cases h
      · rw [if_neg no_word]
        exact (takeWhile_ne_eq_self inside).2
    · split at h <;> cases h

theorem cut_uninterrupted {c : Char} (visible : isBlank c = false) (cs : List Char) :
    Uninterrupted (cut c cs).1 (cut c cs).2.1 := by
  have fits := cut_fits c cs
  cases kind : (cut c cs).1 with
  | word =>
    rw [kind] at fits
    exact ⟨fits.1, bare_of_isWordChar fits.2⟩
  | mark m =>
    rw [kind] at fits
    have text : (cut c cs).2.1 = [m.char] := fits
    rw [text]
    exact ⟨List.cons_ne_nil _ _, bare_mark m⟩
  | literal q =>
    rw [kind] at fits
    exact fits
  | stray =>
    obtain ⟨text, no_quote⟩ := cut_stray kind
    rw [text]
    refine ⟨List.cons_ne_nil _ _, List.forall_mem_singleton.2 ⟨visible, ?_⟩⟩
    rintro (rfl | rfl) <;> cases no_quote
  | unclosed q => trivial

theorem uninterrupted_of_mem_scan {here : Position} {glued : Bool} {cs : List Char} {f : Fragment}
    (h : f ∈ scan here glued cs) : Uninterrupted f.kind f.text :=
  of_mem_scan (fun _ visible cs => cut_uninterrupted visible cs) h

theorem Uninterrupted.whole {kind : Kind} {text : List Char} (h : Uninterrupted kind text)
    (closed : ∀ q, kind ≠ .unclosed q) : Whole text := by
  cases kind with
  | literal q =>
    obtain ⟨body, rfl, closed⟩ := h
    exact .literal q closed
  | unclosed q => exact absurd rfl (closed q)
  | word | mark m | stray => exact .bare h.1 h.2

end Fragment

namespace Token

open Fragment

/-- Only words and marks are joined. -/
theorem kind_of_mem_joined {f g : Fragment} {fs : List Fragment} (h : g ∈ (joined f fs).2.1) :
    (f.kind = .word ∨ ∃ m, f.kind = .mark m) ∧ (g.kind = .word ∨ ∃ m, g.kind = .mark m) := by
  have word_of_isDigits {f : Fragment} (digits : f.isDigits = true) : f.kind = .word :=
    (all_isDigit_of_isDigits digits).1
  obtain alone | ⟨point, digits, parts, word, -, is_point, -, fraction⟩ |
    ⟨m, second, parts, mark, -, digits_or_mark⟩ := joined_cases f fs
  · rw [alone] at h
    cases h
  · refine ⟨.inl word, ?_⟩
    rw [parts, List.mem_pair] at h
    rcases h with rfl | rfl
    · exact .inr ⟨.period, is_point⟩
    · exact .inl (word_of_isDigits fraction)
  · refine ⟨.inr ⟨m, mark⟩, ?_⟩
    rw [parts, List.mem_singleton] at h
    rw [h]
    exact digits_or_mark.imp_left word_of_isDigits

/-- What adjacent fragments are joined to is uninterrupted. -/
theorem whole_joined {f : Fragment} {fs : List Fragment}
    (parts : ∀ g ∈ f :: fs, Uninterrupted g.kind g.text) (kept : (joined f fs).1 ≠ none) :
    Whole (f.text ++ (joined f fs).2.1.flatMap Fragment.text) := by
  have part_f := parts f List.mem_cons_self
  by_cases alone : (joined f fs).2.1 = []
  · rw [alone, List.flatMap_nil, List.append_nil]
    refine part_f.whole fun q kind => kept ?_
    simp [joined, kind]
  · obtain ⟨g, mem⟩ := List.exists_mem_of_ne_nil _ alone
    have bare_of_kind {g : Fragment} (part : Uninterrupted g.kind g.text)
        (kind : g.kind = .word ∨ ∃ m, g.kind = .mark m) : g.text ≠ [] ∧ Bare g.text := by
      rcases kind with kind | ⟨m, kind⟩
      · rw [kind] at part
        exact part
      · rw [kind] at part
        exact part
    obtain ⟨nonempty, bare⟩ := bare_of_kind part_f (kind_of_mem_joined mem).1
    refine .bare (List.append_ne_nil_of_left_ne_nil nonempty _) ?_
    refine List.forall_mem_append.2 ⟨bare, fun c mem_c => ?_⟩
    obtain ⟨g, mem_g, mem_c⟩ := List.mem_flatMap.1 mem_c
    have in_fs : g ∈ fs := by
      rw [← joined_append f fs]
      exact List.mem_append_left _ mem_g
    have part := parts g (List.mem_cons_of_mem f in_fs)
    exact (bare_of_kind part (kind_of_mem_joined mem_g).2).2 c mem_c

theorem mem_of_mem_joined_rest {f g : Fragment} {fs : List Fragment}
    (h : g ∈ (joined f fs).2.2) : g ∈ fs := by
  rw [← joined_append f fs]
  exact List.mem_append_right _ h

/-- Every token is uninterrupted and starts with a fragment. -/
theorem whole_of_mem_ofFragments {fs : List Fragment}
    (parts : ∀ f ∈ fs, Uninterrupted f.kind f.text) {t : Token} (h : t ∈ ofFragments fs) :
    Whole t.value.toList ∧ ∃ f ∈ fs, t.start = f.start := by
  have later {f g : Fragment} {fs : List Fragment} (mem : g ∈ (joined f fs).2.2) : g ∈ f :: fs :=
    List.mem_cons_of_mem f (mem_of_mem_joined_rest mem)
  fun_induction ofFragments fs with
  | case1 => cases h
  | case2 f fs parts' others kind found ih =>
    rcases List.mem_cons.1 h with rfl | h
    · refine ⟨?_, f, List.mem_cons_self, rfl⟩
      rw [String.toList_ofList]
      exact whole_joined parts (by rw [found]; exact Option.some_ne_none kind)
    · obtain ⟨whole, g, mem, start⟩ := ih (fun g mem => parts g (later mem)) h
      exact ⟨whole, g, later mem, start⟩
  | case3 f fs parts' others none_found ih =>
    obtain ⟨whole, g, mem, start⟩ := ih (fun g mem => parts g (later mem)) h
    exact ⟨whole, g, later mem, start⟩

end Token

/-! ## Where fragments and tokens stand in the script -/

namespace Fragment

/-- A fragment that its line goes on behind stands in the script as it is. -/
theorem exists_passes_cut {c : Char} {cs raw tail : List Char} (visible : isBlank c = false)
    (inside : '\n' ∉ cs) (more : (cut c cs).2.2 ≠ [])
    (strip : stripFrom .code raw = c :: cs ++ tail) :
    ∃ rest, raw = (cut c cs).2.1 ++ rest ∧
      Region.code.Passes (cut c cs).2.1 (cut c cs).2.1 rest := by
  have whole : Whole (cut c cs).2.1 :=
    (cut_uninterrupted visible cs).whole fun q kind => more (cut_unclosed inside kind)
  rw [← cut_append c cs, List.append_assoc] at strip
  exact exists_passes_whole whole strip

/-- The fragments of a line stand in the script behind what passes as the line up to there. -/
theorem exists_passes_of_mem_scan {here : Position} {line : List Char} (h : Plain here line)
    {raw tail : List Char} (strip : stripFrom .code raw = line ++ tail) {glued : Bool}
    {f : Fragment} (mem : f ∈ scan here glued line) : ∃ front kept rest, raw = front ++ rest ∧
      '\n' ∉ front ∧ Region.code.Passes front kept rest ∧ f.start = here.advance kept.length := by
  induction h using Plain.induct generalizing raw glued with
  | nil here h =>
    rw [scan] at mem
    cases mem
  | skip here c cs h blank more ih =>
    have alone := h.scan_cons glued [] (by simp)
    rw [List.append_nil, if_pos blank] at alone
    rw [alone] at mem
    cases cs with
    | nil =>
      rw [scan] at mem
      cases mem
    | cons d cs =>
      have no_quote : ¬(c = '"' ∨ c = '\'') := by
        rintro (rfl | rfl) <;> cases blank
      have not_newline : c ≠ '\n' := fun same => h.inside (by simp [same])
      have same_line : d ≠ '\n' := fun same => h.inside (by simp [same])
      obtain ⟨unit, rest, rfl, inside, passes⟩ :=
        exists_passes_blank no_quote not_newline same_line strip
      obtain ⟨front, kept, rest, rfl, inside', passes', start⟩ := ih (passes.behind strip) mem
      refine ⟨unit ++ front, [c] ++ kept, rest, by simp, ?_, passes.append passes', ?_⟩
      · simp [inside, inside']
      · rw [start, Position.advance_advance, List.length_append]
        rfl
  | piece here c cs h visible more ih =>
    have alone := h.scan_cons glued [] (by simp)
    rw [List.append_nil, List.append_nil, visible, if_neg (by simp)] at alone
    rw [alone] at mem
    rcases List.mem_cons.1 mem with rfl | mem
    · exact ⟨[], [], raw, rfl, List.not_mem_nil, .refl raw, rfl⟩
    · have goes_on : (cut c cs).2.2 ≠ [] := by
        intro none_left
        rw [none_left, scan] at mem
        cases mem
      have inside : '\n' ∉ cs := fun mem => h.inside (List.mem_cons_of_mem c mem)
      obtain ⟨rest, rfl, passes⟩ := exists_passes_cut visible inside goes_on strip
      have on_line : '\n' ∉ (cut c cs).2.1 := by
        intro mem
        refine h.inside ?_
        rw [← cut_append c cs]
        exact List.mem_append_left _ mem
      rw [← cut_append c cs, List.append_assoc] at strip
      obtain ⟨front, kept, rest, rfl, inside', passes', start⟩ := ih (passes.behind strip) mem
      refine ⟨(cut c cs).2.1 ++ front, (cut c cs).2.1 ++ kept, rest, by simp, ?_,
        passes.append passes', ?_⟩
      · simp [on_line, inside']
      · rw [start, Position.advance_advance, List.length_append]

end Fragment

/-- A line that is not blank goes on in code, at the latest where a comment from before ends on it. -/
theorem exists_passes_start {region : Region} (starts : region.StartsLine) {line raw tail : List Char}
    (nonempty : line ≠ []) (inside : '\n' ∉ line) (strip : stripFrom region raw = line ++ tail) :
    ∃ front rest, raw = front ++ rest ∧ '\n' ∉ front ∧ region.Passes front [] rest := by
  obtain rfl | rfl := starts
  · exact ⟨[], raw, rfl, List.not_mem_nil, .refl raw⟩
  · obtain ⟨c, line, rfl⟩ := List.exists_cons_of_ne_nil nonempty
    exact exists_passes_blockComment (fun same => inside (by simp [same])) strip

/-- The tokens of a line stand in the script behind what passes as the line up to there. -/
theorem Token.exists_passes_of_mem_line {here : Position} {line : List Char}
    (plain : Fragment.Plain here line) {region : Region} (starts : region.StartsLine)
    {raw tail : List Char} (strip : stripFrom region raw = line ++ tail) {glued : Bool} {t : Token}
    (mem : t ∈ ofFragments (Fragment.scan here glued line)) : ∃ front kept rest,
      raw = front ++ (t.value.toList ++ rest) ∧ '\n' ∉ front ∧
      region.Passes front kept (t.value.toList ++ rest) ∧ t.start = here.advance kept.length := by
  obtain ⟨gap, behind, split, start⟩ := stands_of_mem_line plain mem
  obtain ⟨whole, f, mem_f, at_f⟩ :=
    whole_of_mem_ofFragments (fun f mem => Fragment.uninterrupted_of_mem_scan mem) mem
  have nonempty : line ≠ [] := by
    rintro rfl
    rw [Fragment.scan] at mem_f
    cases mem_f
  obtain ⟨first, raw, rfl, inside, enters⟩ :=
    exists_passes_start starts nonempty plain.inside strip
  have strip' : stripFrom .code raw = line ++ tail := enters.behind strip
  obtain ⟨front, kept, raw, rfl, inside', passes, start'⟩ :=
    Fragment.exists_passes_of_mem_scan plain strip' mem_f
  have strip'' : kept ++ stripFrom .code raw = gap ++ (t.value.toList ++ (behind ++ tail)) := by
    rw [← passes raw (List.prefix_refl raw), strip', split]
    simp
  have length : kept.length = gap.length := by
    have columns := congrArg Position.column (start'.symm.trans (at_f.symm.trans start))
    simpa [Position.advance] using columns
  obtain ⟨rfl, value⟩ := List.append_inj strip'' length
  obtain ⟨rest, rfl, -⟩ := exists_passes_whole whole value
  exact ⟨first ++ front, kept, rest, by simp, by simp [inside, inside'], enters.append passes, start⟩

/-! ## The columns of an expansion -/

/-- A token stands in a script on the line of its start, behind `front`. Its column counts `kept`,
which comments leave of `front`. -/
structure Token.WrittenBehind (t : Token) (script front kept : List Char) : Prop where
  line : ∃ rest, line? script t.start.line = some (front ++ (t.value.toList ++ rest))
  stripped : stripComments (firstLines (t.start.line - 1) script ++ front) =
    stripComments (firstLines (t.start.line - 1) script) ++ kept
  column : t.start.column = kept.length + 1

theorem Token.exists_writtenBehind {script text : List Char} {q : Path} {n : Nat}
    (plain : Fragment.Plain ⟨q.text, n, 1⟩ text)
    (found : line? (stripComments script) n = some text) {t : Token}
    (mem : t ∈ (ExpandedLine.source text q n).tokens) : ∃ front kept,
      t.WrittenBehind script front kept ∧ kept.length ≤ front.length ∧
      (kept.length = front.length → kept = front) := by
  obtain ⟨file, line⟩ := ExpandedLine.start_of_mem_tokens plain mem
  obtain _ | n := n
  · cases found
  · obtain ⟨pieces, tail, rfl, inside, all⟩ := exists_append_of_getElem?_lines found
    obtain ⟨raws, raw, next, length, inside_raws, rfl, starts, strip⟩ :=
      exists_lines_of_stripFrom (.inl rfl) inside all
    have strip_raw : stripFrom next raw = text ++ tail := by
      have stripped := (strip raw).symm.trans all
      exact List.append_cancel_left stripped
    obtain ⟨front, kept, rest, rfl, inside_front, passes, start⟩ :=
      exists_passes_of_mem_line plain starts strip_raw mem
    have whole : Whole t.value.toList :=
      (whole_of_mem_ofFragments (fun f mem => Fragment.uninterrupted_of_mem_scan mem) mem).1
    have solid : Solid (front ++ t.value.toList) := whole.solid.append_left inside_front
    obtain ⟨more, others, first⟩ := exists_lines_append solid rest
    have kept_eq : kept = stripFrom next front := passes.eq_stripFrom
    refine ⟨front, kept, ⟨⟨more, ?_⟩, ?_, ?_⟩, ?_, ?_⟩
    · have at_line := getElem?_lines_unlines_append inside_raws (front ++ (t.value.toList ++ rest)) 0
      rw [← List.append_assoc front, first, List.append_assoc, length] at at_line
      rw [line, line?, ← List.append_assoc front t.value.toList more]
      exact at_line
    · have before := firstLines_unlines_append inside_raws (front ++ (t.value.toList ++ rest))
      rw [length] at before
      have strip_before := strip []
      rw [List.append_nil, stripFrom, List.append_nil] at strip_before
      rw [line, Nat.add_sub_cancel, before, stripComments, stripComments, strip, strip_before, kept_eq]
    · rw [start]
      exact Nat.add_comm 1 kept.length
    · rw [kept_eq]
      exact length_stripFrom_le next front
    · rw [kept_eq]
      exact stripFrom_eq_self

/-- The columns of an expansion count what comments leave of a line. A token stands in a file that
was read, on the line of its start and at its column or behind it; it stands at its column exactly if
the comments leave what is before it on its line as it is. -/
theorem columns_of_expand {files : FileSet} {mode : RequireMode} {p : Path} {e : Expansion}
    (bounded : files.Bounded) (inside : '\n' ∉ p.text.toList)
    (h : (expand files mode p).start.1 = .ok e) : ∀ file, ∀ t ∈ Token.ofText file e.text,
      ∃ q ∈ (expand files mode p).start.2.reads, ∃ script front kept,
        t.start.file = q.text ∧ files.text? q = some script ∧
        t.WrittenBehind script.toList front kept ∧ t.start.column ≤ front.length + 1 ∧
        (t.start.column = front.length + 1 ↔ kept = front) := by
  obtain ⟨gathered, restarts⟩ := traced_of_expand bounded inside h
  intro file t mem
  rw [restarts.ofText] at mem
  obtain ⟨line, mem_line, mem⟩ := List.mem_flatMap.1 mem
  cases line with
  | marker m q => cases mem
  | source text q n =>
    have plain := (restarts p 1).plain text q n mem_line
    obtain ⟨read, rfl | ⟨script, found, same⟩⟩ := gathered.lines _ mem_line
    · -- a blanked directive has no tokens
      simp [ExpandedLine.tokens, Fragment.scan, Token.ofFragments] at mem
    · obtain ⟨front, kept, written, shorter, same_length⟩ :=
        Token.exists_writtenBehind plain same mem
      have column := written.column
      refine ⟨q, read, script, front, kept, ?_, found, written, by omega, fun same => ?_, ?_⟩
      · exact (ExpandedLine.start_of_mem_tokens plain mem).1
      · exact same_length (by omega)
      · rintro rfl
        exact column

/-! ### A comment before a token -/

/-- A script with a comment at the start of its line. -/
def commentedScript : FileSet :=
  { FileSet.empty with files := [(⟨"a.dts"⟩, "/**/x\n")] }

/-- What is left of the comment is one blank. -/
def commentedExpansion : Expansion :=
  ⟨[.marker 1 ⟨"a.dts"⟩, .source " x".toList ⟨"a.dts"⟩ 1], []⟩

theorem bounded_commentedScript : commentedScript.Bounded :=
  FileSet.bounded_of_files (by decide)

theorem ends_expand_commentedScript : (expand commentedScript .elide ⟨"a.dts"⟩).Ends .empty
    commentedExpansion ⟨[⟨"a.dts"⟩], []⟩ := by
  have one_line : lines (stripComments "/**/x\n".toList) = [" x".toList] := by decide
  exact ends_expand_elide rfl one_line rfl .empty

theorem tokens_commentedExpansion : Token.ofText "" commentedExpansion.text =
    [⟨.identifier, "x", ⟨"a.dts", 1, 2⟩⟩] := by
  decide +kernel

/-- The identifier behind the comment gets column two, which counts less than what is before it. -/
theorem columns_of_expand_commentedScript :
    (expand commentedScript .elide ⟨"a.dts"⟩).start.1 = .ok commentedExpansion ∧
    ∀ t ∈ Token.ofText "" commentedExpansion.text,
      ∃ q ∈ [Path.mk "a.dts"], ∃ script front kept,
        t.start.file = q.text ∧ commentedScript.text? q = some script ∧
        t.WrittenBehind script.toList front kept ∧ t.start.column ≤ front.length + 1 ∧
        (t.start.column = front.length + 1 ↔ kept = front) := by
  have expanded : (expand commentedScript .elide ⟨"a.dts"⟩).start.1 = .ok commentedExpansion :=
    congrArg Prod.fst ends_expand_commentedScript
  have journal : (expand commentedScript .elide ⟨"a.dts"⟩).start.2 = ⟨[⟨"a.dts"⟩], []⟩ :=
    congrArg Prod.snd ends_expand_commentedScript
  have columns := columns_of_expand bounded_commentedScript (by decide) expanded
  rw [journal] at columns
  exact ⟨expanded, columns ""⟩

/-- Not every token stands at its column in the script: at column two, the script goes on with the
comment. -/
theorem not_forall_stands_at_column : ¬ ∀ (files : FileSet) (p : Path) (e : Expansion),
    files.Bounded → '\n' ∉ p.text.toList → (expand files .elide p).start.1 = .ok e →
      ∀ file, ∀ t ∈ Token.ofText file e.text, ∃ script line,
        files.text? ⟨t.start.file⟩ = some script ∧
        line? script.toList t.start.line = some line ∧
        t.value.toList <+: line.drop (t.start.column - 1) := by
  intro claim
  have expanded : (expand commentedScript .elide ⟨"a.dts"⟩).start.1 = .ok commentedExpansion :=
    congrArg Prod.fst ends_expand_commentedScript
  have stands := claim _ _ _ bounded_commentedScript (by decide) expanded ""
  rw [tokens_commentedExpansion, List.forall_mem_singleton] at stands
  obtain ⟨script, line, found, at_line, front⟩ := stands
  cases found
  have only_line : line? "/**/x\n".toList 1 = some "/**/x".toList := by decide
  rw [only_line] at at_line
  cases at_line
  revert front
  decide

end TradeScript
