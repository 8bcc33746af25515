import TradeScript.Proofs.Path.Characters
import TradeScript.Proofs.Source.Comment
import TradeScript.Proofs.Source.Requirement
import TradeScript.Proofs.Token.Line

/-!
# Where the tokens of an expanded script come from

An expanded script tells by its markers which line of which file each of its lines stands for, and
the lexer reads the markers back. A sequence of lines is traced if reading it from some place on gives
every line its own origin (`Traced`); the tokens of a traced text are then those of its lines, each
lexed at its origin (`Traced.ofFragments`).

Every expansion is traced, and its lines are lines of files that were read, without their comments
(`expandFile_traced`). So every token stands where its start says in one of these files
(`standsIn_of_expand`). No line of a script is taken for a marker, because such lines are refused.
-/

namespace TradeScript

open Text

/-! ## Lines that may stand in an expansion -/

namespace Directive

/-- A line that is read, as code or as a directive, is no marker. -/
theorem read?_eq_none_of_read {line : List Char} {result : Option (DirectiveKind × List Char)}
    (h : read line = .ok result) : Marker.read? line = none := by
  cases line with
  | nil => rfl
  | cons c body =>
    refine Fragment.read?_eq_none ?_ body
    rintro rfl
    have front : trimStart (Marker.sign :: body) = Marker.sign :: body :=
      List.dropWhile_cons_of_neg (by decide)
    rcases read_eq_ok_cases h with ⟨-, plain⟩ | ⟨sign, body', kind, argument, front', is_sign, -⟩
    · exact (plain Marker.sign (by rw [front]; rfl)).1 rfl
    · obtain ⟨rfl, -⟩ := List.cons.inj (front.symm.trans front')
      exact absurd is_sign (by decide)

theorem mem_of_mem_trim {cs : List Char} {c : Char} (h : c ∈ trim cs) : c ∈ cs := by
  unfold trim trimEnd trimStart at h
  rw [List.mem_reverse] at h
  have inside := List.mem_reverse.1 ((List.dropWhile_sublist _).subset h)
  exact (List.dropWhile_sublist _).subset inside

/-- What follows the word of a requirement consists of characters of the line. -/
theorem mem_of_mem_argument? {line argument : List Char}
    (h : Requirement.argument? line = some argument) {c : Char} (mem : c ∈ argument) : c ∈ line := by
  unfold Requirement.argument? at h
  split at h
  · next rest front =>
    split at h
    · next behind after =>
      split at h
      · cases h
      · cases h
        have whole := dropPrefix?_eq_some_iff.1 after
        have in_rest : c ∈ trimStart rest := by
          rw [whole]
          exact List.mem_append_right _ (mem_of_mem_trim mem)
        have in_front : c ∈ trimStart line := by
          rw [front]
          exact List.mem_cons_of_mem _ ((List.dropWhile_sublist _).subset in_rest)
        exact (List.dropWhile_sublist _).subset in_front
    · cases h
  · cases h

/-- The name in a requirement consists of characters of the line. -/
theorem mem_of_mem_requirement {line name : List Char}
    (h : read line = .ok (some (.requirement, name))) {c : Char} (mem : c ∈ name) : c ∈ line := by
  obtain ⟨body, same, found, -⟩ | ⟨other, -⟩ := argument?_of_read h
  · cases same
    exact mem_of_mem_argument? found (List.mem_append_left _ (List.mem_cons_of_mem _ mem))
  · exact absurd rfl (other name)

end Directive

/-! ## Traced lines -/

/-- Reading the lines from line `n` of a file on gives every line its own origin. -/
inductive Traced : (file : Path) → (n : Nat) → List ExpandedLine → Prop
  | nil (p : Path) (n : Nat) : Traced p n []
  | marker {p q : Path} {n m : Nat} {lines : List ExpandedLine} (small : m < lineLimit)
      (inside : '\n' ∉ q.chars) (more : Traced q m lines) : Traced p n (.marker m q :: lines)
  | source {p : Path} {n : Nat} {text : List Char} {lines : List ExpandedLine}
      (inside : '\n' ∉ text) (unmarked : Marker.read? text = none)
      (more : Traced p (n + 1) lines) : Traced p n (.source text p n :: lines)

/-- Lines that can follow any others: none, or a marker and what it announces. -/
def Restarts (lines : List ExpandedLine) : Prop :=
  ∀ p n, Traced p n lines

theorem restarts_nil : Restarts [] :=
  Traced.nil

theorem restarts_marker {q : Path} {m : Nat} {lines : List ExpandedLine} (small : m < lineLimit)
    (inside : '\n' ∉ q.chars) (more : Traced q m lines) : Restarts (.marker m q :: lines) :=
  fun _ _ => .marker small inside more

namespace ExpandedLine

/-- The tokens of a line on its own, at its origin. -/
def tokens : ExpandedLine → List Token
  | marker _ _ => []
  | source text file n => Token.ofFragments (Fragment.scan ⟨file.text, n, 1⟩ false text)

end ExpandedLine

/-- The tokens of a line of a file stand on that line of the file. -/
theorem ExpandedLine.start_of_mem_tokens {text : List Char} {q : Path} {n : Nat}
    (plain : Fragment.Plain ⟨q.text, n, 1⟩ text) {t : Token}
    (mem : t ∈ (source text q n).tokens) : t.start.file = q.text ∧ t.start.line = n := by
  obtain ⟨gap, rest, -, start⟩ := Token.stands_of_mem_line plain mem
  rw [start]
  exact ⟨rfl, rfl⟩

/-- The tokens of a traced text are those of its lines. -/
theorem Traced.ofFragments {p : Path} {n : Nat} {lines : List ExpandedLine}
    (h : Traced p n lines) :
    Token.ofFragments
        (Fragment.scan ⟨p.text, n, 1⟩ false (unlines (lines.map ExpandedLine.chars))) =
      lines.flatMap ExpandedLine.tokens := by
  induction h with
  | nil p n =>
    rw [List.map_nil, unlines, Fragment.scan, Token.ofFragments]
    rfl
  | @marker p q n m lines small inside more ih =>
    rw [List.map_cons, unlines, ExpandedLine.chars, Fragment.scan_marker small inside rfl, ih]
    rfl
  | @source p n text lines inside unmarked more ih =>
    have plain : Fragment.Plain ⟨p.text, n, 1⟩ text := ⟨inside, Nat.le_refl 1, fun _ => unmarked⟩
    rw [List.map_cons, unlines, ExpandedLine.chars, Token.ofFragments_scan_line plain]
    show _ ++ Token.ofFragments (Fragment.scan ⟨p.text, n + 1, 1⟩ false _) = _
    rw [ih]
    rfl

theorem Traced.newline_not_mem {p : Path} {n : Nat} {lines : List ExpandedLine}
    (h : Traced p n lines) : ∀ line ∈ lines.map ExpandedLine.chars, '\n' ∉ line := by
  induction h with
  | nil p n => simp
  | @marker p q n m lines small inside more ih =>
    rw [List.map_cons, List.forall_mem_cons]
    exact ⟨Marker.newline_not_mem_write inside m, ih⟩
  | source inside unmarked more ih =>
    rw [List.map_cons, List.forall_mem_cons]
    exact ⟨inside, ih⟩

/-- The lines of files in a traced text are plain at their origin. -/
theorem Traced.plain {p : Path} {n : Nat} {lines : List ExpandedLine} (h : Traced p n lines) :
    ∀ text q m, .source text q m ∈ lines → Fragment.Plain ⟨q.text, m, 1⟩ text := by
  intro text q m mem
  induction h with
  | nil p n => cases mem
  | marker small inside more ih => exact ih (List.mem_of_ne_of_mem ExpandedLine.noConfusion mem)
  | @source p n text' lines inside unmarked more ih =>
    rcases List.mem_cons.1 mem with same | mem
    · cases same
      exact ⟨inside, Nat.le_refl 1, fun _ => unmarked⟩
    · exact ih mem

/-- In a traced text only the markers are read as markers. -/
theorem Traced.eq_marker {p : Path} {n : Nat} {lines : List ExpandedLine} (h : Traced p n lines) :
    ∀ line ∈ lines, ∀ m file, Marker.read? line.chars = some (m, file) →
      ∃ q, line = .marker m q ∧ file = q.chars := by
  induction h with
  | nil p n => simp
  | @marker p q n m lines small inside more ih =>
    rw [List.forall_mem_cons]
    refine ⟨fun k file read => ?_, ih⟩
    have written : Marker.read? (Marker.write m q.text) = some (k, file) := read
    rw [Marker.read?_write small] at written
    cases written
    exact ⟨q, rfl, rfl⟩
  | @source p n text lines inside unmarked more ih =>
    rw [List.forall_mem_cons]
    refine ⟨fun k file read => ?_, ih⟩
    have plain : Marker.read? text = some (k, file) := read
    rw [unmarked] at plain
    cases plain

/-! ## Expansions are traced -/

/-- Every text of a set of files has fewer characters than a machine word can count, as every text in
memory has. So a machine word holds the number of each line, and markers can be read back. -/
def FileSet.Bounded (files : FileSet) : Prop :=
  ∀ p text, files.text? p = some text → text.length + 1 < lineLimit

theorem FileSet.bounded_of_files {files : FileSet}
    (h : ∀ f ∈ files.files, f.2.length + 1 < lineLimit) : files.Bounded := by
  intro p text found
  obtain ⟨f, at_p, rfl⟩ := Option.map_eq_some_iff.1 found
  exact h f (List.mem_of_find?_eq_some at_p)

/-- A line of an expansion comes from one of the files that were read: it is blank, or a line of the
file without its comments. -/
def ExpandedLine.ComesFrom (files : FileSet) (reads : List Path) : ExpandedLine → Prop
  | marker _ file => file ∈ reads
  | source text file n => file ∈ reads ∧ (text = [] ∨ ∃ script, files.text? file = some script ∧
      line? (stripComments script.toList) n = some text)

theorem ExpandedLine.ComesFrom.mono {files : FileSet} {reads more : List Path}
    {line : ExpandedLine} (h : line.ComesFrom files reads) (sub : reads ⊆ more) :
    line.ComesFrom files more := by
  cases line with
  | marker n file => exact sub h
  | source text file n => exact ⟨sub h.1, h.2⟩

/-- The paths that were read only grow, and the lines of the expansion come from them. -/
structure Expansion.Gathered (files : FileSet) (journal journal' : Journal) (e : Expansion) :
    Prop where
  reads : journal.reads ⊆ journal'.reads
  lines : ∀ line ∈ e.lines, line.ComesFrom files journal'.reads

theorem Expansion.Gathered.trans_reads {files : FileSet} {first middle last : Journal}
    {e : Expansion} (h : e.Gathered files middle last) (sub : first.reads ⊆ middle.reads) :
    e.Gathered files first last :=
  ⟨List.Subset.trans sub h.reads, h.lines⟩

theorem Expansion.Gathered.consLine {files : FileSet} {journal journal' : Journal} {e : Expansion}
    (h : e.Gathered files journal journal') (line : ExpandedLine)
    (first : line.ComesFrom files journal'.reads) : (e.consLine line).Gathered files journal journal' :=
  ⟨h.reads, List.forall_mem_cons.2 ⟨first, h.lines⟩⟩

theorem Expansion.Gathered.append {files : FileSet} {first middle last : Journal}
    {e f : Expansion} (h : e.Gathered files first middle) (h' : f.Gathered files middle last) :
    (e.append f).Gathered files first last := by
  refine ⟨List.Subset.trans h.reads h'.reads, List.forall_mem_append.2 ⟨?_, h'.lines⟩⟩
  exact fun line mem => (h.lines line mem).mono h'.reads

theorem Expansion.Gathered.consDirective {files : FileSet} {journal journal' : Journal}
    {e : Expansion} (h : e.Gathered files journal journal') (d : Directive) :
    (e.consDirective d).Gathered files journal journal' :=
  ⟨h.reads, h.lines⟩

/-- A script that a line of another requires has no newline in its path. -/
theorem newline_not_mem_resolve {p : Path} (inside : '\n' ∉ p.chars) {line name : List Char}
    (inside' : '\n' ∉ line) (read : Directive.read line = .ok (some (.requirement, name))) :
    '\n' ∉ (p.resolve (String.ofList name)).chars := by
  intro mem
  rcases Path.mem_resolve mem with slash | dot | here | there
  · cases slash
  · cases dot
  · exact inside here
  · rw [String.toList_ofList] at there
    exact inside' (Directive.mem_of_mem_requirement read there)

theorem newline_not_mem_normalize {p : Path} (inside : '\n' ∉ p.chars) :
    '\n' ∉ p.normalize.chars := by
  intro mem
  rcases Path.mem_normalize mem with slash | dot | here
  · cases slash
  · cases dot
  · exact inside here

theorem FileSet.Bounded.number_lt {files : FileSet} (h : files.Bounded) {p : Path}
    {script : String} (found : files.text? p = some script) {before others : List (List Char)}
    {line : List Char} (all : lines (stripComments script.toList) = before ++ line :: others) :
    before.length + 1 + 1 < lineLimit := by
  have short := h p script found
  have lines_le := length_lines_le (stripComments script.toList)
  have strip_le : (stripComments script.toList).length ≤ script.toList.length :=
    length_stripFrom_le .code script.toList
  rw [all, List.length_append, List.length_cons] at lines_le
  rw [String.length_toList] at strip_le
  omega

mutual

/-- The expansion of a file gathers lines of files that were read, and can follow any lines. -/
theorem expandFile_traced {files : FileSet} {mode : RequireMode} (bounded : files.Bounded)
    {active : List Path} {p : Path} (inside : '\n' ∉ p.chars) {journal journal' : Journal}
    {e : Expansion} (h : (expandFile files mode active p).Ends journal e journal') :
    e.Gathered files journal journal' ∧
      ∀ tail, Restarts tail → Restarts (e.lines ++ tail) := by
  obtain ⟨new, script, body, found, step, rfl⟩ := ends_expandFile_iff.1 h
  have asked : p ∈ journal.reads ++ [p] := List.mem_append_right _ (List.mem_singleton_self p)
  obtain ⟨gathered, traced⟩ := expandLines_traced bounded inside found asked [] _ rfl rfl step
  have more : journal.reads ⊆ journal.reads ++ [p] := List.subset_append_left _ _
  refine ⟨(gathered.trans_reads more).consLine _ (gathered.reads asked), fun tail restarts => ?_⟩
  exact restarts_marker (by decide) inside (traced tail restarts)
  termination_by (files.countOutside active, 0)
  decreasing_by
    exact Prod.Lex.left _ _ (FileSet.countOutside_cons_lt found new)

/-- The expansion of some lines of a file gathers lines of files that were read, and gives the first
of them its own number. -/
theorem expandLines_traced {files : FileSet} {mode : RequireMode} (bounded : files.Bounded)
    {active : List Path} {p : Path} (inside : '\n' ∉ p.chars) {script : String}
    (found : files.text? p = some script) {journal journal' : Journal}
    (asked : p ∈ journal.reads) (before remaining : List (List Char))
    (all : lines (stripComments script.toList) = before ++ remaining) {n : Nat}
    (number : before.length + 1 = n) {e : Expansion}
    (h : (expandLines files mode active p n remaining).Ends journal e journal') :
    e.Gathered files journal journal' ∧ ∀ tail, Restarts tail → Traced p n (e.lines ++ tail) := by
  match remaining with
  | [] =>
    obtain ⟨rfl, rfl⟩ := expandLines_nil h
    exact ⟨⟨List.Subset.refl _, by simp [Expansion.empty]⟩, fun tail restarts => restarts p _⟩
  | text :: others =>
    have at_line : text ∈ lines (stripComments script.toList) := by simp [all]
    have inside' : '\n' ∉ text := newline_not_mem_of_mem_lines at_line
    have all' : lines (stripComments script.toList) = (before ++ [text]) ++ others := by simp [all]
    have next : (before ++ [text]).length + 1 = n + 1 := by simp [number]
    obtain ⟨rest, read, step, rfl⟩ | ⟨kind, argument, rest, read, -, step, rfl⟩ |
      ⟨argument, inner, middle, rest, read, splice, step, step', rfl⟩ := expandLines_cons_cases h
    · obtain ⟨gathered, traced⟩ :=
        expandLines_traced bounded inside found asked (before ++ [text]) others all' next step
      have unmarked := Directive.read?_eq_none_of_read read
      have same : line? (stripComments script.toList) n = some text := by
        simp [line?, all, ← number]
      refine ⟨gathered.consLine _ ⟨gathered.reads asked, .inr ⟨script, found, same⟩⟩, ?_⟩
      exact fun tail restarts => .source inside' unmarked (traced tail restarts)
    · obtain ⟨gathered, traced⟩ :=
        expandLines_traced bounded inside found asked (before ++ [text]) others all' next step
      have blank := gathered.consLine (.source [] p n) ⟨gathered.reads asked, .inl rfl⟩
      refine ⟨blank.consDirective _, fun tail restarts => ?_⟩
      exact .source List.not_mem_nil rfl (traced tail restarts)
    · obtain ⟨spliced, spliced_traced⟩ :=
        expandFile_traced bounded (newline_not_mem_resolve inside inside' read) step
      obtain ⟨gathered, traced⟩ := expandLines_traced bounded inside found (spliced.reads asked)
        (before ++ [text]) others all' next step'
      have resumed := gathered.consLine (.marker (n + 1) p) (gathered.reads (spliced.reads asked))
      refine ⟨(spliced.append resumed).consDirective _, fun tail restarts => ?_⟩
      show Traced p n (inner.lines ++ .marker (n + 1) p :: rest.lines ++ tail)
      rw [List.append_assoc, List.cons_append]
      have small : n + 1 < lineLimit := number ▸ bounded.number_lt found all
      exact spliced_traced _ (restarts_marker small inside (traced tail restarts)) p _
  termination_by (files.countOutside active, remaining.length + 1)

end

/-! ## The tokens of an expansion -/

variable {files : FileSet} {mode : RequireMode} {p : Path} {e : Expansion}

theorem traced_of_expand (bounded : files.Bounded) (inside : '\n' ∉ p.text.toList)
    (h : (expand files mode p).start.1 = .ok e) :
    e.Gathered files .empty (expand files mode p).start.2 ∧ Restarts e.lines := by
  have ends : (expandFile files mode [] p.normalize).Ends .empty e (expand files mode p).start.2 :=
    Prod.ext h rfl
  obtain ⟨gathered, traced⟩ := expandFile_traced bounded (newline_not_mem_normalize inside) ends
  have restarts := traced [] restarts_nil
  rw [List.append_nil] at restarts
  exact ⟨gathered, restarts⟩

theorem Restarts.ofText {e : Expansion} (h : Restarts e.lines) (file : String) :
    Token.ofText file e.text = e.lines.flatMap ExpandedLine.tokens := by
  unfold Token.ofText Fragment.ofText Expansion.text
  rw [String.toList_ofList]
  exact (h ⟨file⟩ 1).ofFragments

/-- A token stands where its start says in one of the files that were read, without its comments. -/
def Token.StandsIn (t : Token) (files : FileSet) (reads : List Path) : Prop :=
  ∃ q ∈ reads, ∃ script line, t.start.file = q.text ∧ files.text? q = some script ∧
    line? (stripComments script.toList) t.start.line = some line ∧ 1 ≤ t.start.column ∧
      t.value.toList <+: line.drop (t.start.column - 1)

theorem Token.standsIn_of_source {reads : List Path} {text : List Char} {q : Path} {n : Nat}
    (plain : Fragment.Plain ⟨q.text, n, 1⟩ text)
    (origin : (ExpandedLine.source text q n).ComesFrom files reads) {t : Token}
    (mem : t ∈ (ExpandedLine.source text q n).tokens) : t.StandsIn files reads := by
  obtain ⟨gap, rest, split, start⟩ := stands_of_mem_line plain mem
  obtain ⟨read, rfl | ⟨script, found, same⟩⟩ := origin
  · -- a blanked directive has no tokens
    simp [ExpandedLine.tokens, Fragment.scan, ofFragments] at mem
  · have column : t.start.column = 1 + gap.length := by rw [start]; rfl
    refine ⟨q, read, script, text, ?_, found, ?_, ?_, ?_⟩
    · rw [start]
      rfl
    · rw [start]
      exact same
    · omega
    · rw [column, Nat.add_sub_cancel_left, split, List.drop_left]
      exact List.prefix_append _ _

/-- Every token of an expansion stands where its start says in a file that was read, without its
comments. Only the markers that the expansion put in are read as markers. -/
theorem standsIn_of_expand (bounded : files.Bounded) (inside : '\n' ∉ p.text.toList)
    (h : (expand files mode p).start.1 = .ok e) :
    (∀ file, ∀ t ∈ Token.ofText file e.text,
      t.StandsIn files (expand files mode p).start.2.reads) ∧
    ∀ (i : Nat) line m file, (split '\n' e.text.toList)[i]? = some line →
      Marker.read? line = some (m, file) → ∃ q ∈ (expand files mode p).start.2.reads,
        e.lines[i]? = some (.marker m q) ∧ file = q.chars := by
  obtain ⟨gathered, restarts⟩ := traced_of_expand bounded inside h
  have traced := restarts p 1
  constructor
  · intro file t mem
    rw [restarts.ofText] at mem
    obtain ⟨line, mem_line, mem⟩ := List.mem_flatMap.1 mem
    cases line with
    | marker m q => cases mem
    | source text q n =>
      exact Token.standsIn_of_source (traced.plain text q n mem_line) (gathered.lines _ mem_line) mem
  · intro i line m file at_i read
    unfold Expansion.text at at_i
    rw [String.toList_ofList, split_unlines traced.newline_not_mem] at at_i
    by_cases within : i < e.lines.length
    · rw [List.getElem?_append_left (by simpa using within), List.getElem?_map] at at_i
      obtain ⟨marker, found, rfl⟩ := Option.map_eq_some_iff.1 at_i
      obtain ⟨q, rfl, same⟩ := traced.eq_marker marker (List.mem_of_getElem? found) m file read
      exact ⟨q, gathered.lines _ (List.mem_of_getElem? found), found, same⟩
    · rw [List.getElem?_append_right (by simpa using within)] at at_i
      have last := List.mem_of_getElem? at_i
      rw [List.mem_singleton.1 last] at read
      cases read

/-! ### A script spliced into another -/

/-- A script that requires another one before its own code. -/
def splicedPair : FileSet :=
  { FileSet.empty with
    files := [(⟨"a.dts"⟩, "#require \"b.dti\"\nint y;\n"), (⟨"b.dti"⟩, "int x;\n")] }

/-- The required script stands in the place of the requirement, between two markers. -/
def splicedPairExpansion : Expansion :=
  ⟨[.marker 1 ⟨"a.dts"⟩, .marker 1 ⟨"b.dti"⟩, .source "int x;".toList ⟨"b.dti"⟩ 1,
      .marker 2 ⟨"a.dts"⟩, .source "int y;".toList ⟨"a.dts"⟩ 2],
    [⟨.requirement, "b.dti", ⟨"a.dts"⟩, 1⟩]⟩

theorem ends_expandFile_splicedPair :
    (expandFile splicedPair .splice [⟨"a.dts"⟩] ⟨"b.dti"⟩).Ends ⟨[⟨"a.dts"⟩], []⟩
      ⟨[.marker 1 ⟨"b.dti"⟩, .source "int x;".toList ⟨"b.dti"⟩ 1], []⟩
      ⟨[⟨"a.dts"⟩, ⟨"b.dti"⟩], []⟩ := by
  refine ends_expandFile_iff.2
    ⟨by decide, _, ⟨[.source "int x;".toList ⟨"b.dti"⟩ 1], []⟩, rfl, ?_, rfl⟩
  have one_line : lines (stripComments "int x;\n".toList) = ["int x;".toList] := by decide
  rw [one_line]
  simp only [expandLines, readDirective]
  rfl

theorem ends_expand_splicedPair : (expand splicedPair .splice ⟨"a.dts"⟩).Ends .empty
    splicedPairExpansion ⟨[⟨"a.dts"⟩, ⟨"b.dti"⟩], []⟩ := by
  refine ends_expand_iff.2
    ⟨_, ⟨splicedPairExpansion.lines.tail, splicedPairExpansion.directives⟩, rfl, ?_, rfl⟩
  have two_lines : lines (stripComments "#require \"b.dti\"\nint y;\n".toList) =
      ["#require \"b.dti\"".toList, "int y;".toList] := by decide
  have normal : (Path.mk "a.dts").normalize = ⟨"a.dts"⟩ := rfl
  have required : (Path.mk "a.dts").resolve "b.dti" = ⟨"b.dti"⟩ := rfl
  rw [two_lines, normal, expandLines]
  refine Reading.ends_bind_iff.2 ⟨some ⟨.requirement, "b.dti", ⟨"a.dts"⟩, 1⟩, _, rfl, ?_⟩
  dsimp only
  rw [if_pos ⟨rfl, rfl⟩, required]
  refine Reading.ends_bind_iff.2 ⟨_, _, ends_expandFile_splicedPair, ?_⟩
  simp only [expandLines, readDirective]
  rfl

theorem bounded_splicedPair : splicedPair.Bounded :=
  FileSet.bounded_of_files (by decide)

/-- The tokens of both scripts stand in their own files, also behind the spliced one. -/
theorem standsIn_of_expand_splicedPair :
    Token.ofText "" splicedPairExpansion.text =
      [⟨.typeName, "int", ⟨"b.dti", 1, 1⟩⟩, ⟨.identifier, "x", ⟨"b.dti", 1, 5⟩⟩,
        ⟨.mark .semicolon, ";", ⟨"b.dti", 1, 6⟩⟩, ⟨.typeName, "int", ⟨"a.dts", 2, 1⟩⟩,
        ⟨.identifier, "y", ⟨"a.dts", 2, 5⟩⟩, ⟨.mark .semicolon, ";", ⟨"a.dts", 2, 6⟩⟩] ∧
    ∀ t ∈ Token.ofText "" splicedPairExpansion.text,
      t.StandsIn splicedPair [⟨"a.dts"⟩, ⟨"b.dti"⟩] := by
  have expanded : (expand splicedPair .splice ⟨"a.dts"⟩).start.1 = .ok splicedPairExpansion :=
    congrArg Prod.fst ends_expand_splicedPair
  have journal : (expand splicedPair .splice ⟨"a.dts"⟩).start.2 = ⟨[⟨"a.dts"⟩, ⟨"b.dti"⟩], []⟩ :=
    congrArg Prod.snd ends_expand_splicedPair
  have stands := standsIn_of_expand bounded_splicedPair (by decide) expanded
  rw [journal] at stands
  exact ⟨by decide +kernel, stands.1 ""⟩

end TradeScript
