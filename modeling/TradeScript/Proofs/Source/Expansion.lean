import TradeScript.Proofs.Source.Reading
import TradeScript.Source.Expansion

/-!
# What an expansion is made from

A successful run of the expansion is taken apart once: the expansion of a file is its marker and the
expansion of its lines (`ends_expandFile_iff`), and the first of these lines is code, a directive that
is blanked, or a requirement in whose place a script is spliced (`expandLines_cons_cases`).

If requirements are blanked, the expansion asks for one file and then is a function of what is found
there (`expand_elide_eq`, `ends_expand_elide`).
-/

namespace TradeScript

open Text

theorem readDirective_eq_ok {file : Path} {line : Nat} {text : List Char}
    {result : Option Directive} (h : readDirective file line text = .ok result) :
    ∃ found, Directive.read text = .ok found ∧
      result = found.map fun (kind, argument) => ⟨kind, String.ofList argument, file, line⟩ := by
  unfold readDirective at h
  split at h
  · cases h
  · next at_line =>
    cases h
    exact ⟨none, at_line, rfl⟩
  · next kind argument at_line =>
    cases h
    exact ⟨some (kind, argument), at_line, rfl⟩

variable {files : FileSet} {mode : RequireMode} {active : List Path} {p : Path} {n : Nat}
  {journal journal' : Journal} {e : Expansion}

theorem expandLines_nil (h : (expandLines files mode active p n []).Ends journal e journal') :
    e = .empty ∧ journal = journal' := by
  rw [expandLines] at h
  obtain ⟨rfl, rfl⟩ := Reading.ends_pure_iff.1 h
  exact ⟨rfl, rfl⟩

/-- What becomes of the first of some lines. -/
theorem expandLines_cons_cases {text : List Char} {others : List (List Char)}
    (h : (expandLines files mode active p n (text :: others)).Ends journal e journal') :
    (∃ rest, Directive.read text = .ok none ∧
      (expandLines files mode active p (n + 1) others).Ends journal rest journal' ∧
        e = rest.consLine (.source text p n)) ∨
    (∃ kind argument rest, Directive.read text = .ok (some (kind, argument)) ∧
      ¬ (kind = .requirement ∧ mode = .splice) ∧
        (expandLines files mode active p (n + 1) others).Ends journal rest journal' ∧
          e = (rest.consLine (.source [] p n)).consDirective ⟨kind, String.ofList argument, p, n⟩) ∨
    (∃ argument inner middle rest, Directive.read text = .ok (some (.requirement, argument)) ∧
      mode = .splice ∧
        (expandFile files mode active (p.resolve (String.ofList argument))).Ends journal inner middle ∧
          (expandLines files mode active p (n + 1) others).Ends middle rest journal' ∧
            e = (inner.append (rest.consLine (.marker (n + 1) p))).consDirective
              ⟨.requirement, String.ofList argument, p, n⟩) := by
  rw [expandLines] at h
  obtain ⟨result, middle, step, h⟩ := Reading.ends_bind_iff.1 h
  obtain ⟨read, rfl⟩ := Reading.ends_ofExcept_iff.1 step
  obtain ⟨found, at_line, rfl⟩ := readDirective_eq_ok read
  cases found with
  | none =>
    obtain ⟨rest, middle, step, h⟩ := Reading.ends_bind_iff.1 h
    obtain ⟨rfl, rfl⟩ := Reading.ends_pure_iff.1 h
    exact .inl ⟨rest, at_line, step, rfl⟩
  | some found =>
    obtain ⟨kind, argument⟩ := found
    dsimp only [Option.map_some] at h
    split at h
    · next spliced =>
      obtain ⟨rfl, splice⟩ := spliced
      obtain ⟨inner, middle, step, h⟩ := Reading.ends_bind_iff.1 h
      obtain ⟨rest, middle', step', h⟩ := Reading.ends_bind_iff.1 h
      obtain ⟨rfl, rfl⟩ := Reading.ends_pure_iff.1 h
      exact .inr (.inr ⟨argument, inner, middle, rest, at_line, splice, step, step', rfl⟩)
    · next blanked =>
      obtain ⟨rest, middle, step, h⟩ := Reading.ends_bind_iff.1 h
      obtain ⟨rfl, rfl⟩ := Reading.ends_pure_iff.1 h
      exact .inr (.inl ⟨kind, argument, rest, at_line, blanked, step, rfl⟩)

/-- The expansion of a script is its marker and the expansion of its lines without comments. -/
theorem ends_expandFile_iff : (expandFile files mode active p).Ends journal e journal' ↔
    active.contains p = false ∧ ∃ text body, files.text? p = some text ∧
      (expandLines files mode (p :: active) p 1 (lines (stripComments text.toList))).Ends
          { journal with reads := journal.reads ++ [p] } body journal' ∧
        body.consLine (.marker 1 p) = e := by
  rw [expandFile]
  cases known : active.contains p with
  | true =>
    rw [dif_pos rfl]
    constructor
    · exact fun h => absurd h Reading.not_ends_fail
    · rintro ⟨⟨⟩, -⟩
  | false =>
    rw [dif_neg (by simp)]
    constructor
    · intro h
      obtain ⟨⟨⟩, middle, asked, h⟩ := Reading.ends_bind_iff.1 h
      cases asked
      split at h
      · exact absurd h Reading.not_ends_fail
      · next text found =>
        obtain ⟨body, middle', step, h⟩ := Reading.ends_bind_iff.1 h
        obtain ⟨rfl, rfl⟩ := Reading.ends_pure_iff.1 h
        exact ⟨rfl, text, body, found, step, rfl⟩
    · rintro ⟨-, text, body, found, step, rfl⟩
      refine Reading.ends_bind_iff.2 ⟨(), _, rfl, ?_⟩
      split
      · next missing =>
        rw [missing] at found
        cases found
      · next text' found' =>
        cases found.symm.trans found'
        exact Reading.ends_bind_iff.2 ⟨body, journal', step, Reading.ends_pure_iff.2 ⟨rfl, rfl⟩⟩

theorem ends_expand_iff {p : Path} : (expand files mode p).Ends journal e journal' ↔
    ∃ text body, files.text? p.normalize = some text ∧
      (expandLines files mode [p.normalize] p.normalize 1
        (lines (stripComments text.toList))).Ends
          { journal with reads := journal.reads ++ [p.normalize] } body journal' ∧
      body.consLine (.marker 1 p.normalize) = e := by
  rw [expand, ends_expandFile_iff]
  exact and_iff_right rfl

/-! ### Lines put before others -/

section

variable {rest : Expansion} {text : List Char} {others : List (List Char)}

theorem ends_expandLines_code (read : Directive.read text = .ok none)
    (more : (expandLines files mode active p (n + 1) others).Ends journal rest journal') :
    (expandLines files mode active p n (text :: others)).Ends journal
      (rest.consLine (.source text p n)) journal' := by
  have code : readDirective p n text = .ok none := by rw [readDirective, read]
  rw [expandLines]
  refine Reading.ends_bind_iff.2 ⟨none, journal, Reading.ends_ofExcept_iff.2 ⟨code, rfl⟩, ?_⟩
  exact Reading.ends_bind_iff.2 ⟨rest, journal', more, Reading.ends_pure_iff.2 ⟨rfl, rfl⟩⟩

variable {kind : DirectiveKind} {argument : List Char}

theorem readDirective_of_read (read : Directive.read text = .ok (some (kind, argument))) :
    readDirective p n text = .ok (some ⟨kind, String.ofList argument, p, n⟩) := by
  rw [readDirective, read]

theorem ends_expandLines_blanked (read : Directive.read text = .ok (some (kind, argument)))
    (blanked : ¬ (kind = .requirement ∧ mode = .splice))
    (more : (expandLines files mode active p (n + 1) others).Ends journal rest journal') :
    (expandLines files mode active p n (text :: others)).Ends journal
      ((rest.consLine (.source [] p n)).consDirective ⟨kind, String.ofList argument, p, n⟩)
      journal' := by
  rw [expandLines]
  refine Reading.ends_bind_iff.2
    ⟨_, journal, Reading.ends_ofExcept_iff.2 ⟨readDirective_of_read read, rfl⟩, ?_⟩
  dsimp only
  rw [if_neg blanked]
  exact Reading.ends_bind_iff.2 ⟨rest, journal', more, Reading.ends_pure_iff.2 ⟨rfl, rfl⟩⟩

theorem ends_expandLines_spliced {inner : Expansion} {middle : Journal}
    (read : Directive.read text = .ok (some (.requirement, argument)))
    (found : (expandFile files .splice active (p.resolve (String.ofList argument))).Ends journal
      inner middle)
    (more : (expandLines files .splice active p (n + 1) others).Ends middle rest journal') :
    (expandLines files .splice active p n (text :: others)).Ends journal
      ((inner.append (rest.consLine (.marker (n + 1) p))).consDirective
        ⟨.requirement, String.ofList argument, p, n⟩) journal' := by
  rw [expandLines]
  refine Reading.ends_bind_iff.2
    ⟨_, journal, Reading.ends_ofExcept_iff.2 ⟨readDirective_of_read read, rfl⟩, ?_⟩
  dsimp only
  rw [if_pos ⟨rfl, rfl⟩]
  refine Reading.ends_bind_iff.2 ⟨inner, middle, found, ?_⟩
  exact Reading.ends_bind_iff.2 ⟨rest, journal', more, Reading.ends_pure_iff.2 ⟨rfl, rfl⟩⟩

end

/-! ## Requirements that are blanked -/

/-- The expansion of the remaining lines of the script at a path, with its requirements blanked; the
first line has number `line`. -/
def elidedLines (p : Path) (line : Nat) : List (List Char) → Except Failure Expansion
  | [] => .ok .empty
  | text :: others => do
    match ← readDirective p line text with
    | none => return (← elidedLines p (line + 1) others).consLine (.source text p line)
    | some d =>
      return ((← elidedLines p (line + 1) others).consLine (.source [] p line)).consDirective d

/-- The expansion of the script with the given text at a path, with its requirements blanked. -/
def elided (p : Path) (text : String) : Except Failure Expansion := do
  return (← elidedLines p 1 (Text.lines (stripComments text.toList))).consLine (.marker 1 p)

namespace Reading

theorem ofExcept_bind {α β : Type} (x : Except Failure α) (f : α → Except Failure β) :
    ofExcept (x >>= f) = ofExcept x >>= fun a => ofExcept (f a) := by
  cases x <;> rfl

end Reading

theorem expandLines_elide_eq (files : FileSet) (active : List Path) (p : Path) (line : Nat)
    (remaining : List (List Char)) : expandLines files .elide active p line remaining =
      Reading.ofExcept (elidedLines p line remaining) := by
  induction remaining generalizing line with
  | nil =>
    rw [expandLines]
    rfl
  | cons text others ih =>
    rw [expandLines, elidedLines, Reading.ofExcept_bind]
    congr 1
    funext d
    cases d with
    | none =>
      simp only [ih, Reading.ofExcept_bind]
      rfl
    | some d =>
      simp only [ih, Reading.ofExcept_bind, reduceCtorEq, and_false, if_false]
      rfl

theorem expand_elide_eq (files : FileSet) (p : Path) : expand files .elide p = (do
    Reading.ask p.normalize
    Reading.ofExcept (files.load p.normalize >>= elided p.normalize)) := by
  rw [expand, expandFile, dif_neg (by simp)]
  congr 1
  funext _
  unfold FileSet.load
  split
  · next absent => simp only [absent]; rfl
  · next text found =>
    simp only [found]
    show _ = Reading.ofExcept (elided p.normalize text)
    rw [expandLines_elide_eq, elided, Reading.ofExcept_bind]
    rfl

section

variable {script : String}

/-- A script whose requirements are blanked is expanded from its lines without comments. -/
theorem ends_expand_elide {stripped : List (List Char)} {written : List ExpandedLine}
    {directives : List Directive} (found : files.text? p.normalize = some script)
    (cut : lines (stripComments script.toList) = stripped)
    (read : elidedLines p.normalize 1 stripped = .ok ⟨written, directives⟩) (journal : Journal) :
    (expand files .elide p).Ends journal ⟨.marker 1 p.normalize :: written, directives⟩
      { journal with reads := journal.reads ++ [p.normalize] } := by
  refine ends_expand_iff.2 ⟨script, ⟨written, directives⟩, found, ?_, rfl⟩
  rw [cut, expandLines_elide_eq]
  exact Reading.ends_ofExcept_iff.2 ⟨read, rfl⟩

/-- The expansion of a script that is one directive, if requirements are blanked. -/
theorem expand_elide_of_line {text : List Char} {kind : DirectiveKind} {argument : List Char}
    (found : files.text? p.normalize = some script)
    (one : lines (stripComments script.toList) = [text])
    (read : Directive.read text = .ok (some (kind, argument))) : (expand files .elide p).start.1 =
      .ok ⟨[.marker 1 p.normalize, .source [] p.normalize 1],
        [⟨kind, String.ofList argument, p.normalize, 1⟩]⟩ := by
  have body : elidedLines p.normalize 1 [text] = .ok ⟨[.source [] p.normalize 1],
      [⟨kind, String.ofList argument, p.normalize, 1⟩]⟩ := by
    rw [elidedLines, readDirective_of_read read]
    rfl
  exact congrArg Prod.fst (ends_expand_elide found one body .empty)

end

/-! ## How an expansion may fail -/

theorem error_of_readDirective {file : Path} {line : Nat} {text : List Char} {failure : Failure}
    (h : readDirective file line text = .error failure) :
    ∃ fault, Directive.read text = .error fault ∧ failure = fault.failure file line := by
  unfold readDirective at h
  split at h
  · next fault read =>
    cases h
    exact ⟨fault, read, rfl⟩
  · cases h
  · cases h

/-- A file is missing, one of its lines is faulty, or files require one another in a circle. -/
def Failure.OfFiles : Failure → Prop
  | unreadable .. => True
  | line .. => True
  | cycle _ => True
  | _ => False

mutual

theorem tame_expandFile (files : FileSet) (mode : RequireMode) (active : List Path) (p : Path) :
    (expandFile files mode active p).Tame Failure.OfFiles := by
  rw [expandFile]
  split
  · exact Reading.tame_fail trivial
  · refine .bind (Reading.tame_ask p) fun _ => ?_
    split
    · exact Reading.tame_fail trivial
    · exact .bind (tame_expandLines files mode (p :: active) p 1 _) fun _ => Reading.tame_pure _
  termination_by (files.countOutside active, 0)
  decreasing_by
    rename_i seen _ _ _ found
    exact Prod.Lex.left _ _ (FileSet.countOutside_cons_lt found (by simpa using seen))

theorem tame_expandLines (files : FileSet) (mode : RequireMode) (active : List Path) (p : Path)
    (line : Nat) (remaining : List (List Char)) :
    (expandLines files mode active p line remaining).Tame Failure.OfFiles := by
  match remaining with
  | [] =>
    rw [expandLines]
    exact Reading.tame_pure _
  | text :: others =>
    rw [expandLines]
    refine .bind (Reading.tame_ofExcept fun failure failed => ?_) fun d => ?_
    · obtain ⟨fault, -, rfl⟩ := error_of_readDirective failed
      trivial
    · have rest := tame_expandLines files mode active p (line + 1) others
      split
      · exact .bind rest fun _ => Reading.tame_pure _
      · split
        · exact .bind (tame_expandFile files mode active _) fun _ =>
            .bind rest fun _ => Reading.tame_pure _
        · exact .bind rest fun _ => Reading.tame_pure _
  termination_by (files.countOutside active, remaining.length + 1)

end

/-- An expansion does not depend on what was read before, and fails because of the files only. -/
theorem tame_expand (files : FileSet) (mode : RequireMode) (p : Path) :
    (expand files mode p).Tame Failure.OfFiles :=
  tame_expandFile files mode [] p.normalize

end TradeScript
