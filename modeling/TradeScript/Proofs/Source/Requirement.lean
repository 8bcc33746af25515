import TradeScript.Proofs.Requirement.Resolution
import TradeScript.Proofs.Source.Directive

/-!
# The requirements of a script

The requirements of a script are searched in its raw text, but its directives are read after its
comments have been blanked. On the text without comments both find the same requirements, and on the
raw text they agree exactly if the comments neither hide nor change a line that requires a script
(`ofText_eq_requirements_iff`).
-/

namespace TradeScript

open Text

namespace Requirement

/-- The lines that require a script: what stands after the word, and their numbers. -/
def named (number : Nat) : List (List Char) → List (List Char × Nat)
  | [] => []
  | line :: others =>
    match argument? line with
    | none => named (number + 1) others
    | some argument => (argument, number) :: named (number + 1) others

/-- A requirement as its line writes it. -/
def written (r : Requirement) : List Char × Nat :=
  ('"' :: r.target.toList ++ ['"'], r.line)

theorem ofLines_eq_ok_iff {file : Path} {number : Nat} {lines : List (List Char)}
    {found : List Requirement} : ofLines file number lines = .ok found ↔
      named number lines = found.map written ∧ ∀ r ∈ found, '"' ∉ r.target.toList := by
  induction lines generalizing number found with
  | nil =>
    rw [ofLines, named]
    constructor
    · rintro ⟨⟩
      simp
    · rintro ⟨none_named, -⟩
      rw [List.map_eq_nil_iff.1 none_named.symm]
  | cons line others ih =>
    rw [ofLines, named]
    cases at_line : argument? line with
    | none => exact ih
    | some argument =>
      dsimp only
      cases quoted : unquote? argument with
      | none =>
        simp only [reduceCtorEq, false_iff, not_and]
        intro whole clean
        cases found with
        | nil => cases whole
        | cons r found =>
          obtain ⟨first, -⟩ := List.cons.inj whole
          rw [(Prod.mk.inj first).1, unquote?_eq_some_iff.2 ⟨rfl, clean r List.mem_cons_self⟩]
            at quoted
          cases quoted
      | some target =>
        obtain ⟨rfl, clean⟩ := unquote?_eq_some_iff.1 quoted
        constructor
        · intro h
          obtain ⟨rest, ofLines_rest, rfl⟩ := Directive.except_map_eq_ok h
          obtain ⟨names, all_clean⟩ := ih.1 ofLines_rest
          refine ⟨by simp [names, written], ?_⟩
          rw [List.forall_mem_cons]
          exact ⟨by simpa using clean, all_clean⟩
        · rintro ⟨names, all_clean⟩
          cases found with
          | nil => cases names
          | cons r found =>
            obtain ⟨first, rest⟩ := List.cons.inj names
            rw [List.forall_mem_cons] at all_clean
            rw [ih.2 ⟨rest, all_clean.2⟩]
            simp only [written, Prod.mk.injEq, List.cons_append, List.cons.injEq, true_and,
              List.append_cancel_right_eq] at first
            obtain ⟨rfl, rfl⟩ := first
            simp [Except.map]

end Requirement

namespace Expansion

/-- The requirements among the directives of an expansion. -/
def requirements (e : Expansion) : List Requirement :=
  (e.directivesOf .requirement).map fun d => ⟨d.argument, d.line⟩

theorem requirements_consLine (line : ExpandedLine) (e : Expansion) :
    (e.consLine line).requirements = e.requirements :=
  rfl

theorem requirements_consDirective (d : Directive) (e : Expansion) :
    (e.consDirective d).requirements =
      if d.kind = .requirement then ⟨d.argument, d.line⟩ :: e.requirements else e.requirements := by
  simp only [requirements, directivesOf, consDirective, List.filter_cons, decide_eq_true_eq]
  split <;> rfl

/-- The requirements of an expansion are those that some lines name. -/
def Names (e : Expansion) (number : Nat) (lines : List (List Char)) : Prop :=
  Requirement.named number lines = e.requirements.map Requirement.written ∧
    ∀ r ∈ e.requirements, '"' ∉ r.target.toList

end Expansion

/-! ## Lines whose requirements are blanked -/

theorem names_of_expandLines {files : FileSet} {active : List Path} {p : Path} {number : Nat}
    {lines : List (List Char)} {journal journal' : Journal} {e : Expansion}
    (h : (expandLines files .elide active p number lines).Ends journal e journal') :
    e.Names number lines := by
  induction lines generalizing number journal journal' e with
  | nil =>
    obtain ⟨rfl, -⟩ := expandLines_nil h
    exact ⟨rfl, by simp [Expansion.requirements, Expansion.directivesOf, Expansion.empty]⟩
  | cons line others ih =>
    obtain ⟨rest, at_line, step, rfl⟩ | ⟨kind, argument, rest, at_line, -, step, rfl⟩ |
      ⟨argument, inner, middle, rest, at_line, ⟨⟩, -⟩ := expandLines_cons_cases h
    · obtain ⟨body, same, -⟩ | ⟨-, unnamed⟩ := Directive.argument?_of_read at_line
      · cases same
      · rw [Expansion.Names, Requirement.named, unnamed, Expansion.requirements_consLine]
        exact ih step
    · obtain ⟨names, clean⟩ := ih step
      rw [Expansion.Names, Requirement.named, Expansion.requirements_consDirective,
        Expansion.requirements_consLine]
      obtain ⟨body, same, at_line, clean'⟩ | ⟨other, unnamed⟩ := Directive.argument?_of_read at_line
      · cases same
        rw [at_line, if_pos rfl]
        refine ⟨by simp [names, Requirement.written], ?_⟩
        rw [List.forall_mem_cons]
        exact ⟨by simpa using clean', clean⟩
      · have not_requirement : kind ≠ .requirement := by
          rintro rfl
          exact other argument rfl
        rw [unnamed, if_neg not_requirement]
        exact ⟨names, clean⟩

/-- What the expansion of a script with blanked requirements was made from. -/
theorem names_of_expand {files : FileSet} {p : Path} {journal journal' : Journal} {e : Expansion}
    (h : (expand files .elide p).Ends journal e journal') :
    ∃ text, files.text? p.normalize = some text ∧
      e.Names 1 (lines (stripComments text.toList)) := by
  obtain ⟨text, body, found, step, rfl⟩ := ends_expand_iff.1 h
  have names := names_of_expandLines step
  exact ⟨text, found, names⟩

/-- A script whose requirements are blanked has the requirements that are found in its text without
comments. They are found in its raw text just if the same lines of both name the same. -/
theorem ofText_eq_requirements_iff {files : FileSet} {p : Path} {e : Expansion}
    (h : (expand files .elide p).start.1 = .ok e) :
    ∃ text, files.text? p.normalize = some text ∧ ∀ file,
      Requirement.ofText file (String.ofList (stripComments text.toList)) = .ok e.requirements ∧
      (Requirement.ofText file text = .ok e.requirements ↔
        Requirement.named 1 (lines text.toList) =
          Requirement.named 1 (lines (stripComments text.toList))) := by
  have ends : (expand files .elide p).Ends .empty e (expand files .elide p).start.2 :=
    Prod.ext h rfl
  obtain ⟨text, found, names, clean⟩ := names_of_expand ends
  refine ⟨text, found, fun file => ⟨?_, ?_⟩⟩
  · rw [Requirement.ofText, String.toList_ofList]
    exact Requirement.ofLines_eq_ok_iff.2 ⟨names, clean⟩
  · rw [Requirement.ofText, Requirement.ofLines_eq_ok_iff, names]
    exact ⟨And.left, fun same => ⟨same, clean⟩⟩

/-! ## A plain requirement, one behind a comment and one inside -/

/-- One script that requires another. -/
def oneRequirement : FileSet :=
  { FileSet.empty with files := [(⟨"a.dts"⟩, "#require \"b.dti\"\n")] }

theorem expand_oneRequirement : (expand oneRequirement .elide ⟨"a.dts"⟩).start.1 =
    .ok ⟨[.marker 1 ⟨"a.dts"⟩, .source [] ⟨"a.dts"⟩ 1],
      [⟨.requirement, "b.dti", ⟨"a.dts"⟩, 1⟩]⟩ := by
  have one_line : lines (stripComments "#require \"b.dti\"\n".toList) =
      ["#require \"b.dti\"".toList] := by decide
  have read : Directive.read "#require \"b.dti\"".toList =
      .ok (some (.requirement, "b.dti".toList)) := rfl
  exact expand_elide_of_line rfl one_line read

theorem ofText_eq_requirements_oneRequirement :
    (expand oneRequirement .elide ⟨"a.dts"⟩).start.1 =
      .ok ⟨[.marker 1 ⟨"a.dts"⟩, .source [] ⟨"a.dts"⟩ 1],
        [⟨.requirement, "b.dti", ⟨"a.dts"⟩, 1⟩]⟩ ∧
    ∃ text, oneRequirement.text? (Path.mk "a.dts").normalize = some text ∧ ∀ file,
      Requirement.ofText file (String.ofList (stripComments text.toList)) = .ok [⟨"b.dti", 1⟩] ∧
      (Requirement.ofText file text = .ok [⟨"b.dti", 1⟩] ↔
        Requirement.named 1 (lines text.toList) =
          Requirement.named 1 (lines (stripComments text.toList))) :=
  ⟨expand_oneRequirement, ofText_eq_requirements_iff expand_oneRequirement⟩

/-- One script with a requirement behind a comment. -/
def requirementBehind : FileSet :=
  { FileSet.empty with files := [(⟨"a.dts"⟩, "/* note */ #require \"b.dti\"\n")] }

theorem expand_requirementBehind : (expand requirementBehind .elide ⟨"a.dts"⟩).start.1 =
    .ok ⟨[.marker 1 ⟨"a.dts"⟩, .source [] ⟨"a.dts"⟩ 1],
      [⟨.requirement, "b.dti", ⟨"a.dts"⟩, 1⟩]⟩ := by
  have one_line : lines (stripComments "/* note */ #require \"b.dti\"\n".toList) =
      ["  #require \"b.dti\"".toList] := by decide
  have read : Directive.read "  #require \"b.dti\"".toList =
      .ok (some (.requirement, "b.dti".toList)) := rfl
  exact expand_elide_of_line rfl one_line read

/-- One script with a requirement inside a comment. -/
def requirementInside : FileSet :=
  { FileSet.empty with files := [(⟨"a.dts"⟩, "/*\n#require \"b.dti\"\n*/\n")] }

theorem expand_requirementInside : (expand requirementInside .elide ⟨"a.dts"⟩).start.1 =
    .ok ⟨[.marker 1 ⟨"a.dts"⟩, .source [' '] ⟨"a.dts"⟩ 1, .source [] ⟨"a.dts"⟩ 2,
      .source [] ⟨"a.dts"⟩ 3], []⟩ := by
  have blank_lines : lines (stripComments "/*\n#require \"b.dti\"\n*/\n".toList) =
      [[' '], [], []] := by decide
  exact congrArg Prod.fst (ends_expand_elide rfl blank_lines rfl .empty)

/-- A requirement behind a comment is blanked, but not found in the raw text, and so is missing
among the dependencies. One inside a comment is found there, but is no directive. -/
theorem not_forall_ofText_eq_requirements :
    (¬ ∀ (files : FileSet) (p : Path) (e : Expansion) (text : String) (found : List Requirement),
      (expand files .elide p).start.1 = .ok e → files.text? p.normalize = some text →
        Requirement.ofText p text = .ok found → e.requirements ⊆ found) ∧
    (¬ ∀ (files : FileSet) (p : Path) (e : Expansion) (ds : List Dependency),
      (expand files .elide p).start.1 = .ok e →
        (Requirement.dependencies files p).start.1 = .ok ds →
          ∀ r ∈ e.requirements, p.normalize.resolve r.target ∈ ds.map Dependency.path) ∧
    ¬ ∀ (files : FileSet) (p : Path) (e : Expansion) (text : String) (found : List Requirement),
      (expand files .elide p).start.1 = .ok e → files.text? p.normalize = some text →
        Requirement.ofText p text = .ok found → found ⊆ e.requirements := by
  refine ⟨fun sound => ?_, fun kept => ?_, fun complete => ?_⟩
  · have lost := sound requirementBehind ⟨"a.dts"⟩ _ _ [] expand_requirementBehind rfl rfl
    exact absurd (lost (.head _)) List.not_mem_nil
  · have none_found : (Requirement.dependencies requirementBehind ⟨"a.dts"⟩).Ends .empty []
        ⟨[⟨"a.dts"⟩], []⟩ := Requirement.ends_dependencies_of_requires_none rfl
    have missing := kept requirementBehind ⟨"a.dts"⟩ _ [] expand_requirementBehind
      (congrArg Prod.fst none_found) ⟨"b.dti", 1⟩ (.head _)
    exact absurd missing List.not_mem_nil
  · have hidden := complete requirementInside ⟨"a.dts"⟩ _ _ [⟨"b.dti", 2⟩] expand_requirementInside
      rfl rfl
    exact absurd (hidden (.head _)) List.not_mem_nil

end TradeScript
