import TradeScript.Proofs.Code.Literal
import TradeScript.Proofs.Template.Segment
import TradeScript.Proofs.Text.Lines

/-!
# Literals in a template

No placeholder has a double quote or a newline in it, so a template is filled apart on both sides of
one (`Template.fill_append_cons`). Where the placeholder of a label stands in a literal of a template,
the filled template has a literal with the label in its place, if the label is escaped
(`Template.keepsLabel`). The default templates have a literal for each label
(`Templates.stands_defaultAlgorithm`, `Templates.stands_defaultIndicator`).
-/

namespace TradeScript

open Text

namespace Hook

/-- A character that no placeholder has. -/
def Foreign (c : Char) : Prop :=
  ∀ h : Hook, c ∉ h.placeholder.toList

theorem foreign_quote : Foreign '"' := by
  intro h
  cases h <;> decide

theorem foreign_newline : Foreign '\n' := by
  intro h
  cases h <;> decide

variable {c : Char}

theorem Foreign.ne_percent (foreign : Foreign c) : c ≠ '%' := by
  rintro rfl
  exact foreign .includes (by decide)

/-- No placeholder goes over a foreign character. -/
theorem atFront?_append_cons (foreign : Foreign c) {cs : List Char} (absent : atFront? cs = none)
    (rest : List Char) : atFront? (cs ++ c :: rest) = none := by
  rw [atFront?_eq_none_iff] at absent ⊢
  rintro h ⟨back, split⟩
  rcases List.append_eq_append_iff.1 split with ⟨within, whole, -⟩ | ⟨beyond, whole, behind⟩
  · exact absent h ⟨within, whole.symm⟩
  · -- a placeholder that ends behind `cs` has the first character there in it
    cases beyond with
    | nil => exact absent h ⟨[], by rw [whole, List.append_nil, List.append_nil]⟩
    | cons d beyond =>
      obtain ⟨rfl, -⟩ := List.cons.inj behind
      exact foreign h (by simp [whole])

end Hook

namespace Template

variable {values : List (Hook × String)}

theorem fill_append_cons {c : Char} (foreign : Hook.Foreign c) (front rest : List Char) :
    fill values (front ++ c :: rest) = fill values front ++ c :: fill values rest := by
  fun_induction fill values front with
  | case1 => exact fill_cons_of_ne foreign.ne_percent rest
  | case2 d cs h behind found ih =>
    rw [Hook.atFront?_append found, List.append_assoc, fill_placeholder_append, ih,
      List.append_assoc]
  | case3 d cs absent ih =>
    have absent' := Hook.atFront?_append_cons foreign absent rest
    rw [List.cons_append] at absent' ⊢
    rw [fill_cons_of_absent absent', ih, List.cons_append]

/-- What stands behind whole lines is filled apart from them. -/
theorem fill_unlines_append (lines : List (List Char)) (rest : List Char) :
    fill values (unlines lines ++ rest) = fill values (unlines lines) ++ fill values rest := by
  induction lines with
  | nil => rw [unlines, fill, List.nil_append, List.nil_append]
  | cons line lines ih =>
    rw [unlines, List.append_assoc, List.cons_append, fill_append_cons Hook.foreign_newline, ih,
      fill_append_cons Hook.foreign_newline, List.append_assoc, List.cons_append]

/-! ## The literal of a label -/

/-- A filled template keeps a label to its literals: where the placeholder of `h` stands in a literal
of the template, on its own or among plain text, a literal with the label in its place stands in the
filled template, and it ends at the quote that ends the one of the template. -/
def KeepsLabel (t : Template) (values : List (Hook × String)) (h : Hook) (label : String) : Prop :=
  ∀ front opening closing rest : List Char, '%' ∉ opening → '%' ∉ closing →
    (Literal.read opening).2 = .unclosed → (Literal.read closing).2 = .unclosed →
    t.text.toList =
      front ++ '"' :: (opening ++ (h.placeholder.toList ++ (closing ++ '"' :: rest))) →
    Literal.Stands ((Literal.read opening).1 ++ label.toList ++ (Literal.read closing).1)
      (fill values front) (fill values rest) (t.substitute values).toList

theorem keepsLabel (t : Template) {h : Hook} {label : String}
    (escaped : (valueOf values h).toList = Literal.escape label.toList) :
    t.KeepsLabel values h label := by
  intro front opening closing rest plain plain' stays_open stays_open' split
  rw [substitute, String.toList_ofList, split, fill_append_cons Hook.foreign_quote,
    fill_append_of_plain plain, fill_placeholder_append, fill_append_of_plain plain',
    fill_cons_of_ne (by decide), escaped]
  exact .of_escape stays_open stays_open' _ _ _

variable {texts : List String} {line : String}

/-- A label in a literal of its own, on a line of the template with some segments in front of the
literal and plain text behind it. -/
theorem KeepsLabel.stands_of_line {h : Hook} {label : String}
    (keeps : (Templates.ofLines texts).KeepsLabel values h label) (mem : line ∈ texts)
    {segments : List Segment} {before after : List Char}
    (split : line.toList =
      segments.flatMap Segment.chars ++ '"' :: (h.placeholder.toList ++ '"' :: after))
    (plain : ∀ s ∈ segments, s.Plain) (plain' : '%' ∉ after)
    (filled : segments.flatMap (Segment.filled values) = before) :
    ∃ front rest, Literal.Stands label.toList (front ++ before) (after ++ '\n' :: rest)
      ((Templates.ofLines texts).substitute values).toList := by
  obtain ⟨linesBefore, linesAfter, whole⟩ :=
    exists_unlines_of_mem (List.mem_map_of_mem (f := String.toList) mem)
  rw [split] at whole
  have literal := keeps (unlines linesBefore ++ segments.flatMap Segment.chars) [] []
    (after ++ '\n' :: unlines linesAfter) List.not_mem_nil List.not_mem_nil rfl rfl
    (by rw [Templates.ofLines, String.toList_ofList, whole]; simp)
  have filled' : fill values (segments.flatMap Segment.chars) = before := by
    rw [← List.append_nil (segments.flatMap Segment.chars), fill_segments plain, fill,
      List.append_nil, filled]
  rw [fill_unlines_append, filled', fill_append_of_plain plain', fill_cons_of_ne (by decide)]
    at literal
  exact ⟨_, _, by simpa [Literal.read] using literal⟩

end Template

namespace Templates

open Template

variable {values : List (Hook × String)} {label : String}

/-- The default template of an algorithm gives its label to the runtime in a literal. -/
theorem stands_defaultAlgorithm
    (keeps : defaultAlgorithm.KeepsLabel values .algorithmName label) :
    ∃ front rest, Literal.Stands label.toList (front ++ "\tinit_algorithm(out, ".toList)
      (", INDICATORS + 1);".toList ++ '\n' :: rest) (defaultAlgorithm.substitute values).toList := by
  have split : "\tinit_algorithm(out, \"%ALGORITHM_NAME%\", INDICATORS + 1);".toList =
      [Segment.text "\tinit_algorithm(out, "].flatMap Segment.chars ++
        '"' :: (Hook.algorithmName.placeholder.toList ++
          '"' :: ", INDICATORS + 1);".toList) := by
    decide +kernel
  exact KeepsLabel.stands_of_line keeps (by simp) split (by decide) (by decide)
    (List.flatMap_singleton _ _)

/-- The default template of an indicator gives its label to the class in a literal. -/
theorem stands_defaultIndicator
    (keeps : defaultIndicator.KeepsLabel values .indicatorLabel label) :
    ∃ front rest, Literal.Stands label.toList
      (front ++ ("\t" ++ valueOf values .indicatorClass ++
        "(std::initializer_list<double> init) : IndicatorKind(\"" ++
        valueOf values .indicatorClass ++ "\", ").toList)
      (", init) \x7b\x7d".toList ++ '\n' :: rest) (defaultIndicator.substitute values).toList := by
  have split : ("\t%INDICATOR_CLASS%(std::initializer_list<double> init) : " ++
      "IndicatorKind(\"%INDICATOR_CLASS%\", \"%INDICATOR_LABEL%\", init) \x7b\x7d").toList =
      [Segment.text "\t", .hook .indicatorClass,
        .text "(std::initializer_list<double> init) : IndicatorKind(\"", .hook .indicatorClass,
        .text "\", "].flatMap Segment.chars ++
        '"' :: (Hook.indicatorLabel.placeholder.toList ++ '"' :: ", init) \x7b\x7d".toList) := by
    decide +kernel
  exact KeepsLabel.stands_of_line keeps (by simp) split (by decide) (by decide)
    (by simp [Segment.filled])

/-- The default template of an algorithm has the definitions of its indicators on lines of their
own. -/
theorem exists_definitions_defaultAlgorithm (values : List (Hook × String)) :
    ∃ front rest, (defaultAlgorithm.substitute values).toList =
      front ++ ((valueOf values .indicatorDefinitions).toList ++ '\n' :: rest) := by
  have mem : (valueOf values .indicatorDefinitions).toList ∈
      (filledAlgorithm (valueOf values)).map String.toList :=
    List.mem_map_of_mem (by simp [filledAlgorithm])
  obtain ⟨before, after, whole⟩ := exists_unlines_of_mem mem
  rw [substitute_defaultAlgorithm, String.toList_ofList]
  exact ⟨_, _, whole⟩

end Templates

end TradeScript
