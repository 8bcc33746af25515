import TradeScript.Template

/-!
# Filling a template

A template whose lines consist of plain texts and placeholders (`Segment`) is filled line by line and
segment by segment (`Template.fill_unlines`). So the lines of the default template for algorithms can
be listed with the values in their places (`Templates.substitute_defaultAlgorithm`).
-/

namespace TradeScript

open Text

/-- A part of a template: plain text, or a placeholder. -/
inductive Segment
  | text (text : String)
  | hook (hook : Hook)

namespace Segment

/-- The characters of a segment in its template. -/
def chars : Segment → List Char
  | text t => t.toList
  | hook h => h.placeholder.toList

/-- The characters of a segment with the value of its placeholder in its place. -/
def filled (values : List (Hook × String)) : Segment → List Char
  | text t => t.toList
  | hook h => (Template.valueOf values h).toList

/-- Plain text in which no placeholder begins, or a placeholder. -/
def Plain : Segment → Prop
  | text t => '%' ∉ t.toList
  | hook _ => True

instance : DecidablePred Plain
  | text t => inferInstanceAs (Decidable ('%' ∉ t.toList))
  | hook _ => inferInstanceAs (Decidable True)

end Segment

namespace Hook

theorem atFront?_of_ne {c : Char} (other : c ≠ '%') (cs : List Char) :
    atFront? (c :: cs) = none := by
  unfold atFront?
  rw [List.findSome?_eq_none_iff]
  intro h _
  rw [Option.map_eq_none_iff, Option.eq_none_iff_forall_ne_some]
  intro rest found
  have front := dropPrefix?_eq_some_iff.1 found
  have first : h.placeholder.toList.head? = some '%' := by cases h <;> rfl
  obtain ⟨ds, whole⟩ := List.head?_eq_some_iff.1 first
  rw [whole] at front
  exact other (List.cons.inj front).1

theorem atFront?_placeholder_append (h : Hook) (rest : List Char) :
    atFront? (h.placeholder.toList ++ rest) = some (h, rest) := by
  cases h <;> rfl

end Hook

namespace Template

variable {values : List (Hook × String)}

theorem fill_placeholder_append (h : Hook) (rest : List Char) :
    fill values (h.placeholder.toList ++ rest) =
      (valueOf values h).toList ++ fill values rest := by
  have found := h.atFront?_placeholder_append rest
  have visible : h.placeholder.toList ≠ [] := List.ne_nil_of_length_pos h.placeholder_length_pos
  obtain ⟨c, cs, whole⟩ := List.exists_cons_of_ne_nil visible
  rw [whole, List.cons_append] at found ⊢
  rw [fill]
  split
  · next found' =>
    cases found.symm.trans found'
    rfl
  · next missing => cases found.symm.trans missing

theorem fill_cons_of_ne {c : Char} (other : c ≠ '%') (cs : List Char) :
    fill values (c :: cs) = c :: fill values cs := by
  have absent := Hook.atFront?_of_ne other cs
  rw [fill]
  split
  · next found => cases absent.symm.trans found
  · rfl

theorem fill_append_of_plain {front : List Char} (plain : '%' ∉ front) (rest : List Char) :
    fill values (front ++ rest) = front ++ fill values rest := by
  induction front with
  | nil => rfl
  | cons c front ih =>
    rw [List.mem_cons, not_or] at plain
    rw [List.cons_append, fill_cons_of_ne (Ne.symm plain.1), ih plain.2, List.cons_append]

/-- Texts and placeholders are filled one after the other. -/
theorem fill_segments {segments : List Segment} (plain : ∀ s ∈ segments, s.Plain)
    (rest : List Char) : fill values (segments.flatMap Segment.chars ++ rest) =
      segments.flatMap (Segment.filled values) ++ fill values rest := by
  induction segments with
  | nil => rfl
  | cons s segments ih =>
    rw [List.forall_mem_cons] at plain
    rw [List.flatMap_cons, List.flatMap_cons, List.append_assoc, List.append_assoc, ← ih plain.2]
    cases s with
    | text t => exact fill_append_of_plain plain.1 _
    | hook h => exact fill_placeholder_append h _

/-- Lines of texts and placeholders are filled one after the other. -/
theorem fill_unlines {lines : List (List Segment)} (plain : ∀ line ∈ lines, ∀ s ∈ line, s.Plain) :
    fill values (unlines (lines.map fun line => line.flatMap Segment.chars)) =
      unlines (lines.map fun line => line.flatMap (Segment.filled values)) := by
  induction lines with
  | nil => rw [List.map_nil, unlines, fill, List.map_nil, unlines]
  | cons line lines ih =>
    rw [List.forall_mem_cons] at plain
    rw [List.map_cons, List.map_cons, unlines, unlines, fill_segments plain.1,
      fill_cons_of_ne (by decide), ih plain.2]

end Template

namespace Templates

/-! ## The default template of an algorithm -/

/-- The lines of the default template of an algorithm. -/
def algorithmLines : List (List Segment) :=
  [[.text "// ", .hook .algorithmName, .text ": generated by dtbuild"],
    [.text "#include <dtbuild/algorithm.h>"],
    [.hook .includes],
    [],
    [.text "#define INDICATORS ", .hook .indicatorCount],
    [],
    [.text "using namespace dtbuild;"],
    [],
    [.text "extern \"C\" int ranges_size() \x7b return INDICATORS + 1; \x7d"],
    [],
    [.hook .indicatorDefinitions],
    [],
    [.text "extern \"C\" void algorithm(AlgorithmData& out)"],
    [.text "\x7b"],
    [.text "\tinit_algorithm(out, \"", .hook .algorithmName, .text "\", INDICATORS + 1);"],
    [.hook .indicatorDeclarations],
    [.hook .indicatorData],
    [.text "\tconst int action = [&]() -> int"],
    [.text "\t\x7b"],
    [.hook .algorithmScript],
    [.text "\t\treturn ACTION_NOTHING;"],
    [.text "\t\x7d();"],
    [.text "\tout.set_action(action);"],
    [.text "\x7d"]]

/-- These lines with a value for each placeholder. -/
def filledAlgorithm (value : Hook → String) : List String :=
  ["// " ++ value .algorithmName ++ ": generated by dtbuild",
    "#include <dtbuild/algorithm.h>",
    value .includes,
    "",
    "#define INDICATORS " ++ value .indicatorCount,
    "",
    "using namespace dtbuild;",
    "",
    "extern \"C\" int ranges_size() \x7b return INDICATORS + 1; \x7d",
    "",
    value .indicatorDefinitions,
    "",
    "extern \"C\" void algorithm(AlgorithmData& out)",
    "\x7b",
    "\tinit_algorithm(out, \"" ++ value .algorithmName ++ "\", INDICATORS + 1);",
    value .indicatorDeclarations,
    value .indicatorData,
    "\tconst int action = [&]() -> int",
    "\t\x7b",
    value .algorithmScript,
    "\t\treturn ACTION_NOTHING;",
    "\t\x7d();",
    "\tout.set_action(action);",
    "\x7d"]

theorem toList_defaultAlgorithm : defaultAlgorithm.text.toList =
    unlines (algorithmLines.map fun line => line.flatMap Segment.chars) := by
  rw [defaultAlgorithm, ofLines, String.toList_ofList]
  exact congrArg unlines (by decide +kernel)

theorem plain_algorithmLines : ∀ line ∈ algorithmLines, ∀ s ∈ line, s.Plain := by
  decide +kernel

theorem filled_algorithmLines (values : List (Hook × String)) :
    (algorithmLines.map fun line => line.flatMap (Segment.filled values)) =
      (filledAlgorithm (Template.valueOf values)).map String.toList := by
  simp [algorithmLines, filledAlgorithm, Segment.filled]

/-- The default template of an algorithm, filled. -/
theorem substitute_defaultAlgorithm (values : List (Hook × String)) :
    defaultAlgorithm.substitute values =
      String.ofList (unlines ((filledAlgorithm (Template.valueOf values)).map String.toList)) := by
  rw [Template.substitute, toList_defaultAlgorithm, Template.fill_unlines plain_algorithmLines,
    filled_algorithmLines]

end Templates

end TradeScript
