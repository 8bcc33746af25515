import TradeScript.Proofs.Template

/-!
# The segments of a template

A template is cut into plain texts and placeholders so that no placeholder begins within a text
(`Template.Cuts`). Every text has such a cut (`Template.cuts_segmentsOf`), and a template is filled
segment by segment along it, whatever the values are (`Template.Cuts.fill_eq`). So placeholders in
values are never replaced, and to put its own placeholder in the place of each hook changes nothing.

Main statement: `Template.exists_cuts`.
-/

namespace TradeScript

namespace Hook

theorem atFront?_eq_none_iff {cs : List Char} :
    atFront? cs = none ↔ ∀ h : Hook, ¬ h.placeholder.toList <+: cs := by
  constructor
  · rintro absent h ⟨rest, rfl⟩
    cases absent.symm.trans (h.atFront?_placeholder_append rest)
  · intro absent
    refine Option.eq_none_iff_forall_ne_some.2 ?_
    rintro ⟨h, rest⟩ found
    exact absent h ⟨rest, (atFront?_append found).symm⟩

end Hook

namespace Template

variable {values : List (Hook × String)}

/-! ## Filling along a cut -/

/-- A text is cut into segments such that no placeholder begins within a plain one. -/
structure Cuts (segments : List Segment) (text : List Char) : Prop where
  whole : segments.flatMap Segment.chars = text
  clear : ∀ before t after, segments = before ++ .text t :: after →
    ∀ front rest, t.toList = front ++ rest → rest ≠ [] →
      ∀ h : Hook, ¬ h.placeholder.toList <+: rest ++ after.flatMap Segment.chars

theorem fill_cons_of_absent {c : Char} {cs : List Char}
    (absent : Hook.atFront? (c :: cs) = none) : fill values (c :: cs) = c :: fill values cs := by
  rw [fill]
  split
  · next found => cases absent.symm.trans found
  · rfl

/-- Text in which no placeholder begins stays. -/
theorem fill_append_of_clear {cs behind : List Char}
    (clear : ∀ front rest, cs = front ++ rest → rest ≠ [] →
      ∀ h : Hook, ¬ h.placeholder.toList <+: rest ++ behind) :
    fill values (cs ++ behind) = cs ++ fill values behind := by
  induction cs with
  | nil => rfl
  | cons c cs ih =>
    have absent : Hook.atFront? (c :: cs ++ behind) = none :=
      Hook.atFront?_eq_none_iff.2 (clear [] (c :: cs) rfl (List.cons_ne_nil c cs))
    have more := ih fun front rest split => clear (c :: front) rest (by rw [split]; rfl)
    rw [List.cons_append] at absent ⊢
    rw [fill_cons_of_absent absent, more, List.cons_append]

/-- A text is filled segment by segment along a cut. -/
theorem Cuts.fill_eq {segments : List Segment} {text : List Char} (h : Cuts segments text)
    (values : List (Hook × String)) :
    fill values text = segments.flatMap (Segment.filled values) := by
  obtain ⟨rfl, clear⟩ := h
  induction segments with
  | nil => rw [List.flatMap_nil, List.flatMap_nil, fill]
  | cons s segments ih =>
    have more := ih fun before t after split => clear (s :: before) t after (by rw [split]; rfl)
    rw [List.flatMap_cons, List.flatMap_cons, ← more]
    cases s with
    | text t => exact fill_append_of_clear (clear [] t segments rfl)
    | hook h => exact fill_placeholder_append h _

/-! ## The cut of a text -/

/-- Segments with one more character of plain text in front. -/
def consChar (c : Char) : List Segment → List Segment
  | .text t :: others => .text (String.ofList (c :: t.toList)) :: others
  | others => .text (String.singleton c) :: others

/-- The segments of a text: what is left over by the placeholders, found from left to right, is plain
text. -/
def segmentsOf : List Char → List Segment
  | [] => []
  | c :: cs =>
    match _ : Hook.atFront? (c :: cs) with
    | some (h, rest) => .hook h :: segmentsOf rest
    | none => consChar c (segmentsOf cs)
  termination_by cs => cs.length
  decreasing_by
    · exact Hook.atFront?_rest_length_lt ‹_›
    · simp

theorem consChar_cases (c : Char) (segments : List Segment) :
    ∃ t others, consChar c segments = .text (String.ofList (c :: t)) :: others ∧
      ((t = [] ∧ segments = others) ∨ segments = .text (String.ofList t) :: others) := by
  unfold consChar
  split
  · next t others => exact ⟨t.toList, others, rfl, .inr (by rw [String.ofList_toList])⟩
  · exact ⟨[], segments, rfl, .inl ⟨rfl, rfl⟩⟩

/-- A character at which no placeholder begins is one more character of plain text. -/
theorem Cuts.consChar {segments : List Segment} {c : Char} {cs : List Char} (h : Cuts segments cs)
    (absent : Hook.atFront? (c :: cs) = none) : Cuts (consChar c segments) (c :: cs) := by
  obtain ⟨t, others, segments_eq, from_segments⟩ := consChar_cases c segments
  have behind : t ++ others.flatMap Segment.chars = cs := by
    rw [← h.whole]
    rcases from_segments with ⟨rfl, rfl⟩ | rfl
    · rfl
    · simp [Segment.chars]
  rw [segments_eq]
  refine ⟨by simpa [Segment.chars] using behind, fun before u after split front rest cut some => ?_⟩
  cases before with
  | nil =>
    obtain ⟨first, rfl⟩ := List.cons.inj split
    obtain rfl := Segment.text.inj first
    rw [String.toList_ofList] at cut
    cases front with
    | nil =>
      obtain rfl : rest = c :: t := cut.symm
      rw [List.cons_append, behind]
      exact Hook.atFront?_eq_none_iff.1 absent
    | cons d front =>
      have within : t = front ++ rest := (List.cons.inj cut).2
      rcases from_segments with ⟨rfl, -⟩ | rfl
      · exact absurd (List.append_eq_nil_iff.1 within.symm).2 some
      · exact h.clear [] _ others rfl front rest (by rw [String.toList_ofList, within]) some
  | cons s before =>
    obtain ⟨-, split⟩ := List.cons.inj split
    rcases from_segments with ⟨-, rfl⟩ | rfl
    · exact h.clear before u after split front rest cut some
    · exact h.clear (_ :: before) u after (by rw [split]; rfl) front rest cut some

theorem cuts_segmentsOf (cs : List Char) : Cuts (segmentsOf cs) cs := by
  fun_induction segmentsOf cs with
  | case1 => exact ⟨rfl, by simp⟩
  | case2 c cs h rest found ih =>
    refine ⟨?_, fun before t after split => ?_⟩
    · rw [List.flatMap_cons, ih.whole]
      exact (Hook.atFront?_append found).symm
    · cases before with
      | nil => cases split
      | cons s before =>
        obtain ⟨-, split⟩ := List.cons.inj split
        exact ih.clear before t after split
  | case3 c cs absent ih => exact ih.consChar absent

/-! ## One pass for all values -/

theorem valueOf_placeholders (h : Hook) :
    valueOf (Hook.all.map fun k => (k, k.placeholder)) h = h.placeholder := by
  cases h <;> rfl

/-- There is one cut of a template along which it is filled for all values: each text stays, and each
placeholder gives way to the first value of its hook, or to nothing. With its own placeholder as the
value of each hook the template stays as it is. -/
theorem exists_cuts (t : Template) : ∃ segments, Cuts segments t.text.toList ∧
    (∀ values, t.substitute values =
      String.ofList (segments.flatMap (Segment.filled values))) ∧
    t.substitute (Hook.all.map fun h => (h, h.placeholder)) = t.text := by
  have cut := cuts_segmentsOf t.text.toList
  have filled (values : List (Hook × String)) : t.substitute values =
      String.ofList ((segmentsOf t.text.toList).flatMap (Segment.filled values)) := by
    rw [substitute, cut.fill_eq]
  refine ⟨_, cut, filled, ?_⟩
  have same : Segment.filled (Hook.all.map fun h => (h, h.placeholder)) = Segment.chars := by
    funext s
    cases s with
    | text u => rfl
    | hook h => rw [Segment.filled, valueOf_placeholders, Segment.chars]
  rw [filled, same, cut.whole, String.ofList_toList]

end Template

end TradeScript
