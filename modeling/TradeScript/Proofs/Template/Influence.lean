import Mathlib.Algebra.Order.BigOperators.Group.List
import Mathlib.Algebra.Order.Ring.Nat
import TradeScript.Proofs.Template.Segment

/-!
# What a template depends on

A hook influences a template if some change of its value alone changes the filled template
(`Template.Influences`). The hooks that do are those of the segments of the template
(`Template.influences_iff`), and from the filled template the value of such a hook can be told
(`Template.substitute_injective`).

`Template.contains` looks for the placeholder of a hook anywhere in the text. It finds the hooks
that influence the template, and others only where two placeholders share the `%` between them: the
second one is then not replaced, since its first `%` is taken by the one before it.

Main statement: `Template.contains_iff_influences_or_overlaps`.
-/

namespace TradeScript

namespace Hook

/-- What stands between the two `%` of a placeholder. -/
def word (h : Hook) : List Char :=
  h.placeholder.toList.tail.dropLast

theorem placeholder_eq (h : Hook) : h.placeholder.toList = '%' :: (h.word ++ ['%']) := by
  cases h <;> rfl

theorem percent_not_mem_word (h : Hook) : '%' ∉ h.word := by
  cases h <;> decide

/-- A placeholder that stands behind another one, or begins within it, is that one, or stands behind
it as a whole, or shares its first `%` with it. -/
theorem place_of_placeholder_append {h k : Hook} {rest front back : List Char}
    (split : k.placeholder.toList ++ rest = front ++ (h.placeholder.toList ++ back)) :
    k = h ∨ h.placeholder.toList <:+: rest ∨ h.placeholder.toList.tail <+: rest := by
  rcases List.append_eq_append_iff.1 split with ⟨behind, -, after⟩ | ⟨shared, first, common⟩
  · exact .inr (.inl ⟨behind, back, by rw [after, List.append_assoc]⟩)
  rw [k.placeholder_eq] at first
  rcases List.cons_eq_append_iff.1 first with ⟨-, whole⟩ | ⟨more, -, word⟩
  · -- both begin at the same place
    have found := h.atFront?_placeholder_append back
    rw [common, whole, ← k.placeholder_eq, k.atFront?_placeholder_append] at found
    exact .inl (Prod.mk.inj (Option.some.inj found)).1
  · rw [h.placeholder_eq] at common ⊢
    cases shared with
    | nil => exact .inr (.inl ⟨[], back, common⟩)
    | cons c shared =>
      obtain ⟨rfl, behind⟩ := List.cons.inj common
      -- the only `%` behind the first one is the one that closes the placeholder
      have absent : '%' ∉ ([] : List Char) := List.not_mem_nil
      obtain ⟨-, -, rfl⟩ :=
        (List.append_cons_inj_of_notMem k.percent_not_mem_word absent).1 word
      exact .inr (.inr ⟨back, behind⟩)

end Hook

namespace Template

variable {values values' : List (Hook × String)} {h : Hook}

/-! ## The segments of a text and its placeholders -/

theorem hook_mem_consChar {c : Char} {segments : List Segment} :
    .hook h ∈ consChar c segments ↔ .hook h ∈ segments := by
  unfold consChar
  split <;> simp

/-- A placeholder in a text is one of its segments, or it begins with the `%` that closes another
placeholder. -/
theorem mem_segmentsOf_or_overlaps {cs : List Char} (occurs : h.placeholder.toList <:+: cs) :
    .hook h ∈ segmentsOf cs ∨
      ∃ k : Hook, k.placeholder.toList ++ h.placeholder.toList.tail <:+: cs := by
  fun_induction segmentsOf cs with
  | case1 =>
    rw [List.infix_nil, h.placeholder_eq] at occurs
    cases occurs
  | case2 c cs k rest found ih =>
    have split := Hook.atFront?_append found
    rw [split] at occurs ⊢
    obtain ⟨front, back, place⟩ := occurs
    rw [List.append_assoc] at place
    rcases Hook.place_of_placeholder_append place.symm with rfl | behind | shares
    · exact .inl List.mem_cons_self
    · rcases ih behind with here | ⟨l, overlaps⟩
      · exact .inl (List.mem_cons_of_mem _ here)
      · exact .inr ⟨l, overlaps.trans (List.suffix_append _ rest).isInfix⟩
    · exact .inr ⟨k, ((List.prefix_append_right_inj _).2 shares).isInfix⟩
  | case3 c cs absent ih =>
    rw [hook_mem_consChar]
    rcases List.infix_cons_iff.1 occurs with here | behind
    · exact absurd here (Hook.atFront?_eq_none_iff.1 absent h)
    · rcases ih behind with inside | ⟨k, overlaps⟩
      · exact .inl inside
      · exact .inr ⟨k, overlaps.trans (List.suffix_cons c cs).isInfix⟩

theorem occurs_of_mem_segmentsOf {cs : List Char} (mem : .hook h ∈ segmentsOf cs) :
    h.placeholder.toList <:+: cs := by
  obtain ⟨before, after, split⟩ := List.append_of_mem mem
  rw [← (cuts_segmentsOf cs).whole, split]
  exact ⟨before.flatMap Segment.chars, after.flatMap Segment.chars, by simp [Segment.chars]⟩

theorem occurs_of_overlaps {k : Hook} {cs : List Char}
    (overlaps : k.placeholder.toList ++ h.placeholder.toList.tail <:+: cs) :
    h.placeholder.toList <:+: cs := by
  refine List.IsInfix.trans (List.IsSuffix.isInfix ⟨'%' :: k.word, ?_⟩) overlaps
  rw [k.placeholder_eq, h.placeholder_eq]
  simp

/-! ## Changing one value -/

/-- Values for the same hooks in the same order, which differ only in what is given for one. -/
def DifferOnlyIn (h : Hook) (values values' : List (Hook × String)) : Prop :=
  List.Forall₂ (fun given given' => given.1 = given'.1 ∧ (given.1 ≠ h → given.2 = given'.2))
    values values'

/-- What is given for a hook can change the filled template. -/
def Influences (h : Hook) (t : Template) : Prop :=
  ∃ values values', DifferOnlyIn h values values' ∧ t.substitute values ≠ t.substitute values'

theorem DifferOnlyIn.valueOf_eq (differ : DifferOnlyIn h values values') {k : Hook}
    (other : k ≠ h) : valueOf values k = valueOf values' k := by
  induction differ with
  | nil => rfl
  | @cons given given' values values' same _ ih =>
    obtain ⟨hook, value⟩ := given
    obtain ⟨hook', value'⟩ := given'
    obtain ⟨rfl, same⟩ := same
    unfold valueOf at ih ⊢
    rw [List.lookup_cons, List.lookup_cons]
    by_cases here : k = hook
    · subst here
      simpa using same other
    · simpa [beq_eq_false_iff_ne.2 here] using ih

/-- A hook that is no segment does not matter. -/
theorem flatMap_filled_congr {segments : List Segment} (absent : .hook h ∉ segments)
    (others : ∀ k, k ≠ h → valueOf values k = valueOf values' k) :
    segments.flatMap (Segment.filled values) = segments.flatMap (Segment.filled values') := by
  refine List.flatMap_congr fun s mem => ?_
  cases s with
  | text t => rfl
  | hook k =>
    have other : k ≠ h := by
      rintro rfl
      exact absent mem
    rw [Segment.filled, Segment.filled, others k other]

/-- Where the pieces have the same lengths, the whole tells them apart. -/
theorem eq_of_flatMap_eq {α β : Type} {f g : α → List β} {l : List α}
    (lengths : ∀ a ∈ l, (f a).length = (g a).length) (same : l.flatMap f = l.flatMap g) :
    ∀ a ∈ l, f a = g a := by
  induction l with
  | nil => simp
  | cons a l ih =>
    rw [List.forall_mem_cons] at lengths ⊢
    rw [List.flatMap_cons, List.flatMap_cons] at same
    obtain ⟨here, behind⟩ := List.append_inj same lengths.1
    exact ⟨here, ih lengths.2 behind⟩

theorem filled_hook_cons (h : Hook) (value : String) (values : List (Hook × String)) :
    Segment.filled ((h, value) :: values) (.hook h) = value.toList := by
  simp [Segment.filled, valueOf]

theorem filled_cons_congr {s : Segment} (other : s ≠ .hook h) (value value' : String)
    (values : List (Hook × String)) :
    Segment.filled ((h, value) :: values) s = Segment.filled ((h, value') :: values) s := by
  cases s with
  | text t => rfl
  | hook k =>
    have apart : (k == h) = false := beq_false_of_ne fun same => other (congrArg Segment.hook same)
    simp [Segment.filled, valueOf, List.lookup_cons, apart]

/-- The filled segments of a text tell the value of a hook among them. -/
theorem flatMap_filled_injective {segments : List Segment} (mem : .hook h ∈ segments)
    (values : List (Hook × String)) : Function.Injective fun value : String =>
      segments.flatMap (Segment.filled ((h, value) :: values)) := by
  -- a longer value makes a longer text
  have shorter {value value' : String} (lt : value.toList.length < value'.toList.length) :
      (segments.flatMap (Segment.filled ((h, value) :: values))).length <
        (segments.flatMap (Segment.filled ((h, value') :: values))).length := by
    rw [List.length_flatMap, List.length_flatMap]
    refine List.sum_lt_sum _ _ (fun s _ => ?_) ⟨_, mem, ?_⟩
    · by_cases here : s = .hook h
      · rw [here, filled_hook_cons, filled_hook_cons]
        exact Nat.le_of_lt lt
      · rw [filled_cons_congr here value value']
    · rw [filled_hook_cons, filled_hook_cons]
      exact lt
  intro value value' same
  have lengths : value.toList.length = value'.toList.length := by
    rcases Nat.lt_trichotomy value.toList.length value'.toList.length with lt | eq | lt
    · exact absurd (congrArg List.length same) (Nat.ne_of_lt (shorter lt))
    · exact eq
    · exact absurd (congrArg List.length same) (Nat.ne_of_gt (shorter lt))
  have piecewise := eq_of_flatMap_eq (fun s _ => ?_) same _ mem
  · rw [filled_hook_cons, filled_hook_cons] at piecewise
    exact String.toList_injective piecewise
  · by_cases here : s = .hook h
    · rw [here, filled_hook_cons, filled_hook_cons, lengths]
    · rw [filled_cons_congr here value value']

/-! ## What `contains` finds -/

theorem substitute_eq (t : Template) (values : List (Hook × String)) : t.substitute values =
    String.ofList ((segmentsOf t.text.toList).flatMap (Segment.filled values)) := by
  rw [substitute, (cuts_segmentsOf t.text.toList).fill_eq]

/-- From a filled template the value of a hook that is replaced can be told. -/
theorem substitute_injective {t : Template} (mem : .hook h ∈ segmentsOf t.text.toList)
    (values : List (Hook × String)) :
    Function.Injective fun value => t.substitute ((h, value) :: values) := by
  intro value value' (same : t.substitute ((h, value) :: values) =
    t.substitute ((h, value') :: values))
  rw [substitute_eq, substitute_eq] at same
  exact flatMap_filled_injective mem values (String.ofList_injective same)

theorem influences_iff {t : Template} :
    Influences h t ↔ .hook h ∈ segmentsOf t.text.toList := by
  constructor
  · rintro ⟨values, values', differ, changes⟩
    by_contra absent
    refine changes ?_
    rw [substitute_eq, substitute_eq,
      flatMap_filled_congr absent fun k other => differ.valueOf_eq other]
  · intro mem
    refine ⟨[(h, "")], [(h, "%")], .cons ⟨rfl, fun other => absurd rfl other⟩ .nil, fun same => ?_⟩
    exact absurd (substitute_injective mem [] same) (by decide)

/-- A template contains the hooks that influence it, and those whose placeholder begins with the `%`
that closes another one. To change the value of a hook that influences a template always changes
the filled template. -/
theorem contains_iff_influences_or_overlaps (t : Template) (h : Hook) :
    (t.contains h = true ↔ Influences h t ∨
      ∃ k : Hook, k.placeholder.toList ++ h.placeholder.toList.tail <:+: t.text.toList) ∧
    (Influences h t → ∀ values, Function.Injective fun value =>
      t.substitute ((h, value) :: values)) := by
  rw [contains, Text.occurs_iff, influences_iff]
  refine ⟨⟨mem_segmentsOf_or_overlaps, ?_⟩, fun mem => substitute_injective mem⟩
  rintro (mem | ⟨k, overlaps⟩)
  · exact occurs_of_mem_segmentsOf mem
  · exact occurs_of_overlaps overlaps

/-- In `%INCLUDES%ALGORITHM_NAME%` the second placeholder is found, but not replaced. -/
theorem not_forall_contains_iff_influences :
    ¬ ∀ (t : Template) (h : Hook), t.contains h = true ↔ Influences h t := by
  intro agrees
  have found : contains ⟨"%INCLUDES%ALGORITHM_NAME%"⟩ .algorithmName = true := by decide
  obtain ⟨values, values', differ, changes⟩ := (agrees _ _).1 found
  have split : "%INCLUDES%ALGORITHM_NAME%".toList =
      Hook.includes.placeholder.toList ++ ("ALGORITHM_NAME".toList ++ ['%']) := by decide
  have filled (values : List (Hook × String)) : fill values "%INCLUDES%ALGORITHM_NAME%".toList =
      (valueOf values .includes).toList ++ ("ALGORITHM_NAME".toList ++ ['%']) := by
    rw [split, fill_placeholder_append, fill_append_of_plain (by decide),
      fill_cons_of_absent (by decide), fill]
  refine changes ?_
  rw [substitute, substitute, filled, filled, differ.valueOf_eq (by decide)]

end Template

end TradeScript
