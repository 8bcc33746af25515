import TradeScript.Requirement

/-!
# Two ways to read a requirement

A line that requires a script is found by the search for requirements (`Requirement.argument?`) and
read as a directive (`Directive.read`). Both see the same requirement on the same line
(`Directive.argument?_of_read`).
-/

namespace TradeScript

open Text

/-! ## Words at the front -/

theorem span_append {w rest : List Char} (all : w.all isWordChar = true)
    (stops : rest.head?.any isWordChar = false) :
    (w ++ rest).takeWhile isWordChar = w ∧ (w ++ rest).dropWhile isWordChar = rest := by
  rw [List.all_eq_true] at all
  rw [List.takeWhile_append_of_pos all, List.dropWhile_append_of_pos all]
  cases rest with
  | nil => simp
  | cons c rest =>
    have stop : isWordChar c = false := stops
    simp [stop]

theorem unquote?_eq_some_iff {cs body : List Char} :
    unquote? cs = some body ↔ cs = '"' :: body ++ ['"'] ∧ '"' ∉ body := by
  unfold unquote?
  constructor
  · intro h
    split at h
    · next rest =>
      split at h
      · next closed =>
        cases h
        obtain ⟨last, clean⟩ := closed
        obtain ⟨body, rfl⟩ := List.getLast?_eq_some_iff.1 last
        exact ⟨by simp, clean⟩
      · cases h
    · cases h
  · rintro ⟨rfl, clean⟩
    simp [clean]

namespace Requirement

/-! ## The search for requirements -/

/-- A line requires a script if the word after its sign says so. -/
theorem argument?_eq {line body : List Char} (sign : trimStart line = '#' :: body) :
    argument? line = if (trimStart body).takeWhile isWordChar = "require".toList then
      some (trim ((trimStart body).dropWhile isWordChar)) else none := by
  simp only [argument?, sign]
  have all : "require".toList.all isWordChar = true := by decide
  generalize "require".toList = word at all ⊢
  cases found : dropPrefix? word (trimStart body) with
  | none =>
    rw [if_neg]
    intro same
    have whole := List.takeWhile_append_dropWhile (p := isWordChar) (l := trimStart body)
    rw [same] at whole
    rw [← whole, dropPrefix?_append] at found
    cases found
  | some argument =>
    rw [dropPrefix?_eq_some_iff.1 found]
    cases goes_on : argument.head?.any isWordChar with
    | false =>
      obtain ⟨same, rest⟩ := span_append all goes_on
      simp [same, rest, goes_on]
    | true =>
      cases argument with
      | nil => cases goes_on
      | cons c argument =>
        have more : isWordChar c = true := goes_on
        have longer : (word ++ c :: argument).takeWhile isWordChar ≠ word := by
          rw [List.all_eq_true] at all
          simp [List.takeWhile_append_of_pos all, more]
        simp [longer, more]

theorem argument?_eq_none {line : List Char} (sign : (trimStart line).head? ≠ some '#') :
    argument? line = none := by
  unfold argument?
  split
  · next body at_front =>
    rw [at_front] at sign
    exact absurd rfl sign
  · rfl

end Requirement

namespace Directive

/-! ## Directives -/

theorem ofWord?_eq_requirement_iff {name : List Char} :
    DirectiveKind.ofWord? ('#' :: name) = some .requirement ↔ name = "require".toList := by
  constructor
  · intro h
    have word := List.find?_some h
    simpa [DirectiveKind.word, eq_comm] using word
  · rintro rfl
    decide

theorem ofWord?_dollar_ne (name : List Char) :
    DirectiveKind.ofWord? ('$' :: name) ≠ some .requirement := by
  intro h
  have word := List.find?_some h
  simp [DirectiveKind.word] at word

theorem unquote?_of_readArgument {word argument body : List Char}
    (h : readArgument .requirement word argument = .ok body) :
    argument = '"' :: body ++ ['"'] ∧ '"' ∉ body := by
  unfold readArgument at h
  split at h
  · cases h
  · simp only [DirectiveKind.isQuoted, if_true] at h
    split at h
    · next inner found =>
      cases h
      exact unquote?_eq_some_iff.1 found
    · cases h

theorem except_map_eq_ok {ε α β : Type} {f : α → β} {x : Except ε α} {b : β}
    (h : x.map f = .ok b) : ∃ a, x = .ok a ∧ f a = b := by
  cases x with
  | error e => cases h
  | ok a => exact ⟨a, rfl, Except.ok.inj h⟩

/-- A line that is read begins with no sign, or it is a directive: a sign, a known word and an argument
that this word accepts. -/
theorem read_eq_ok_cases {line : List Char} {result : Option (DirectiveKind × List Char)}
    (h : read line = .ok result) :
    (result = none ∧
      ∀ c ∈ (trimStart line).head?, c ≠ Marker.sign ∧ ¬ (c = '$' ∨ c = '#')) ∨
    ∃ sign body kind argument, trimStart line = sign :: body ∧ (sign = '$' ∨ sign = '#') ∧
      DirectiveKind.ofWord? (sign :: (trimStart body).takeWhile isWordChar) = some kind ∧
      readArgument kind (sign :: (trimStart body).takeWhile isWordChar)
        (trim ((trimStart body).dropWhile isWordChar)) = .ok argument ∧
      result = some (kind, argument) := by
  unfold read at h
  cases front : trimStart line with
  | nil =>
    simp only [front] at h
    cases h
    exact .inl ⟨rfl, by simp⟩
  | cons sign body =>
    simp only [front] at h
    split at h
    · cases h
    next unmarked =>
    split at h
    · next is_sign =>
      split at h
      · cases h
      split at h
      · cases h
      · next kind found =>
        obtain ⟨argument, kept, rfl⟩ := except_map_eq_ok h
        exact .inr ⟨sign, body, kind, argument, rfl, is_sign, found, kept, rfl⟩
    · next plain =>
      cases h
      refine .inl ⟨rfl, ?_⟩
      rintro c ⟨⟩
      exact ⟨unmarked, plain⟩

/-- What is read as a requirement is found as one, with the quotes still in place, and what is read
otherwise is not found. -/
theorem argument?_of_read {line : List Char} {result : Option (DirectiveKind × List Char)}
    (h : read line = .ok result) :
    (∃ body, result = some (.requirement, body) ∧
      Requirement.argument? line = some ('"' :: body ++ ['"']) ∧ '"' ∉ body) ∨
    (∀ body, result ≠ some (.requirement, body)) ∧ Requirement.argument? line = none := by
  obtain ⟨rfl, plain⟩ | ⟨sign, body, kind, argument, front, dollar | hash, found, kept, rfl⟩ :=
    read_eq_ok_cases h
  · refine .inr ⟨by simp, Requirement.argument?_eq_none fun hash => ?_⟩
    exact (plain '#' hash).2 (.inr rfl)
  · subst dollar
    refine .inr ⟨?_, Requirement.argument?_eq_none (by simp [front])⟩
    rintro body ⟨⟩
    exact ofWord?_dollar_ne _ found
  · subst hash
    rw [Requirement.argument?_eq front]
    by_cases requires : (trimStart body).takeWhile isWordChar = "require".toList
    · rw [ofWord?_eq_requirement_iff.2 requires] at found
      cases found
      obtain ⟨quoted, clean⟩ := unquote?_of_readArgument kept
      exact .inl ⟨argument, rfl, by rw [if_pos requires, quoted], clean⟩
    · refine .inr ⟨?_, if_neg requires⟩
      rintro body ⟨⟩
      exact requires (ofWord?_eq_requirement_iff.1 found)

end Directive

end TradeScript
